import UnitCache.Proofs.CacheFreshness
import UnitCache.Proofs.CacheInjection
import UnitCache.Proofs.LogBlind

namespace UnitCache

open HasLog (withLog)

namespace Cache

variable {κ η α β : Type}

namespace Keeps

theorem cache_inject (k : ContextKind κ η) (name : String) (bytes : Bytes) :
    Keeps Workbench.cache (inject k name bytes) := fun _ => rfl

theorem cache_injectMissing (k : ContextKind κ η) (as : List (String × Bytes)) :
    Keeps Workbench.cache (injectMissing k as) := by
  induction as with
  | nil => exact fun _ => rfl
  | cons a as ih =>
    refine get_bind fun w => ?_
    cases k.isDefined w.context a.1 with
    | true => exact ih
    | false => exact (cache_inject k a.1 a.2).bind fun _ => ih

theorem cache_deliver (k : ContextKind κ η) (r : CompileResult) :
    Keeps Workbench.cache (deliver Cache.persist k r) := by
  unfold deliver
  cases r.artifacts.get? r.unit with
  | none => exact fun _ => rfl
  | some bytes =>
    refine (keepAll (Keeps.persist fun _ _ => rfl) _).bind fun _ => ?_
    exact (cache_inject k _ _).bind fun _ => cache_injectMissing k _

end Keeps

variable {t : Toolchain} {name text : String} {w : Workbench κ}

/-- A compile that closes nothing changes what is captured, and nothing else in the cache. -/
theorem cleared_compileSource (ht : t.NeverCloses) (w : Workbench κ) :
    ((compileSource t name text).run w).2.cleared.cache = w.cleared.cache := by
  rcases hs : (w.cache.stage name text).run w.host with ⟨e | unit, h⟩
  · rw [run_compileSource_refused hs]
    rfl
  · have hc := Capture.run_classpath h.disk
      (w.cache.registry.capture.dialogue t unit h.disk) w.cache.registry.capture
    have hn : .close ∉ (w.cache.registry.capture.dialogue t unit h.disk).calls
        (Capture.manager h.disk) w.cache.registry.capture := (ht _ _ _).calls _ _
    rw [if_neg hn] at hc
    rw [run_compileSource_staged hs]
    unfold Workbench.cleared compiledBench Registry.clear Capture.clear Registry.Work.compiled
    simp only [hc]

/-- A load that closes nothing leaves the cache as it was, but with nothing captured. -/
theorem cache_load (ht : t.NeverCloses) (k : ContextKind κ η) (w : Workbench κ) :
    ((load t k name text).run w).2.cache = w.cleared.cache := by
  rw [load, run_loadWith]
  have hc : ((compileSource t name text).run w).2.cleared.cache = w.cleared.cache :=
    cleared_compileSource ht w
  have hclear (w₁ w₂ : Workbench κ) (h : w₂.cache = w₁.cache) :
      w₂.cleared.cache = w₁.cleared.cache := by
    rw [Workbench.cleared, Workbench.cleared, h]
  rcases hr : (compileSource t name text).run w with ⟨e | r, w₁⟩ <;> rw [hr] at hc
  · rw [run_bind_error hr]
    exact hc
  · rw [run_bind_ok hr]
    have hd := hclear _ _ (Keeps.cache_deliver k r w₁)
    rcases hr' : (deliver persist k r).run w₁ with ⟨e | _, w₂⟩ <;> rw [hr'] at hd
    · exact hd.trans hc
    · exact hd.trans hc

theorem cleared_of_empty (he : w.cache.registry.capture.outputs = .empty) :
    w.cleared.cache = w.cache := by
  rw [Workbench.cleared, Registry.clear, Capture.clear, ← he]

theorem cache_loadFrom {location : String} (ht : t.NeverCloses) (k : ContextKind κ η)
    (he : w.cache.registry.capture.outputs = .empty) :
    ((loadFrom t k name location).run w).2.cache = w.cache := by
  rw [loadFrom, run_bind_ok (Task.run_get w)]
  cases w.cache.store.readText w.host.disk location with
  | error e => rfl
  | ok text => exact (cache_load ht k w).trans (cleared_of_empty he)

def Operation.Loads : Operation → Prop
  | .load t .. => t.NeverCloses
  | .loadFrom t .. => t.NeverCloses
  | .change _ => True
  | _ => False

theorem cache_perform {s : Station} (he : s.outputs = .empty) {op : Operation} (hop : op.Loads) :
    (perform s op).cache = s.cache := by
  cases op with
  | load t k context name text =>
    exact (cache_load hop k (s.bench context)).trans (cleared_of_empty he)
  | loadFrom t k context name location => exact cache_loadFrom (w := s.bench context) hop k he
  | change d => rfl
  | _ => exact hop.elim

/-- A run of loads leaves a cache as it was that had nothing captured. -/
theorem cache_after {start : Station} (he : start.outputs = .empty) {ops : List Operation}
    (hops : ∀ op ∈ ops, op.Loads) : (after start ops).cache = start.cache := by
  induction ops with
  | nil => rfl
  | cons op ops ih =>
    have hbefore := ih fun op hop => hops op (List.mem_cons_of_mem _ hop)
    have he' : (after start ops).outputs = .empty := by
      rw [Station.outputs, hbefore]
      exact he
    exact (cache_perform he' (hops op List.mem_cons_self)).trans hbefore

/-- A task that ends alike on two workbenches: with the same result, context and file tree, after
the same reports. -/
def EndsAlike (x : Task κ α) (w w' : Workbench κ) : Prop :=
  (x.run w).1 = (x.run w').1 ∧ (x.run w).2.context = (x.run w').2.context ∧
    (x.run w).2.host.disk = (x.run w').2.host.disk ∧
    ∃ new, (x.run w).2.host.log = w.host.log ++ new ∧ (x.run w').2.host.log = w'.host.log ++ new

theorem endsAlike {x : Task κ α} (hx : LogBlind x) (w : Workbench κ)
    (log : List LogRecord) : EndsAlike x w (withLog w log) := by
  obtain ⟨new, hn⟩ := hx w
  have hself := hn w.host.log
  have hother := hn log
  rw [EndsAlike, hother]
  refine ⟨rfl, rfl, rfl, new, ?_, rfl⟩
  exact congrArg (fun x => x.2.host.log) hself

def dealingsFrom (t : Toolchain) (k : ContextKind κ η) (name location : String) (w : Workbench κ) :
    List Dealing :=
  match w.cache.store.readText w.host.disk location with
  | .ok text => dealings t k name text w
  | .error _ => []

theorem dealings_withLog (t : Toolchain) (k : ContextKind κ η) (name text : String)
    (w : Workbench κ) (log : List LogRecord) :
    dealings t k name text w = dealings t k name text (withLog w log) := by
  have h := endsAlike (LogBlind.loadWith LogBlind.persistWatched t k.watched name text) w.watch log
  exact congrArg Watched.dealings h.2.1

/-- However a load ends, nothing is captured after it. Loads leave a cache as it was that had
nothing captured: after any of them, and any changes of the file tree by others, a load does what it
does after any other such operations that lead to the same file tree. It has the same result, deals
with the same artifacts, leaves the same context and file tree, and reports the same. -/
theorem loads_leave_no_trace {start start' : Station} (hcache : start.cache = start'.cache)
    (he : start.outputs = .empty) {ops ops' : List Operation} (hops : ∀ op ∈ ops, op.Loads)
    (hops' : ∀ op ∈ ops', op.Loads) :
    (∀ (κ η : Type) (t : Toolchain) (k : ContextKind κ η) (name text : String) (w : Workbench κ),
      ((load t k name text).run w).2.cache.registry.capture.outputs = .empty) ∧
    (after start ops).cache = start.cache ∧
    ((after start ops).host.disk = (after start' ops').host.disk →
      ∀ (κ η : Type) (t : Toolchain) (k : ContextKind κ η) (context : κ)
        (name text location : String),
        let w := (after start ops).bench context
        let w' := (after start' ops').bench context
        (EndsAlike (load t k name text) w w' ∧
          dealings t k name text w = dealings t k name text w') ∧
        EndsAlike (loadFrom t k name location) w w' ∧
          dealingsFrom t k name location w = dealingsFrom t k name location w') := by
  refine ⟨fun κ η t k name text w => outputs_loadWith persist k w, cache_after he hops, ?_⟩
  intro hdisk κ η t k context name text location w w'
  have he' : start'.outputs = .empty := by
    rw [Station.outputs, ← hcache]
    exact he
  have hc : (after start' ops').cache = (after start ops).cache := by
    rw [cache_after he hops, cache_after he' hops', hcache]
  have hw : w' = withLog w w'.host.log := by
    change (⟨⟨(after start' ops').host.disk, _⟩, (after start' ops').cache, context⟩ : Workbench κ) =
      ⟨⟨(after start ops).host.disk, _⟩, (after start ops).cache, context⟩
    rw [hdisk, hc]
    rfl
  rw [hw]
  refine ⟨⟨endsAlike (LogBlind.loadWith LogBlind.persist t k name text) w _,
    dealings_withLog t k name text w _⟩, endsAlike (LogBlind.loadFrom t k name location) w _, ?_⟩
  unfold dealingsFrom
  have hread : (withLog w w'.host.log).cache.store.readText (withLog w w'.host.log).host.disk
    location = w.cache.store.readText w.host.disk location := rfl
  rw [hread]
  cases w.cache.store.readText w.host.disk location with
  | error e => rfl
  | ok text => exact dealings_withLog t k name text w _

theorem emitting_neverCloses (names : List String) : (emitting names).NeverCloses := by
  intro unit text reach
  change (names.foldr (fun name d => Dialogue.write name [1] fun _ => d)
    (.done [] : Dialogue (List Diagnostic))).NeverCloses
  induction names with
  | nil => trivial
  | cons name names ih => exact fun _ => ih

/-- A load after one that fails while it injects is like the first load of all. -/
theorem loads_leave_no_trace_failed :
    let c : Cache := ⟨⟨[], { classpath := ⟨[], none, false⟩ }, 0⟩, { providers := [] }, none, none⟩
    let start : Station := ⟨⟨{}, []⟩, c⟩
    let ops : List Operation := [.load (emitting ["a", "b"]) (refusing "b") [] "a" ""]
    let w := (after start ops).bench ([] : List String)
    ((load (emitting ["a", "b"]) (refusing "b") "a" "").run (start.bench [])).1 =
        .error (.configuration "rejected b") ∧
      (after start ops).cache = c ∧
      EndsAlike (load (emitting ["b"]) (refusing "a") "b" "") w (start.bench []) := by
  intro c start ops w
  have hops : ∀ op ∈ ops, op.Loads := by
    intro op hop
    obtain rfl := List.mem_singleton.mp hop
    exact emitting_neverCloses ["a", "b"]
  have hnone : ∀ op ∈ ([] : List Operation), op.Loads := fun op hop => absurd hop List.not_mem_nil
  obtain ⟨-, hc, hsame⟩ := @loads_leave_no_trace start start rfl rfl ops [] hops hnone
  exact ⟨rfl, hc, (hsame rfl _ _ (emitting ["b"]) (refusing "a") [] "b" "" "").1.1⟩

end Cache
end UnitCache
