import UnitCache.Proofs.OutputPlaces
import UnitCache.Proofs.LuaArtifacts
import UnitCache.Proofs.StoreHistory

namespace UnitCache

open Disk (Rooted)
open WriteCall (Settled latest)

variable {κ η α β : Type}

def Workbench.unrooted (w : Workbench κ) : Workbench κ :=
  { w with cache := { w.cache with artifactRoot := none } }

namespace Cache

def IgnoresRoot (x : Task κ α) : Prop :=
  ∀ w, x.run w.unrooted = ((x.run w).1, (x.run w).2.unrooted)

namespace IgnoresRoot

theorem bind {x : Task κ α} {f : α → Task κ β} (hx : IgnoresRoot x)
    (hf : ∀ a, IgnoresRoot (f a)) : IgnoresRoot (x >>= f) := by
  intro w
  have h := hx w
  rcases hr : x.run w with ⟨e | a, w'⟩ <;> rw [hr] at h
  · rw [run_bind_error h, run_bind_error hr]
  · rw [run_bind_ok h, run_bind_ok hr, hf a w']

theorem compileSource (t : Toolchain) (name text : String) :
    IgnoresRoot (compileSource t name text : Task κ CompileResult) := by
  intro w
  have hstage : w.unrooted.cache.stage name text = w.cache.stage name text := rfl
  rcases hs : (w.cache.stage name text).run w.host with ⟨e | unit, h⟩
  · rw [run_compileSource_refused hs, run_compileSource_refused (hstage ▸ hs)]
    rfl
  · rw [run_compileSource_staged hs, run_compileSource_staged (hstage ▸ hs)]
    rfl

theorem inject (k : ContextKind κ η) (name : String) (bytes : Bytes) :
    IgnoresRoot (inject k name bytes) := fun _ => rfl

theorem injectMissing (k : ContextKind κ η) (as : List (String × Bytes)) :
    IgnoresRoot (injectMissing k as) := by
  induction as with
  | nil => exact fun _ => rfl
  | cons a as ih =>
    intro w
    rw [Cache.injectMissing, run_bind_ok (Task.run_get w), run_bind_ok (Task.run_get w.unrooted)]
    cases hd : k.isDefined w.context a.1 with
    | true =>
      have hd' : k.isDefined w.unrooted.context a.1 = true := hd
      rw [hd']
      exact ih w
    | false =>
      have hd' : k.isDefined w.unrooted.context a.1 = false := hd
      rw [hd']
      exact (inject k a.1 a.2).bind (fun _ => ih) w

theorem resolve (k : ContextKind κ η) (name : String) : IgnoresRoot (resolve k name) :=
  fun _ => rfl

end IgnoresRoot

/-- Without a place to persist artifacts nothing is done with them. -/
theorem run_keepAll_skip {w : Workbench κ} (h : w.cache.persistenceRoot? w.host.disk = none)
    (keep : Path → String → Bytes → Task κ Unit) (as : List (String × Bytes)) :
    (keepAll keep as).run w = (.ok (), w) := by
  rw [keepAll, run_bind_ok (Task.run_get w), h]
  rfl

/-- An artifact root that is no directory is like none. -/
theorem run_deliver_unrooted {w : Workbench κ} (h : w.cache.persistenceRoot? w.host.disk = none)
    (k : ContextKind κ η) (r : CompileResult) :
    (deliver persist k r).run w.unrooted =
      (((deliver persist k r).run w).1, ((deliver persist k r).run w).2.unrooted) := by
  have hn : w.unrooted.cache.persistenceRoot? w.unrooted.host.disk = none := rfl
  unfold deliver
  cases r.artifacts.get? r.unit with
  | none => rfl
  | some bytes =>
    simp only
    rw [run_bind_ok (run_keepAll_skip h persist _), run_bind_ok (run_keepAll_skip hn persist _)]
    exact (IgnoresRoot.inject k _ _).bind (fun _ => IgnoresRoot.injectMissing k _) w

variable {root : Path} {base : Place} {d : Disk} {cs : List WriteCall} {w w' : Workbench κ}
  {name : String} {bytes : Bytes}

/-- Persisting that goes well is a write that goes well. -/
theorem persist_ok (hr : (persist root name bytes).run w = (.ok (), w')) :
    ∃ changed h, (Store.writeBytes (UnitName.path root name UnitName.binaryExtension) bytes).run
      w.host = (.ok changed, h) ∧ w'.host.disk = h.disk ∧ w'.context = w.context := by
  rw [persist, Task.run_act] at hr
  rcases hw : (Store.writeBytes (UnitName.path root name UnitName.binaryExtension) bytes).run
    w.host with ⟨e | changed, h⟩
  · rw [run_bind_error hw] at hr
    cases hr
  · rw [run_bind_ok hw] at hr
    refine ⟨changed, h, rfl, ?_⟩
    cases changed <;> cases hr <;> exact ⟨rfl, rfl⟩

def OfArtifacts (as : List (String × Bytes)) (cs : List WriteCall) : Prop :=
  cs.map (fun c => (c.file.name, c.bytes)) = as.reverse ∧
    ∀ c ∈ cs, c.file.ext = UnitName.binaryExtension

/-- Persisting artifacts one after the other, each of which goes well, is a run of writes. -/
theorem persistAll_settled {before as : List (String × Bytes)}
    (hv : ∀ a ∈ as, UnitName.isValid a.1 = true) (hroot : Rooted d root base)
    (hs : Settled root base d cs w.host.disk) (hcs : OfArtifacts before cs)
    (hr : (as.forM (fun a => persist root a.1 a.2)).run w = (.ok (), w')) :
    ∃ cs', Settled root base d cs' w'.host.disk ∧ OfArtifacts (before ++ as) cs' := by
  induction as generalizing w cs before with
  | nil =>
    cases hr
    exact ⟨cs, hs, by rwa [List.append_nil]⟩
  | cons a as ih =>
    rcases hp : (persist root a.1 a.2).run w with ⟨e | _, w₁⟩
    · rw [List.forM, run_bind_error hp] at hr
      cases hr
    rw [List.forM, run_bind_ok hp] at hr
    obtain ⟨changed, h, hw, hd, -⟩ := persist_ok hp
    have hwrote := UnitFile.wrote_of_run
      (f := ⟨a.1, UnitName.binaryExtension, hv a List.mem_cons_self, .inr rfl⟩)
      (hroot.keep hs.keeps) hw
    have hmore : OfArtifacts (before ++ [a])
        (⟨⟨a.1, UnitName.binaryExtension, hv a List.mem_cons_self, .inr rfl⟩, a.2, changed,
          w.host.disk⟩ :: cs) :=
      ⟨by simp [hcs.1], List.forall_mem_cons.mpr ⟨rfl, hcs.2⟩⟩
    rw [List.append_cons]
    exact ih (fun b hb => hv b (List.mem_cons_of_mem a hb)) (hd ▸ hs.step hroot hwrote) hmore hr

/-- After the writes of some artifacts each file has the bytes of its artifact. -/
theorem read_of_settled {as : Artifacts} {d' : Disk}
    (hs : Settled root base d cs d') (hcs : OfArtifacts as.entries cs)
    (hv : UnitName.isValid name = true) (hb : as.get? name = some bytes) :
    d'.read (UnitName.path root name UnitName.binaryExtension) = .ok bytes := by
  let f : UnitFile := ⟨name, UnitName.binaryExtension, hv, .inr rfl⟩
  have hm : (name, bytes) ∈ cs.map fun c => (c.file.name, c.bytes) := by
    rw [hcs.1, List.mem_reverse]
    exact NameMap.mem_entries.mpr hb
  obtain ⟨c, hc, he⟩ := List.mem_map.mp hm
  have hfile : c.file = f := by
    have hname : c.file.name = f.name := congrArg Prod.fst he
    have hext : c.file.ext = f.ext := hcs.2 c hc
    generalize c.file = g at hname hext
    cases g
    cases hname
    cases hext
    rfl
  obtain ⟨c', hl⟩ : ∃ c', latest f cs = some c' := by
    rw [← Option.isSome_iff_exists, latest, List.find?_isSome]
    exact ⟨c, hc, by simp [hfile]⟩
  have hc' : c'.bytes = bytes := by
    have hmem := List.mem_of_find?_eq_some hl
    have hf : c'.file = f := by simpa using List.find?_some hl
    have ha : (c'.file.name, c'.bytes) ∈ as.entries := by
      rw [← List.mem_reverse, ← hcs.1]
      exact List.mem_map_of_mem hmem
    rw [hf] at ha
    exact Option.some.inj ((NameMap.mem_entries.mp ha).symm.trans hb)
  have hread := (Disk.read_of_find (hs.found f c' hl) rfl).mpr (hs.written f c' hl)
  rwa [hc'] at hread

def OnlyPersists (x : Task (Watched κ) α) : Prop :=
  ∀ w, ∀ e ∈ (x.run w).2.context.dealings,
    e ∈ w.context.dealings ∨ ∃ name bytes, e = .persisted name bytes

namespace OnlyPersists

theorem bind {x : Task (Watched κ) α} {f : α → Task (Watched κ) β} (hx : OnlyPersists x)
    (hf : ∀ a, OnlyPersists (f a)) : OnlyPersists (x >>= f) := by
  intro w e he
  have h := hx w
  rcases hr : x.run w with ⟨r | a, w'⟩ <;> rw [hr] at h
  · rw [run_bind_error hr] at he
    exact h e he
  · rw [run_bind_ok hr] at he
    rcases hf a w' e he with he | he
    · exact h e he
    · exact .inr he

theorem idle {x : Task (Watched κ) α} (h : ∀ w, (x.run w).2.context = w.context) :
    OnlyPersists x := by
  intro w e he
  rw [h] at he
  exact .inl he

theorem persistWatched (root : Path) (name : String) (bytes : Bytes) :
    OnlyPersists (persistWatched root name bytes : Task (Watched κ) Unit) := by
  unfold Cache.persistWatched
  refine bind (fun w e he => ?_) fun _ => idle (Keeps.persist (fun _ _ => rfl) root name bytes)
  rcases List.mem_append.mp he with he | he
  · exact .inl he
  · exact .inr ⟨name, bytes, List.mem_singleton.mp he⟩

theorem forM {f : α → Task (Watched κ) Unit} (hf : ∀ a, OnlyPersists (f a)) (as : List α) :
    OnlyPersists (as.forM f) := by
  induction as with
  | nil => exact idle fun _ => rfl
  | cons a as ih => exact (hf a).bind fun _ => ih

theorem keepAll (as : List (String × Bytes)) :
    OnlyPersists (keepAll Cache.persistWatched as : Task (Watched κ) Unit) := by
  unfold Cache.keepAll
  refine bind (idle fun _ => rfl) fun w => ?_
  cases w.cache.persistenceRoot? w.host.disk with
  | none => exact idle fun _ => rfl
  | some root =>
    apply forM
    intro a
    exact persistWatched root a.1 a.2

end OnlyPersists

/-- A load up to the running of the unit. -/
def install (t : Toolchain) (k : ContextKind κ η) (name text : String) : Task κ Unit :=
  compileSource t name text >>= deliver persist k

/-- A load whose artifacts are not all persisted fails without an injection. -/
theorem no_injection {t : Toolchain} {k : ContextKind κ η} {text : String} {w₁ w₂ : Workbench κ}
    {r : CompileResult} {e : Error} (hc : (compileSource t name text).run w = (.ok r, w₁))
    (hp : (keepAll persist r.artifacts.entries).run w₁ = (.error e, w₂))
    (hu : r.artifacts.get? r.unit = some bytes) :
    ((load t k name text).run w).1 = .error e ∧
      ∀ n x, .injected n x ∉ dealings t k name text w := by
  have hd : (deliver persist k r).run w₁ = (.error e, w₂) := by
    rw [deliver, hu]
    exact run_bind_error hp _
  refine ⟨by rw [load, run_loadWith, run_bind_ok hc, hd], fun n x => ?_⟩
  have hcw := Follows.compileSource t name text w.watch
  have hkw := Keeps.context_compileSource t name text w.watch
  rw [Workbench.forget_watch, hc] at hcw
  rcases hc' : (compileSource t name text).run w.watch with ⟨e' | r', w₁'⟩ <;>
    rw [hc'] at hcw hkw
  · cases hcw
  obtain ⟨hr, rfl⟩ := Prod.mk.inj hcw
  cases hr
  have hpw := Follows.keepAll Follows.persistWatched r.artifacts.entries w₁'
  have honly := OnlyPersists.keepAll r.artifacts.entries w₁'
  rw [hp] at hpw
  rcases hp' : (keepAll persistWatched r.artifacts.entries).run w₁' with ⟨e' | _, w₂'⟩ <;>
    rw [hp'] at hpw honly
  · have hd' : (deliver persistWatched k.watched r).run w₁' = (.error e', w₂') := by
      rw [deliver, hu]
      exact run_bind_error hp' _
    rw [dealings, run_loadWith, run_bind_ok hc', hd']
    intro hx
    rcases honly _ hx with hx | ⟨n', x', hx⟩
    · rw [hkw] at hx
      exact absurd hx List.not_mem_nil
    · cases hx
  · cases hpw

/-- Once artifacts are kept, delivering them leaves the host alone. -/
theorem host_deliver {k : ContextKind κ η} {r : CompileResult} {w₁ w₂ : Workbench κ}
    (hp : (keepAll persist r.artifacts.entries).run w₁ = (.ok (), w₂))
    (hu : r.artifacts.get? r.unit = some bytes) :
    ((deliver persist k r).run w₁).2.host = w₂.host := by
  rw [deliver, hu]
  simp only
  rw [run_bind_ok hp]
  have hi := run_inject k r.unit bytes w₂
  rcases hx : (k.inject r.unit bytes w₂.context).1 with e | _ <;> rw [hx] at hi
  · rw [run_bind_error hi]
  · rw [run_bind_ok hi, host_injectMissing]

/-- All artifacts of a compile of Lua have valid names if nothing was captured before. -/
theorem valid_artifact {text : String} {w₁ : Workbench κ} {r : CompileResult}
    (he : w.cache.registry.capture.outputs = .empty)
    (hc : (compileSource Lua.compiler name text).run w = (.ok r, w₁)) {a : String × Bytes}
    (ha : a ∈ r.artifacts.entries) : UnitName.isValid a.1 = true := by
  rcases artifacts_complete he hc with hn | ⟨unit, source, -, -, -, hx⟩
  · rw [hn] at ha
    exact absurd ha List.not_mem_nil
  · refine Lua.valid_of_member ((hx.contains a.1).mp ?_)
    rw [NameMap.contains, NameMap.mem_entries.mp ha]
    rfl

/-- Where a load of Lua whose compile produced the unit puts the artifacts, if nothing was captured
before. An artifact root that is no directory then is as good as none. Below one that is a directory
without links each artifact stands in its file when the unit is run, or the load fails without any
injection. -/
theorem load_persistence (k : ContextKind κ η) {text : String} {w₁ : Workbench κ}
    {r : CompileResult} (he : w.cache.registry.capture.outputs = .empty)
    (hroot : w.cache.artifactRoot = some root)
    (hc : (compileSource Lua.compiler name text).run w = (.ok r, w₁))
    (hu : r.contains name = true) :
    (w₁.host.disk.isDirectory root = false →
      (load Lua.compiler k name text).run w.unrooted =
        (((load Lua.compiler k name text).run w).1,
          ((load Lua.compiler k name text).run w).2.unrooted)) ∧
    ∀ base, Rooted w₁.host.disk root base →
      ((load Lua.compiler k name text).run w =
        match (install Lua.compiler k name text).run w with
        | (.error e, w₂) => (.error e, w₂.cleared)
        | (.ok (), w₂) => (resolve k name).run w₂.cleared) ∧
      ((∀ n bytes, r.artifacts.get? n = some bytes →
          ((install Lua.compiler k name text).run w).2.host.disk.read
            (UnitName.path root n UnitName.binaryExtension) = .ok bytes) ∨
        (∃ e, ((load Lua.compiler k name text).run w).1 = .error e) ∧
          ∀ n bytes, .injected n bytes ∉ dealings Lua.compiler k name text w) := by
  obtain ⟨unit, h, hs, -, hw₁, -⟩ := stage_of_compileSource hc
  have hroot₁ : w₁.cache.artifactRoot = some root := by
    rw [hw₁]
    exact hroot
  constructor
  · intro hd
    have hn : w₁.cache.persistenceRoot? w₁.host.disk = none := by
      rw [persistenceRoot?, hroot₁, Option.filter_some, hd]
      rfl
    have hc' : (compileSource Lua.compiler name text).run w.unrooted = (.ok r, w₁.unrooted) := by
      rw [IgnoresRoot.compileSource, hc]
    rw [load, run_loadWith, run_loadWith, run_bind_ok hc, run_bind_ok hc',
      run_deliver_unrooted hn]
    rcases (deliver persist k r).run w₁ with ⟨e | _, w₂⟩ <;> rfl
  · intro base hbase
    refine ⟨run_loadWith persist Lua.compiler k name text w, ?_⟩
    have hd : w₁.host.disk.isDirectory root = true := by
      rw [Disk.isDirectory, hbase.stands]
    have hsome : w₁.cache.persistenceRoot? w₁.host.disk = some root := by
      rw [persistenceRoot?, hroot₁, Option.filter_some, hd]
      rfl
    have hk : (keepAll persist r.artifacts.entries).run w₁ =
        (r.artifacts.entries.forM (fun a => persist root a.1 a.2)).run w₁ := by
      rw [keepAll, run_bind_ok (Task.run_get w₁), hsome]
    rw [← unit_compileSource hc] at hu
    obtain ⟨bytes, hb⟩ := Option.isSome_iff_exists.mp hu
    rcases hp : (keepAll persist r.artifacts.entries).run w₁ with ⟨e | _, w₂⟩
    · obtain ⟨hl, hno⟩ := no_injection (k := k) hc hp hb
      exact .inr ⟨⟨e, hl⟩, hno⟩
    · refine .inl fun n x hx => ?_
      have hv (a : String × Bytes) (ha : a ∈ r.artifacts.entries) := valid_artifact he hc ha
      have hnone : OfArtifacts [] [] := ⟨rfl, by simp⟩
      obtain ⟨cs, hcs, hof⟩ := persistAll_settled hv hbase (.refl root base w₁.host.disk) hnone
        (hk.symm.trans hp)
      rw [install, run_bind_ok hc, host_deliver hp hb]
      exact read_of_settled hcs hof (hv (n, x) (NameMap.mem_entries.mpr hx)) hx

def rootedBench (d : Disk) : Workbench (List String) :=
  ⟨⟨d, []⟩, ⟨⟨[], { classpath := ⟨[], none, false⟩ }, 0⟩, { providers := [] }, none, some ⟨['r']⟩⟩, []⟩

def producesUnit (name text : String) (w : Workbench (List String)) : Bool :=
  match (compileSource Lua.compiler name text).run w with
  | (.ok r, _) => r.contains name
  | (.error _, _) => false

theorem compileSource_of_producesUnit {text : String} {d : Disk}
    (h : producesUnit name text (rootedBench d) = true) : ∃ r w₁,
      (compileSource Lua.compiler name text).run (rootedBench d) = (.ok r, w₁) ∧
        r.contains name = true ∧ w₁.host.disk = d := by
  unfold producesUnit at h
  split at h
  · rename_i r w₁ hc
    obtain ⟨unit, h', hs, -, rfl, -⟩ := stage_of_compileSource hc
    have hh := host_of_stage (c := (rootedBench d).cache) rfl name text (rootedBench d).host
    rw [hs] at hh
    exact ⟨r, _, hc, h, congrArg Host.disk hh⟩
  · cases h

/-- With a directory as artifact root the unit is read back below it, or nothing is injected. With
nothing there the load is that without an artifact root. -/
theorem load_persistence_directory :
    let d : Disk := { entries := [(["r".toList], .directory)] }
    let installed := (install Lua.compiler (refusing "b") "a" "return 1").run (rootedBench d)
    let loaded := (load Lua.compiler (refusing "b") "a" "return 1").run (rootedBench {})
    ((∃ bytes, installed.2.host.disk.read ⟨"r/a.luac".toList⟩ = .ok bytes) ∨
      ∀ n x, .injected n x ∉ dealings Lua.compiler (refusing "b") "a" "return 1" (rootedBench d)) ∧
    (load Lua.compiler (refusing "b") "a" "return 1").run (rootedBench {}).unrooted =
      (loaded.1, loaded.2.unrooted) := by
  intro d installed loaded
  have hproduced : producesUnit "a" "return 1" (rootedBench d) = true := by decide +kernel
  have hproduced' : producesUnit "a" "return 1" (rootedBench {}) = true := by decide +kernel
  obtain ⟨r, w₁, hc, hu, hd⟩ := compileSource_of_producesUnit hproduced
  obtain ⟨r', w₁', hc', hu', hd'⟩ := compileSource_of_producesUnit hproduced'
  have hrooted : Rooted w₁.host.disk ⟨['r']⟩ [['r']] := by
    rw [hd]
    refine ⟨by cbv, fun ms target ht => ?_⟩
    rw [Disk.look?, if_neg (by simp), Disk.lookup] at ht
    by_cases hm : ms = [] <;> simp [d, hm] at ht
  have hnone : w₁'.host.disk.isDirectory ⟨['r']⟩ = false := by
    rw [hd']
    cbv
  refine ⟨?_, (load_persistence (refusing "b") rfl rfl hc' hu').1 hnone⟩
  rcases ((load_persistence (refusing "b") rfl rfl hc hu).2 [['r']] hrooted).2 with hall | ⟨-, hno⟩
  · obtain ⟨bytes, hb⟩ := Option.isSome_iff_exists.mp hu
    exact .inl ⟨bytes, hall "a" bytes hb⟩
  · exact .inr hno

end Cache
end UnitCache
