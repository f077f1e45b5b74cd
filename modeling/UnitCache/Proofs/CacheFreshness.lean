import UnitCache.Proofs.CacheWatch
import UnitCache.Proofs.RegistryHistory

namespace UnitCache.Cache

open Registry (Site)

structure Station where
  host : Host
  cache : Cache

namespace Station

def bench {κ : Type} (s : Station) (context : κ) : Workbench κ := ⟨s.host, s.cache, context⟩

def site (s : Station) : Site := ⟨s.host, s.cache.registry⟩

def outputs (s : Station) : Artifacts := s.cache.registry.capture.outputs

end Station

inductive Operation where
  | compile (t : Toolchain) (name text : String)
  | load {κ η : Type} (t : Toolchain) (k : ContextKind κ η) (context : κ) (name text : String)
  | loadFrom {κ η : Type} (t : Toolchain) (k : ContextKind κ η) (context : κ)
      (name location : String)
  | clear
  | grow (t : Toolchain) (p : Path)
  | reset (t : Toolchain)
  | close
  /-- Others change the file tree. -/
  | change (d : Disk)

def settle {κ α : Type} (x : Task κ α) (s : Station) (context : κ) : Station :=
  let w := (x.run (s.bench context)).2
  ⟨w.host, w.cache⟩

def perform (s : Station) : Operation → Station
  | .compile t name text => settle (compileSource t name text) s ()
  | .load t k context name text => settle (load t k name text) s context
  | .loadFrom t k context name location => settle (loadFrom t k name location) s context
  | .clear => settle clear s ()
  | .grow t p => settle (growClasspath t p) s ()
  | .reset t => settle (reset t) s ()
  | .close => settle close s ()
  | .change d => { s with host := { s.host with disk := d } }

def after (start : Station) : List Operation → Station
  | [] => start
  | op :: earlier => perform (after start earlier) op

/-- What compiling a text finds and the outputs that it writes itself, or why the text could not be
staged. -/
def compiling (t : Toolchain) (name text : String) (s : Station) :
    Except Error (List Diagnostic × List (String × Bytes)) :=
  match (s.cache.stage name text).run s.host with
  | (.error e, _) => .error e
  | (.ok unit, h) =>
    let c := s.cache.registry.capture
    .ok ((Registry.Work.compiled t unit ⟨h, s.cache.registry⟩).1,
      Capture.written h.disk (c.dialogue t unit h.disk) c)

namespace Operation

def empties (s : Station) : Operation → Bool
  | .load .. => true
  | .loadFrom _ _ _ _ location => (s.cache.store.readText s.host.disk location).toBool
  | .clear => true
  | .grow t p => (Registry.eventOf s.site (.grow t p)).clears
  | .reset t => (Registry.eventOf s.site (.reset t)).clears
  | _ => false

def leaves (s : Station) : Operation → List (String × Bytes)
  | .compile t name text =>
    match compiling t name text s with
    | .ok (_, new) => new
    | .error _ => []
  | _ => []

end Operation

/-- The outputs left by operations, the latest of which comes first, since they last were thrown
away. -/
def left (start : Station) : List Operation → List (String × Bytes)
  | [] => []
  | op :: earlier =>
    let s := after start earlier
    if op.empties s then [] else left start earlier ++ op.leaves s

section

variable {κ : Type} {t : Toolchain} {name text : String} {s : Station}

/-- A text that cannot be staged is not compiled. -/
theorem run_compileSource_error {e : Error} (context : κ) (hc : compiling t name text s = .error e) :
    ∃ h, (compileSource t name text).run (s.bench context) =
      (.error e, ⟨h, s.cache, context⟩) := by
  rw [compileSource, run_bind_ok (Task.run_get _)]
  unfold compiling at hc
  rcases hs : (s.cache.stage name text).run s.host with ⟨e' | unit, h⟩ <;> rw [hs] at hc
  · cases hc
    have ha : (Task.act (s.cache.stage name text)).run (s.bench context) =
        (.error e, ⟨h, s.cache, context⟩) := by
      rw [Task.run_act, Station.bench, hs]
    exact ⟨h, run_bind_error ha _⟩
  · cases hc

/-- A compile puts its outputs over those that are captured, and answers with all of them. -/
theorem run_compileSource_ok {ds : List Diagnostic} {new : List (String × Bytes)}
    (context : κ) (hc : compiling t name text s = .ok (ds, new)) :
    ∃ w, (compileSource t name text).run (s.bench context) =
        (.ok ⟨name, s.outputs.insertAll new, ds⟩, w) ∧
      w.context = context ∧ w.cache.registry.capture.outputs = s.outputs.insertAll new := by
  rw [compileSource, run_bind_ok (Task.run_get _)]
  unfold compiling at hc
  rcases hs : (s.cache.stage name text).run s.host with ⟨e | unit, h⟩ <;> rw [hs] at hc
  · cases hc
  · cases hc
    have ha : (Task.act ((s.bench context).cache.stage name text)).run (s.bench context) =
        (.ok unit, ⟨h, s.cache, context⟩) := by
      rw [Task.run_act, Station.bench, hs]
    have hr := Task.run_withRegistry (Registry.Work.compile t unit) ⟨h, s.cache, context⟩
    rw [Registry.Work.run_compile] at hr
    have ho := Capture.run_outputs h.disk
      (s.cache.registry.capture.dialogue t unit h.disk) s.cache.registry.capture
    rw [run_bind_ok ha, run_bind_ok hr, run_bind_ok (Task.run_get _), Station.outputs, ← ho]
    exact ⟨_, rfl, rfl, rfl⟩

/-- However a load ends, nothing is captured after it. -/
theorem outputs_loadWith {η : Type} (keep : Path → String → Bytes → Task κ Unit)
    (k : ContextKind κ η) (w : Workbench κ) :
    ((loadWith keep t k name text).run w).2.cache.registry.capture.outputs = .empty := by
  rw [run_loadWith]
  rcases (compileSource t name text >>= deliver keep k).run w with ⟨_ | _, w'⟩ <;> rfl

end

/-- What is captured after an operation: nothing, or what it leaves over what was captured. -/
theorem outputs_perform (s : Station) (op : Operation) :
    (perform s op).outputs =
      if op.empties s then .empty else s.outputs.insertAll (op.leaves s) := by
  cases op with
  | compile t name text =>
    cases hc : compiling t name text s with
    | error e =>
      obtain ⟨h, hr⟩ := run_compileSource_error () hc
      simp only [perform, settle, hr, Operation.leaves, hc]
      rfl
    | ok x =>
      obtain ⟨w, hr, -, ho⟩ := run_compileSource_ok () hc
      simp only [perform, settle, hr, Operation.leaves, hc]
      exact ho
  | load t k context name text => exact outputs_loadWith persist k _
  | loadFrom t k context name location =>
    obtain ⟨r, hr⟩ : ∃ r, s.cache.store.readText s.host.disk location = r := ⟨_, rfl⟩
    simp only [perform, settle, loadFrom, run_bind_ok (Task.run_get _), Operation.empties,
      Station.bench, hr]
    cases r with
    | error e => rfl
    | ok text => exact outputs_loadWith persist k _
  | grow t p => exact Registry.perform_outputs s.site (.grow t p)
  | reset t => exact Registry.perform_outputs s.site (.reset t)
  | clear | close | change _ => rfl

/-- What is captured is what was left since it last was thrown away. -/
theorem outputs_after {start : Station} (hs : start.outputs = .empty) (ops : List Operation) :
    (after start ops).outputs = NameMap.empty.insertAll (left start ops) := by
  induction ops with
  | nil => exact hs
  | cons op ops ih =>
    rw [after, outputs_perform, left, ih]
    split
    · rfl
    · exact (NameMap.insertAll_append _ _ _).symm

theorem outputs_new {t : Toolchain} {config : Config} {h h' : Host} {c : Cache}
    (hn : (Cache.new t config).run h = (.ok c, h')) : (⟨h', c⟩ : Station).outputs = .empty := by
  rcases hr : (Registry.new t config.classpath).run h with ⟨e | r, h₁⟩
  · rw [Cache.new, run_bind_error hr] at hn
    cases hn
  · rw [Cache.new, run_bind_ok hr] at hn
    cases hn
    exact (Registry.new_ok hr).2.1

def Only (outputs : List (String × Bytes)) (done : List Dealing) : Prop :=
  ∀ x ∈ done, (NameMap.empty.insertAll outputs).get? x.artifact.1 = some x.artifact.2

/-- What is among old and new outputs is among the new ones where those hide all old ones. -/
theorem Only.new_iff {old new : List (String × Bytes)} {done : List Dealing}
    (h : Only (old ++ new) done) :
    Only new done ↔
      ∀ x ∈ done, x.artifact.1 ∈ old.map Prod.fst → x.artifact.1 ∈ new.map Prod.fst := by
  constructor
  · intro hn x hx _
    rw [← NameMap.isSome_get?_insertAll, hn x hx]
    rfl
  · intro hn x hx
    have hb := h x hx
    rw [NameMap.insertAll_append, NameMap.get?_insertAll] at hb
    by_cases hm : x.artifact.1 ∈ new.map Prod.fst
    · obtain ⟨bytes, hs⟩ := Option.isSome_iff_exists.mp (NameMap.isSome_get?_insertAll _ _ |>.mpr hm)
      rwa [hs, Option.some_or, ← hs] at hb
    · have ho : x.artifact.1 ∉ old.map Prod.fst := fun ho => hm (hn x hx ho)
      rw [NameMap.get?_insertAll_of_not_mem _ ho, NameMap.get?_empty, Option.or_none] at hb
      exact hb

section

variable {κ η : Type} {t : Toolchain} {k : ContextKind κ η} {name text : String} {s : Station}
  {context : κ}

theorem dealings_eq : dealings t k name text (s.bench context) =
    ((compileSource t name text >>= deliver persistWatched k.watched).run
      (s.bench ⟨context, []⟩)).2.context.dealings := by
  change ((loadWith persistWatched t k.watched name text).run
    (s.bench ⟨context, []⟩)).2.context.dealings = _
  rw [run_loadWith]
  rcases (compileSource t name text >>= deliver persistWatched k.watched).run
    (s.bench ⟨context, []⟩) with ⟨_ | _, w⟩ <;> rfl

/-- A text that cannot be staged is not loaded. -/
theorem load_error {e : Error} (hc : compiling t name text s = .error e) :
    ((load t k name text).run (s.bench context)).1 = .error e ∧
      dealings t k name text (s.bench context) = [] := by
  obtain ⟨h, hr⟩ := run_compileSource_error context hc
  obtain ⟨h', hw⟩ := run_compileSource_error (⟨context, []⟩ : Watched κ) hc
  rw [load, run_loadWith, run_bind_error hr, dealings_eq, run_bind_error hw]
  exact ⟨rfl, rfl⟩

variable {ds : List Diagnostic} {new : List (String × Bytes)}

/-- A load deals only with what is captured when its compile is through. -/
theorem load_deals (hc : compiling t name text s = .ok (ds, new)) :
    ∀ x ∈ dealings t k name text (s.bench context),
      (s.outputs.insertAll new).get? x.artifact.1 = some x.artifact.2 := by
  obtain ⟨w, hw, hx, -⟩ := run_compileSource_ok (⟨context, []⟩ : Watched κ) hc
  obtain ⟨done, hd, hp⟩ := Deals.deliver k ⟨name, s.outputs.insertAll new, ds⟩ w
  rw [dealings_eq, run_bind_ok hw, hd, hx]
  exact hp

/-- Without the unit among what is captured, a load finds it missing. -/
theorem load_missing (hc : compiling t name text s = .ok (ds, new))
    (hm : (s.outputs.insertAll new).get? name = none) :
    ((load t k name text).run (s.bench context)).1 =
      .error (.unitNotFound name ds (s.outputs.insertAll new).names) := by
  obtain ⟨w, hr, -, -⟩ := run_compileSource_ok context hc
  have hd := run_deliver_missing (r := ⟨name, s.outputs.insertAll new, ds⟩) hm persist k w
  rw [load, run_loadWith, run_bind_ok hr, hd]
  rfl

/-- A load deals with nothing just when the unit is not captured. -/
theorem dealings_eq_nil_iff (hc : compiling t name text s = .ok (ds, new)) :
    dealings t k name text (s.bench context) = [] ↔ (s.outputs.insertAll new).get? name = none := by
  obtain ⟨w, hw, hx, -⟩ := run_compileSource_ok (⟨context, []⟩ : Watched κ) hc
  rw [dealings_eq, run_bind_ok hw]
  constructor
  · intro h
    rw [← Option.not_isSome_iff_eq_none]
    intro hs
    exact deliver_ne_nil (r := ⟨name, s.outputs.insertAll new, ds⟩) hs k w h
  · intro hm
    have hd := run_deliver_missing (r := ⟨name, s.outputs.insertAll new, ds⟩) hm
      persistWatched k.watched w
    rw [hd, hx]

end

/-- What a load deals with, after any operations: only outputs of its own compile and of those
before it that were not thrown away. It takes none of the latter for its own just when its compile
writes anew all of them that it deals with. When its compile finds errors and writes nothing, it
finds the unit missing and does nothing just when no compile before it left the unit. -/
theorem load_fresh_iff {t₀ : Toolchain} {config : Config} {h h' : Host} {c : Cache}
    (hn : (Cache.new t₀ config).run h = (.ok c, h')) (ops : List Operation) {κ η : Type}
    (t : Toolchain) (k : ContextKind κ η) (context : κ) (name text : String) :
    let s := after ⟨h', c⟩ ops
    let old := left ⟨h', c⟩ ops
    let result := ((load t k name text).run (s.bench context)).1
    let done := dealings t k name text (s.bench context)
    match compiling t name text s with
    | .error e => result = .error e ∧ done = []
    | .ok (ds, new) =>
      Only (old ++ new) done ∧
      (Only new done ↔
        ∀ x ∈ done, x.artifact.1 ∈ old.map Prod.fst → x.artifact.1 ∈ new.map Prod.fst) ∧
      (hasErrors ds = true → new = [] →
        (((∃ produced, result = .error (.unitNotFound name ds produced) ∧
            (Error.unitNotFound name ds produced).hasCompileErrors = true) ∧ done = []) ↔
          name ∉ old.map Prod.fst)) := by
  intro s old result done
  have ho : s.outputs = NameMap.empty.insertAll old := outputs_after (outputs_new hn) ops
  cases hc : compiling t name text s with
  | error e => exact load_error hc
  | ok x =>
    obtain ⟨ds, new⟩ := x
    have hd : Only (old ++ new) done := by
      intro x hx
      rw [NameMap.insertAll_append, ← ho]
      exact load_deals hc x hx
    refine ⟨hd, hd.new_iff, ?_⟩
    intro he hne
    subst hne
    have hm : (s.outputs.insertAll []).get? name = none ↔ name ∉ old.map Prod.fst := by
      rw [NameMap.insertAll_nil, ho, ← Option.not_isSome_iff_eq_none,
        NameMap.isSome_get?_insertAll]
    rw [← hm, ← dealings_eq_nil_iff hc]
    constructor
    · exact And.right
    · intro hnil
      exact ⟨⟨_, load_missing hc ((dealings_eq_nil_iff hc).mp hnil), he⟩, hnil⟩

def picky : Toolchain where
  acquire := .ok ()
  compile unit text _ :=
    match text with
    | .ok "1" => .write unit.name [1] fun _ => .done []
    | _ => .done [⟨.error, unit.name, none, "not 1"⟩]

def listing : ContextKind (List (String × Bytes)) Bytes where
  isDefined c name := c.any (fun a => a.1 = name)
  inject name bytes c := (.ok (), (name, bytes) :: c)
  resolve name s :=
    match s.2.find? (fun a => a.1 = name) with
    | some a => (.ok a.2, s)
    | none => (.error (.unitNotFound name [] []), s)

/-- A load of a text with an error takes what an earlier compile left for its own. -/
theorem load_fresh_iff_stale :
    let c : Cache := ⟨⟨[], { classpath := ⟨[], none, false⟩ }, 0⟩, { providers := [] }, none, none⟩
    let s := after ⟨⟨{}, []⟩, c⟩ [.compile picky "a" "1"]
    let old := left ⟨⟨{}, []⟩, c⟩ [.compile picky "a" "1"]
    let result := ((load picky listing "a" "2").run (s.bench [])).1
    let done := dealings picky listing "a" "2" (s.bench [])
    (Cache.new picky {}).run ⟨{}, []⟩ = (.ok c, ⟨{}, []⟩) ∧
      (compiling picky "a" "2" s = .ok ([⟨.error, "a", none, "not 1"⟩], [])) ∧
      Only (old ++ []) done ∧ ¬Only [] done ∧ result = .ok [1] := by
  intro c s old result done
  have hn : (Cache.new picky {}).run ⟨{}, []⟩ = (.ok c, ⟨{}, []⟩) := rfl
  have hc : compiling picky "a" "2" s = .ok ([⟨.error, "a", none, "not 1"⟩], []) := rfl
  obtain ⟨hd, hfresh, -⟩ : Only (old ++ []) done ∧ (Only [] done ↔ ∀ x ∈ done,
      x.artifact.1 ∈ old.map Prod.fst → x.artifact.1 ∈ ([] : List (String × Bytes)).map Prod.fst) ∧
      _ := load_fresh_iff hn [.compile picky "a" "1"] picky listing [] "a" "2"
  refine ⟨hn, hc, hd, ?_, rfl⟩
  intro h
  have hx := hfresh.mp h (.injected "a" [1]) (by decide) (by decide)
  simp at hx

end UnitCache.Cache
