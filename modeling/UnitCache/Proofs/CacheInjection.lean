import UnitCache.Proofs.CacheWatch

namespace UnitCache

variable {κ η α β : Type}

/-- Contexts in which an injection defines its name and nothing else, and one that is refused
defines nothing. -/
structure ContextKind.Registers (k : ContextKind κ η) : Prop where
  accepted {name : String} {bytes : Bytes} {c c' : κ} :
    k.inject name bytes c = (.ok (), c') →
      ∀ m, k.isDefined c' m = true ↔ k.isDefined c m = true ∨ m = name
  refused {name : String} {bytes : Bytes} {c c' : κ} {e : Error} :
    k.inject name bytes c = (.error e, c') → ∀ m, k.isDefined c' m = k.isDefined c m

def CompileResult.byproducts (r : CompileResult) : List (String × Bytes) :=
  r.artifacts.entries.filter (fun a => a.1 ≠ r.unit)

namespace Cache

inductive Injected (k : ContextKind κ η) : κ → List (String × Bytes) → κ → Prop
  | nothing (c : κ) : Injected k c [] c
  | skipped {c c' : κ} {a : String × Bytes} {as : List (String × Bytes)}
      (defined : k.isDefined c a.1 = true) (rest : Injected k c as c') : Injected k c (a :: as) c'
  | added {c c₁ c' : κ} {a : String × Bytes} {as : List (String × Bytes)}
      (fresh : k.isDefined c a.1 = false) (accepted : k.inject a.1 a.2 c = (.ok (), c₁))
      (rest : Injected k c₁ as c') : Injected k c (a :: as) c'

variable {k : ContextKind κ η} {c c' : κ} {as : List (String × Bytes)}

/-- Afterwards exactly those artifacts are defined in addition. -/
theorem Injected.isDefined_iff (hk : k.Registers) (h : Injected k c as c') (m : String) :
    k.isDefined c' m = true ↔ k.isDefined c m = true ∨ m ∈ as.map Prod.fst := by
  induction h with
  | nothing c => simp
  | @skipped c c' a as defined rest ih =>
    rw [ih, List.map_cons, List.mem_cons]
    constructor
    · rintro (h | h)
      · exact .inl h
      · exact .inr (.inr h)
    · rintro (h | rfl | h)
      · exact .inl h
      · exact .inl defined
      · exact .inr h
  | @added c c₁ c' a as fresh accepted rest ih =>
    rw [ih, hk.accepted accepted, List.map_cons, List.mem_cons, or_assoc]

/-- The ways in which injecting what is missing ends: all went well, or the first artifact that is
refused ends it. -/
inductive Injecting (k : ContextKind κ η) (w : Workbench κ) (as : List (String × Bytes)) :
    Except Error Unit × Workbench κ → Prop
  | done (c : κ) (all : Injected k w.context as c) : Injecting k w as (.ok (), { w with context := c })
  | refused (before : List (String × Bytes)) (x : String × Bytes) (after : List (String × Bytes))
      (c c' : κ) (e : Error) (parts : as = before ++ x :: after)
      (good : Injected k w.context before c) (fresh : k.isDefined c x.1 = false)
      (bad : k.inject x.1 x.2 c = (.error e, c')) :
      Injecting k w as (.error e, { w with context := c' })

/-- One more artifact in front that is defined or injected changes how it starts, not how it ends. -/
theorem Injecting.cons {w : Workbench κ} {a : String × Bytes} {c : κ}
    (front : ∀ {bs c'}, Injected k c bs c' → Injected k w.context (a :: bs) c')
    {out : Except Error Unit × Workbench κ} (h : Injecting k { w with context := c } as out) :
    Injecting k w (a :: as) out := by
  cases h with
  | done c' all => exact .done c' (front all)
  | refused before x after c₁ c' e parts good fresh bad =>
    exact .refused (a :: before) x after c₁ c' e (by rw [parts]; rfl) (front good) fresh bad

theorem run_inject (k : ContextKind κ η) (name : String) (bytes : Bytes) (w : Workbench κ) :
    (inject k name bytes).run w =
      ((k.inject name bytes w.context).1, { w with context := (k.inject name bytes w.context).2 }) :=
  rfl

theorem injectMissing_injecting (k : ContextKind κ η) (as : List (String × Bytes))
    (w : Workbench κ) : Injecting k w as ((injectMissing k as).run w) := by
  induction as generalizing w with
  | nil => exact .done w.context (.nothing _)
  | cons a as ih =>
    rw [injectMissing, run_bind_ok (Task.run_get w)]
    cases hd : k.isDefined w.context a.1 with
    | true => exact (ih w).cons (.skipped hd)
    | false =>
      rcases hi : k.inject a.1 a.2 w.context with ⟨e | _, c⟩
      · have hr : (inject k a.1 a.2).run w = (.error e, { w with context := c }) := by
          rw [run_inject, hi]
        have hb := run_bind_error hr fun _ => injectMissing k as
        refine hb ▸ ?_
        exact .refused [] a as w.context c e rfl (.nothing _) hd hi
      · have hr : (inject k a.1 a.2).run w = (.ok (), { w with context := c }) := by
          rw [run_inject, hi]
        have hb := run_bind_ok hr fun _ => injectMissing k as
        refine hb ▸ ?_
        exact (ih _).cons (.added hd hi)

def Keeps (f : Workbench κ → γ) (x : Task κ α) : Prop := ∀ w, f (x.run w).2 = f w

namespace Keeps

variable {f : Workbench κ → γ}

theorem bind {x : Task κ α} {g : α → Task κ β} (hx : Keeps f x) (hg : ∀ a, Keeps f (g a)) :
    Keeps f (x >>= g) := by
  intro w
  have hw := hx w
  rcases hr : x.run w with ⟨e | a, w'⟩ <;> rw [hr] at hw
  · rw [run_bind_error hr]
    exact hw
  · rw [run_bind_ok hr, hg a w']
    exact hw

theorem get_bind {g : Workbench κ → Task κ β} (hg : ∀ w, Keeps f (g w)) : Keeps f (get >>= g) :=
  bind (fun _ => rfl) hg

theorem forM {g : α → Task κ Unit} (hg : ∀ a, Keeps f (g a)) (as : List α) : Keeps f (as.forM g) := by
  induction as with
  | nil => exact fun _ => rfl
  | cons a as ih => exact (hg a).bind fun _ => ih

theorem act (hf : ∀ w h, f { w with host := h } = f w) (a : Action α) :
    Keeps f (Task.act a : Task κ α) := fun w => hf w _

theorem persist (hf : ∀ w h, f { w with host := h } = f w) (root : Path) (name : String)
    (bytes : Bytes) : Keeps f (persist root name bytes) := act hf _

theorem keepAll {keep : Path → String → Bytes → Task κ Unit}
    (hk : ∀ root name bytes, Keeps f (keep root name bytes)) (as : List (String × Bytes)) :
    Keeps f (keepAll keep as) := by
  refine get_bind fun w => ?_
  cases w.cache.persistenceRoot? w.host.disk with
  | none => exact fun _ => rfl
  | some root => exact forM (fun a => hk root a.1 a.2) as

theorem context_compileSource (t : Toolchain) (name text : String) :
    Keeps Workbench.context (compileSource t name text : Task κ CompileResult) := by
  refine get_bind fun w => (act (fun _ _ => rfl) _).bind fun unit => ?_
  exact bind (fun _ => rfl) fun _ => get_bind fun _ _ => rfl

end Keeps

theorem unit_compileSource {t : Toolchain} {name text : String} {w w' : Workbench κ}
    {r : CompileResult} (h : (compileSource t name text).run w = (.ok r, w')) : r.unit = name := by
  rw [compileSource, run_bind_ok (Task.run_get w)] at h
  rcases hs : (Task.act (w.cache.stage name text)).run w with ⟨e | unit, w₁⟩
  · rw [run_bind_error hs] at h
    cases h
  · rw [run_bind_ok hs] at h
    rcases hc : (Task.withRegistry (Registry.Work.compile t unit)).run w₁ with ⟨e | ds, w₂⟩
    · rw [run_bind_error hc] at h
      cases h
    · rw [run_bind_ok hc, run_bind_ok (Task.run_get w₂)] at h
      cases h
      rfl

def injectUnit (keep : Path → String → Bytes → Task κ Unit) (t : Toolchain) (k : ContextKind κ η)
    (name text : String) : Task κ CompileResult := do
  let r ← compileSource t name text
  match r.artifacts.get? r.unit with
  | none => throw r.missing
  | some bytes => do
    keepAll keep r.artifacts.entries
    inject k r.unit bytes
    return r

/-- A load that has injected the unit goes on with the byproducts. -/
theorem install_eq (keep : Path → String → Bytes → Task κ Unit) (t : Toolchain)
    (k : ContextKind κ η) (name text : String) :
    (compileSource t name text >>= deliver keep k) =
      (injectUnit keep t k name text >>= fun r => injectMissing k r.byproducts) := by
  rw [injectUnit, bind_assoc]
  congr 1
  funext r
  unfold deliver
  cases r.artifacts.get? r.unit with
  | none => rfl
  | some bytes => simp only [bind_assoc, pure_bind, CompileResult.byproducts]

/-- Up to the unit a load defines the unit, or nothing if it fails. -/
theorem injectUnit_isDefined {keep : Path → String → Bytes → Task κ Unit}
    (hkeep : ∀ root name bytes, Keeps Workbench.context (keep root name bytes)) (hk : k.Registers)
    (t : Toolchain) (name text : String) (w : Workbench κ) :
    match (injectUnit keep t k name text).run w with
    | (.error _, w') => ∀ m, k.isDefined w'.context m = k.isDefined w.context m
    | (.ok _, w') => ∀ m, k.isDefined w'.context m = true ↔ k.isDefined w.context m = true ∨ m = name := by
  have hkept := Keeps.context_compileSource t name text w
  rcases hc : (compileSource t name text).run w with ⟨e | r, w₁⟩ <;> rw [hc] at hkept
  · rw [injectUnit, run_bind_error hc]
    exact fun m => by rw [hkept]
  have hu : r.unit = name := unit_compileSource hc
  rw [injectUnit, run_bind_ok hc]
  cases hb : r.artifacts.get? r.unit with
  | none => exact fun m => by rw [← hkept]
  | some bytes =>
    have hkept' := Keeps.keepAll hkeep r.artifacts.entries w₁
    simp only
    rcases hp : (keepAll keep r.artifacts.entries).run w₁ with ⟨e | _, w₂⟩ <;> rw [hp] at hkept'
    · rw [run_bind_error hp]
      exact fun m => by rw [hkept', hkept]
    rw [run_bind_ok hp, ← hkept, ← hkept']
    have hr := run_inject k r.unit bytes w₂
    rcases hi : k.inject r.unit bytes w₂.context with ⟨e | _, c⟩ <;> rw [hi] at hr
    · rw [run_bind_error hr]
      exact hk.refused hi
    · rw [run_bind_ok hr, ← hu]
      exact hk.accepted hi

/-- A delivery that goes well has injected the unit, and then what was missing of the byproducts. -/
theorem deliver_ok {keep : Path → String → Bytes → Task κ Unit}
    (hkeep : ∀ root name bytes, Keeps Workbench.context (keep root name bytes)) {r : CompileResult}
    {w w' : Workbench κ} (h : (deliver keep k r).run w = (.ok (), w')) :
    ∃ bytes c, r.artifacts.get? r.unit = some bytes ∧
      k.inject r.unit bytes w.context = (.ok (), c) ∧ Injected k c r.byproducts w'.context := by
  unfold deliver at h
  cases hb : r.artifacts.get? r.unit with
  | none =>
    rw [hb] at h
    cases h
  | some bytes =>
    rw [hb] at h
    simp only at h
    have hkept := Keeps.keepAll hkeep r.artifacts.entries w
    rcases hp : (keepAll keep r.artifacts.entries).run w with ⟨e | _, w₂⟩ <;> rw [hp] at hkept
    · rw [run_bind_error hp] at h
      cases h
    rw [run_bind_ok hp] at h
    have hr := run_inject k r.unit bytes w₂
    rcases hi : k.inject r.unit bytes w₂.context with ⟨e | _, c⟩ <;> rw [hi] at hr
    · rw [run_bind_error hr] at h
      cases h
    rw [run_bind_ok hr] at h
    have hmissing := injectMissing_injecting k r.byproducts { w₂ with context := c }
    have h : (injectMissing k r.byproducts).run { w₂ with context := c } = (.ok (), w') := h
    rw [h] at hmissing
    refine ⟨bytes, c, rfl, hkept ▸ hi, ?_⟩
    cases hmissing with
    | done c' all => exact all

/-- A load that fails before it looks the unit up, and what is defined in the context then: the same
as before unless the unit was injected, which is when a byproduct is refused. Then it is the unit
and the byproducts before that one, in addition. -/
theorem load_error_isDefined (hk : k.Registers) {t : Toolchain} {name text : String}
    {w w' : Workbench κ} {e : Error}
    (hf : (compileSource t name text >>= deliver persist k).run w = (.error e, w')) :
    (load t k name text).run w = (.error e, w'.cleared) ∧
      match (injectUnit persist t k name text).run w with
      | (.error _, _) => ∀ m, k.isDefined w'.cleared.context m = k.isDefined w.context m
      | (.ok r, w₁) =>
        ∃ before x after c, r.byproducts = before ++ x :: after ∧
          Injected k w₁.context before c ∧ k.isDefined c x.1 = false ∧
          k.inject x.1 x.2 c = (.error e, w'.cleared.context) ∧
          ∀ m, k.isDefined w'.cleared.context m = true ↔
            k.isDefined w.context m = true ∨ m = name ∨ m ∈ before.map Prod.fst := by
  refine ⟨by rw [load, run_loadWith, hf], ?_⟩
  have hd := injectUnit_isDefined (Keeps.persist fun _ _ => rfl) hk t name text w
  rw [install_eq] at hf
  rcases hu : (injectUnit persist t k name text).run w with ⟨e' | r, w₁⟩ <;> rw [hu] at hd
  · rw [run_bind_error hu] at hf
    cases hf
    exact hd
  · rw [run_bind_ok hu] at hf
    have hi := injectMissing_injecting k r.byproducts w₁
    rw [hf] at hi
    cases hi with
    | refused before x after c c' _ parts good fresh bad =>
      refine ⟨before, x, after, c, parts, good, fresh, bad, fun m => ?_⟩
      change k.isDefined c' m = true ↔ _
      rw [hk.refused bad, good.isDefined_iff hk, hd, or_assoc]

def emitting (names : List String) : Toolchain where
  acquire := .ok ()
  compile _ _ _ := names.foldr (fun name d => .write name [1] fun _ => d) (.done [])

def refusing (bad : String) : ContextKind (List String) Unit where
  isDefined c name := decide (name ∈ c)
  inject name _ c :=
    if name = bad then (.error (.configuration ("rejected " ++ name)), c)
    else if name ∈ c then (.error (.duplicateUnit name), c)
    else (.ok (), name :: c)
  resolve name s :=
    if name ∈ s.2 then (.ok (), s) else (.error (.unitNotFound name [] []), s)

theorem refusing_registers (bad : String) : (refusing bad).Registers := by
  constructor
  · intro name bytes c c' h m
    simp only [refusing] at h ⊢
    split at h
    · cases h
    · split at h
      · cases h
      · cases h
        simp [or_comm]
  · intro name bytes c c' e h m
    simp only [refusing] at h ⊢
    split at h
    · cases h
      rfl
    · split at h
      · cases h
        rfl
      · cases h

/-- A byproduct that is refused leaves the unit and an earlier byproduct defined. -/
theorem load_error_isDefined_byproduct :
    let t := emitting ["c", "a", "b"]
    let k := refusing "c"
    let cache : Cache := ⟨⟨[], { classpath := ⟨[], none, false⟩ }, 0⟩, { providers := [] }, none, none⟩
    let w : Workbench (List String) := ⟨⟨{}, []⟩, cache, []⟩
    let w' := ((load t k "b" "").run w).2
    ((load t k "b" "").run w).1 = .error (.configuration "rejected c") ∧
      ∀ m, k.isDefined w'.context m = true ↔ m = "b" ∨ m = "a" := by
  intro t k cache w w'
  have hf : (compileSource t "b" "" >>= deliver persist k).run w =
      (.error (.configuration "rejected c"), ⟨⟨{}, []⟩, { cache with registry := { cache.registry with
        capture := ((cache.registry.capture.write "c" [1]).write "a" [1]).write "b" [1] } },
        ["a", "b"]⟩) := rfl
  obtain ⟨hl, hd⟩ := load_error_isDefined (refusing_registers "c") hf
  obtain ⟨before, x, after, c, hp, -, -, hx, hd⟩ := hd
  have hp : [("a", [1]), ("c", [1])] = before ++ x :: after := hp
  refine ⟨congrArg Prod.fst hl, fun m => ?_⟩
  rw [show w' = _ from congrArg Prod.snd hl, hd]
  rcases before with _ | ⟨y, _ | ⟨z, zs⟩⟩
  · cases hp
    have hr : k.inject "a" [1] c = (.error (.configuration "rejected c"), ["a", "b"]) := hx
    simp only [k, refusing] at hr
    rw [if_neg (by decide)] at hr
    split at hr <;> cases hr
  · cases hp
    simp [w, refusing]
  · have hl := congrArg List.length hp
    simp at hl

/-- A load that fails while it installs may leave the context changed. -/
theorem load_error_defines_unit :
    let t := emitting ["a", "b"]
    let k := refusing "b"
    let cache : Cache := ⟨⟨[], { classpath := ⟨[], none, false⟩ }, 0⟩, { providers := [] }, none, none⟩
    let w : Workbench (List String) := ⟨⟨{}, []⟩, cache, []⟩
    let installed := (compileSource t "a" "" >>= deliver persist k).run w
    let loaded := (load t k "a" "").run w
    (Cache.new t {}).run ⟨{}, []⟩ = (.ok cache, ⟨{}, []⟩) ∧ k.Registers ∧
      installed.1 = .error (.configuration "rejected b") ∧
      loaded.1 = .error (.configuration "rejected b") ∧
      k.isDefined w.context "a" = false ∧ k.isDefined loaded.2.context "a" = true :=
  ⟨rfl, refusing_registers "b", rfl, rfl, rfl, rfl⟩

end Cache
end UnitCache
