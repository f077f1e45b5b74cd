import UnitCache.Proofs.CacheLinks

namespace UnitCache

variable {κ η δ : Type}

namespace Cache

/-- Nothing but artifacts was defined from one context to the next, and what was defined already is
as it was. `view` gives what a name is defined as, `Holds` tells the bytes that this was made of. -/
structure Defines (view : κ → String → Option δ) (Holds : κ → String → Bytes → Prop)
    (before : κ) (as : List (String × Bytes)) (after : κ) : Prop where
  names (n : String) :
    (view after n).isSome = true ↔ (view before n).isSome = true ∨ n ∈ as.map Prod.fst
  bytes : ∀ a ∈ as, view before a.1 = none → Holds after a.1 a.2
  kept (n : String) : (view before n).isSome = true →
    view after n = view before n ∧ ∀ b, Holds before n b → Holds after n b

end Cache

/-- The contract of contexts, for those that are `fit`: a name that is defined is refused as a
duplicate and nothing changes, and a name that is not is defined or refused otherwise. -/
structure ContextKind.Exact (k : ContextKind κ η) (fit : κ → Prop) (view : κ → String → Option δ)
    (Holds : κ → String → Bytes → Prop) : Prop where
  seen {c : κ} : fit c → ∀ n, k.isDefined c n = (view c n).isSome
  duplicate {c : κ} {name : String} (bytes : Bytes) : fit c → (view c name).isSome = true →
    k.inject name bytes c = (.error (.duplicateUnit name), c)
  accepted {c c' : κ} {name : String} {bytes : Bytes} : fit c →
    k.inject name bytes c = (.ok (), c') → fit c' ∧ Cache.Defines view Holds c [(name, bytes)] c'
  refused {c c' : κ} {name : String} {bytes : Bytes} {e : Error} : fit c → view c name = none →
    k.inject name bytes c = (.error e, c') → ∀ n, e ≠ .duplicateUnit n

variable {k : ContextKind κ η} {fit : κ → Prop} {view : κ → String → Option δ}
  {Holds : κ → String → Bytes → Prop}

theorem ContextKind.Exact.unseen (hk : k.Exact fit view Holds) {c : κ} {n : String} (hc : fit c)
    (h : k.isDefined c n = false) : view c n = none := by
  rw [hk.seen hc] at h
  simpa using h

namespace Lua.Context

open Cache (Defines)

def IsPlain (m : Machine) : Prop :=
  ∃ package, m.world.PackageTables package ∧ (m.world.table m.world.preload).Distinct

def definition? (m : Machine) (name : String) : Option (Value × Value) :=
  let found :=
    ((m.world.table m.world.loaded).getText name, (m.world.table m.world.preload).getText name)
  if found = (.nil, .nil) then none else some found

def Loads (m : Machine) (name : String) (bytes : Bytes) : Prop :=
  ∃ c f env a, load name bytes = .ok (c, f) ∧
    (m.world.table m.world.preload).getText name = .function a ∧
    m.world.functions[a]? = some (.code f env c.shown)

variable {m m' : Machine} {name : String} {bytes : Bytes} {package : Nat}

theorem definition?_isSome (ht : m.world.PackageTables package) (name : String) :
    isDefined m name = (definition? m name).isSome := by
  apply Bool.eq_iff_iff.mpr
  rw [isDefined_iff ht, definition?]
  split
  · rename_i hnone
    obtain ⟨hloaded, hpreload⟩ := Prod.mk.inj hnone
    simp [hloaded, hpreload]
  · rename_i hsome
    simp only [Option.isSome_some, iff_true]
    by_contra hno
    simp only [not_or, not_not] at hno
    exact hsome (Prod.ext hno.2 hno.1)

/-- A new loader is the code of the artifact that was injected. -/
theorem loads_inject (ht : m.world.PackageTables package)
    (h : inject name bytes m = (.ok (), m')) : Loads m' name bytes := by
  obtain ⟨hd, -⟩ := inject_ok ht h
  obtain ⟨e, -, he⟩ | ⟨c, f, m₁, hl, hok, hw⟩ := inject_fresh ht hd bytes
  · rw [he] at h
    cases h
  · rw [hok] at h
    obtain rfl := (Prod.mk.inj h).2
    have hput := Table.set_putting (m.world.table m.world.preload) (Utf8.encode name)
      (.function m.world.functions.size)
    have htable : m₁.world.table m₁.world.preload =
        (m.world.table m.world.preload).setText name (.function m.world.functions.size) := by
      rw [hw]
      exact World.table_alterTable ht.stands _
    refine ⟨c, f, [m.world.cells.size], m.world.functions.size, hl, ?_, ?_⟩
    · rw [htable]
      exact hput.get_self
    · rw [hw]
      exact Array.getElem?_push_size

/-- Machines keep the contract of contexts as long as the tables for modules are plain. -/
theorem kind_exact : kind.Exact IsPlain definition? Loads := by
  constructor
  · rintro c ⟨package, ht, -⟩ n
    exact definition?_isSome ht n
  · rintro c name bytes ⟨package, ht, -⟩ hname
    have hd : isDefined c name = true := (definition?_isSome ht name).trans hname
    exact if_pos hd
  · rintro c c' name bytes ⟨package, ht, hdistinct⟩ h
    obtain ⟨hd, hinj⟩ := inject_ok ht h
    have ht' := hinj.packageTables ht
    have hother (n : String) (hn : n ≠ name) : definition? c' n = definition? c n := by
      rw [definition?, definition?, hinj.table_loaded ht, hinj.getText_of_ne ht hdistinct hn]
    have hself : (definition? c' name).isSome = true := by
      rw [← definition?_isSome ht']
      exact (isDefined_inject ht h).2.1
    refine ⟨⟨package, ht', hinj.distinct ht hdistinct⟩, fun n => ?_, fun a ha _ => ?_, fun n hn => ?_⟩
    · by_cases hn : n = name
      · simp [hn, hself]
      · simp [hother n hn, hn]
    · rw [List.mem_singleton.mp ha]
      exact loads_inject ht h
    · have hne : n ≠ name := by
        rintro rfl
        rw [← definition?_isSome ht, hd] at hn
        cases hn
      refine ⟨hother n hne, fun b hb => ?_⟩
      obtain ⟨chunk, f, env, a, hl, hloader, hcode⟩ := hb
      refine ⟨chunk, f, env, a, hl, ?_, hinj.functions _ _ hcode⟩
      rw [hinj.getText_of_ne ht hdistinct hne]
      exact hloader
  · rintro c c' name bytes e ⟨package, ht, -⟩ hname h n
    have hd : isDefined c name = false := (definition?_isSome ht name).trans (by rw [hname]; rfl)
    have hrun : inject name bytes c = (.error e, c') := h
    obtain ⟨e', hl, he⟩ | ⟨_, _, _, -, hok, -⟩ := inject_fresh ht hd bytes
    · rw [he] at hrun
      obtain rfl := Except.error.inj (Prod.mk.inj hrun).1
      obtain ⟨cause, rfl⟩ := load_error hl
      intro hsame
      cases hsame
    · rw [hok] at hrun
      cases hrun

end Lua.Context

namespace Cache

open Lua.Context (definition?)

variable {as bs : List (String × Bytes)}

namespace Defines

variable {c c₁ c' : κ}

theorem refl (c : κ) : Defines view Holds c [] c :=
  ⟨by simp, by simp, fun _ _ => ⟨rfl, fun _ hb => hb⟩⟩

theorem not_seen (h : Defines view Holds c as c₁) {n : String} (hn : n ∉ as.map Prod.fst) :
    view c₁ n = none ↔ view c n = none := by
  rw [← Option.not_isSome_iff_eq_none, ← Option.not_isSome_iff_eq_none, h.names]
  simp [hn]

theorem append (h : Defines view Holds c as c₁) (h' : Defines view Holds c₁ bs c')
    (apart : ∀ b ∈ bs, b.1 ∉ as.map Prod.fst) : Defines view Holds c (as ++ bs) c' := by
  refine ⟨fun n => ?_, fun a ha hnew => ?_, fun n hn => ?_⟩
  · rw [h'.names, h.names, List.map_append, List.mem_append, or_assoc]
  · rcases List.mem_append.mp ha with ha | ha
    · have hdefined : (view c₁ a.1).isSome = true :=
        (h.names a.1).mpr (.inr (List.mem_map_of_mem ha))
      exact (h'.kept a.1 hdefined).2 a.2 (h.bytes a ha hnew)
    · exact h'.bytes a ha ((h.not_seen (apart a ha)).mpr hnew)
  · have hdefined : (view c₁ n).isSome = true := (h.names n).mpr (.inl hn)
    obtain ⟨hview, hholds⟩ := h.kept n hn
    obtain ⟨hview', hholds'⟩ := h'.kept n hdefined
    exact ⟨hview'.trans hview, fun b hb => hholds' b (hholds b hb)⟩

/-- An artifact whose name is defined already adds nothing. -/
theorem skip (h : Defines view Holds c as c') {a : String × Bytes}
    (ha : (view c a.1).isSome = true) : Defines view Holds c (a :: as) c' := by
  refine ⟨fun n => ?_, fun x hx hnew => ?_, h.kept⟩
  · rw [h.names, List.map_cons, List.mem_cons]
    constructor
    · intro hn
      exact hn.imp_right .inr
    · rintro (hn | rfl | hn)
      · exact .inl hn
      · exact .inl ha
      · exact .inr hn
  · rcases List.mem_cons.mp hx with rfl | hx
    · rw [hnew] at ha
      cases ha
    · exact h.bytes x hx hnew

theorem congr (h : Defines view Holds c as c') (hsame : ∀ a, a ∈ as ↔ a ∈ bs) :
    Defines view Holds c bs c' := by
  refine ⟨fun n => ?_, fun a ha => h.bytes a ((hsame a).mpr ha), h.kept⟩
  rw [h.names]
  simp only [List.mem_map, hsame]

end Defines

def missing (view : κ → String → Option δ) (c : κ) (as : List (String × Bytes)) :
    List (String × Bytes) := as.filter fun a => (view c a.1).isNone

theorem missing_sublist (c : κ) (as : List (String × Bytes)) :
    (missing view c as).Sublist as := List.filter_sublist

theorem mem_missing {c : κ} {a : String × Bytes} :
    a ∈ missing view c as ↔ a ∈ as ∧ view c a.1 = none := by
  simp [missing]

/-- What is defined by the way does not count for artifacts of other names. -/
theorem Defines.missing_eq {c c₁ : κ} (h : Defines view Holds c as c₁)
    (apart : ∀ b ∈ bs, b.1 ∉ as.map Prod.fst) : missing view c₁ bs = missing view c bs := by
  apply List.filter_congr
  intro b hb
  have hiff := h.not_seen (apart b hb)
  rw [← Option.isNone_iff_eq_none, ← Option.isNone_iff_eq_none] at hiff
  exact Bool.eq_iff_iff.mpr hiff

/-- Injections that all went well: the record has those of the artifacts that were missing, once
each, and these are what was defined. -/
theorem Injected.defines {c c' : Watched κ} (hk : k.Exact fit view Holds) (hc : fit c.context)
    (hdistinct : (as.map Prod.fst).Nodup) (h : Injected k.watched c as c') :
    fit c'.context ∧ Defines view Holds c.context as c'.context ∧
      c'.dealings = c.dealings ++ (missing view c.context as).map fun a => .injected a.1 a.2 := by
  induction h with
  | nothing c => exact ⟨hc, .refl _, by simp [missing]⟩
  | @skipped c c' a as defined rest ih =>
    obtain ⟨hfit, hdefines, hrecord⟩ := ih hc (List.nodup_cons.mp hdistinct).2
    have hseen : (view c.context a.1).isSome = true := (hk.seen hc a.1).symm.trans defined
    refine ⟨hfit, hdefines.skip hseen, ?_⟩
    rw [hrecord, missing, missing,
      List.filter_cons_of_neg (by simpa [Option.isSome_iff_ne_none] using hseen)]
  | @added c c₁ c' a as fresh accepted rest ih =>
    obtain ⟨hnew, hdistinct⟩ := List.nodup_cons.mp hdistinct
    have hinject : k.inject a.1 a.2 c.context = (.ok (), c₁.context) := by
      simp only [ContextKind.watched, Prod.mk.injEq] at accepted
      exact Prod.ext accepted.1 (congrArg Watched.context accepted.2)
    have hrecorded : c₁.dealings = c.dealings ++ [.injected a.1 a.2] := by
      simp only [ContextKind.watched, Prod.mk.injEq] at accepted
      exact (congrArg Watched.dealings accepted.2).symm
    obtain ⟨hfit₁, hone⟩ := hk.accepted hc hinject
    obtain ⟨hfit, hdefines, hrecord⟩ := ih hfit₁ hdistinct
    have hunseen := hk.unseen hc fresh
    have apart : ∀ b ∈ as, b.1 ∉ [(a.1, a.2)].map Prod.fst := by
      intro b hb hmem
      have hname : b.1 = a.1 := by simpa using hmem
      exact hnew (hname ▸ List.mem_map_of_mem hb)
    refine ⟨hfit, hone.append hdefines apart, ?_⟩
    rw [hrecord, hrecorded, hone.missing_eq apart, missing, missing,
      List.filter_cons_of_pos (by simp [hunseen]), List.map_cons, List.append_assoc]
    rfl

/-- An injection failed, the last one that was tried: it was of a name that was not defined, and was
not refused as a duplicate. -/
def Failed (k : ContextKind κ η) (view : κ → String → Option δ) (calls : List (String × Bytes))
    (e : Error) : Prop :=
  ∃ a c c', calls.getLast? = some a ∧ view c a.1 = none ∧ k.inject a.1 a.2 c = (.error e, c') ∧
    ∀ n, e ≠ .duplicateUnit n

/-- Injecting what is missing, with a record: each artifact that was not defined is injected once,
until one is refused. -/
theorem Injecting.defines {v : Workbench (Watched κ)} {out : Except Error Unit × Workbench (Watched κ)}
    (hk : k.Exact fit view Holds) (hfit : fit v.context.context) (hempty : v.context.dealings = [])
    (hdistinct : (as.map Prod.fst).Nodup) (h : Injecting k.watched v as out) :
    let calls := out.2.context.dealings.map Dealing.artifact
    calls.Sublist as ∧ (∀ a ∈ calls, view v.context.context a.1 = none) ∧
      (out.1 = .ok () ∧ Defines view Holds v.context.context as out.2.context.context ∨
        ∃ e, out.1 = .error e ∧ Failed k view calls e) := by
  have hmap (l : List (String × Bytes)) :
      (l.map fun a => Dealing.injected a.1 a.2).map Dealing.artifact = l := by
    simp [Function.comp_def, Dealing.artifact]
  cases h with
  | done c all =>
    obtain ⟨-, hdefines, hrecord⟩ := all.defines hk hfit hdistinct
    dsimp only
    rw [hrecord, hempty, List.nil_append, hmap]
    exact ⟨missing_sublist _ as, fun a ha => (mem_missing.mp ha).2, .inl ⟨rfl, hdefines⟩⟩
  | refused before x after c c' e parts good fresh bad =>
    have hnames : ((before ++ x :: after).map Prod.fst).Nodup := parts ▸ hdistinct
    rw [List.map_append, List.map_cons] at hnames
    obtain ⟨hbefore, -, hapart⟩ := List.nodup_append.mp hnames
    obtain ⟨hfit', hdefines, hrecord⟩ := good.defines hk hfit hbefore
    have hunseen := hk.unseen hfit' fresh
    have hnew : x.1 ∉ before.map Prod.fst := by
      intro hmem
      exact hapart _ hmem _ (List.mem_cons_self ..) rfl
    simp only [ContextKind.watched, Prod.mk.injEq] at bad
    obtain ⟨herror, rfl⟩ := bad
    have hcalls : (c.dealings ++ [Dealing.injected x.1 x.2]).map Dealing.artifact =
        missing view v.context.context before ++ [x] := by
      rw [hrecord, hempty, List.nil_append, List.map_append, hmap]
      rfl
    have hinject : k.inject x.1 x.2 c.context = (.error e, (k.inject x.1 x.2 c.context).2) :=
      Prod.ext herror rfl
    dsimp only
    rw [hcalls, parts]
    refine ⟨(missing_sublist _ before).append (List.singleton_sublist.mpr (List.mem_cons_self ..)),
      fun a ha => ?_, .inr ⟨e, rfl, x, c.context, _, by simp, hunseen, hinject,
        hk.refused hfit' hunseen hinject⟩⟩
    rcases List.mem_append.mp ha with ha | ha
    · exact (mem_missing.mp ha).2
    · rw [List.mem_singleton.mp ha]
      exact (hdefines.not_seen hnew).mp hunseen

def injections (t : Toolchain) (k : ContextKind κ η) (name text : String) (w : Workbench κ) :
    List (String × Bytes) :=
  ((install t k.watched name text).run w.watch).2.context.dealings.map Dealing.artifact

/-- An install with a record, from where all artifacts are kept. -/
theorem install_reaches {t : Toolchain} {name text : String} {w w₁ w₂ : Workbench κ}
    {r : CompileResult} {bytes : Bytes} (hc : (compileSource t name text).run w = (.ok r, w₁))
    (hb : r.artifacts.get? name = some bytes)
    (hp : (keepAll persist r.artifacts.entries).run w₁ = (.ok (), w₂)) (k : ContextKind κ η) :
    ∃ v : Workbench (Watched κ), v.context = ⟨w.context, []⟩ ∧
      (install t k.watched name text).run w.watch =
        (inject k.watched name bytes >>= fun _ => injectMissing k.watched r.byproducts).run v := by
  have hcw := Follows.compileSource t name text w.watch
  have hkw := Keeps.context_compileSource t name text w.watch
  rw [Workbench.forget_watch, hc] at hcw
  rcases hc' : (compileSource t name text).run w.watch with ⟨e' | r', v₁⟩ <;> rw [hc'] at hcw hkw
  · cases hcw
  obtain ⟨hr, rfl⟩ := Prod.mk.inj hcw
  cases hr
  have hpw := Follows.keepAll Follows.persist r.artifacts.entries v₁
  have hkp := Keeps.keepAll (Keeps.persist (f := Workbench.context) fun _ _ => rfl)
    r.artifacts.entries v₁
  rw [hp] at hpw
  rcases hp' : (keepAll persist r.artifacts.entries).run v₁ with ⟨e' | _, v₂⟩ <;>
    rw [hp'] at hpw hkp
  · cases hpw
  refine ⟨v₂, hkp.trans hkw, ?_⟩
  have hu := unit_compileSource hc
  rw [install, run_bind_ok hc', deliver, hu, hb]
  simp only
  rw [run_bind_ok hp', CompileResult.byproducts, hu]

theorem Follows.install (t : Toolchain) (k : ContextKind κ η) (name text : String) :
    Follows (install t k.watched name text) (Cache.install t k name text) :=
  (Follows.compileSource t name text).bind (Follows.deliver Follows.persist k)

theorem run_injectMissing_fresh {w : Workbench κ} {a : String × Bytes}
    (h : k.isDefined w.context a.1 = false) (as : List (String × Bytes)) :
    (injectMissing k (a :: as)).run w =
      (inject k a.1 a.2 >>= fun _ => injectMissing k as).run w := by
  rw [injectMissing, run_bind_ok (Task.run_get w), h]
  rfl

variable {r : CompileResult} {name : String} {bytes : Bytes}

/-- The unit and its byproducts are the artifacts. -/
theorem mem_byproducts (hu : r.unit = name) (hb : r.artifacts.get? name = some bytes)
    (a : String × Bytes) : a ∈ (name, bytes) :: r.byproducts ↔ a ∈ r.artifacts.entries := by
  have hunit : (name, bytes) ∈ r.artifacts.entries := NameMap.mem_entries.mpr hb
  rw [List.mem_cons, CompileResult.byproducts, List.mem_filter, hu]
  constructor
  · rintro (rfl | ⟨ha, -⟩)
    · exact hunit
    · exact ha
  · intro ha
    by_cases hname : a.1 = name
    · left
      have hsame : r.artifacts.get? name = some a.2 := hname ▸ NameMap.mem_entries.mp ha
      rw [hb] at hsame
      exact Prod.ext hname (Option.some.inj hsame).symm
    · exact .inr ⟨ha, by simpa using hname⟩

/-- The unit and its byproducts have different names. -/
theorem nodup_byproducts (hu : r.unit = name) :
    (((name, bytes) :: r.byproducts).map Prod.fst).Nodup := by
  rw [List.map_cons, List.nodup_cons]
  constructor
  · intro hmem
    obtain ⟨a, ha, hname⟩ := List.mem_map.mp hmem
    have hne := (List.mem_filter.mp ha).2
    rw [hu] at hne
    exact of_decide_eq_true hne hname
  · apply List.Pairwise.map _ _ (r.artifacts.sorted.sublist List.filter_sublist)
    intro a b hlt heq
    exact String.lt_irrefl _ (heq ▸ hlt)

/-- What an install defines once all artifacts are kept, in a context that keeps its contract. No
name is injected twice, and no byproduct that is defined. A unit that was defined before fails as a
duplicate and nothing changes. Otherwise the artifacts are what is defined in addition, unless an
injection fails in another way. -/
theorem install_defines {t : Toolchain} {text : String} {w w₁ w₂ : Workbench κ}
    (hk : k.Exact fit view Holds) (hfit : fit w.context)
    (hc : (compileSource t name text).run w = (.ok r, w₁))
    (hb : r.artifacts.get? name = some bytes)
    (hp : (keepAll persist r.artifacts.entries).run w₁ = (.ok (), w₂)) :
    let out := (install t k name text).run w
    let calls := injections t k name text w
    (calls.map Prod.fst).Nodup ∧
      (∀ a ∈ calls, r.artifacts.get? a.1 = some a.2 ∧ (a.1 ≠ name → view w.context a.1 = none)) ∧
      ((∃ n, out.1 = .error (.duplicateUnit n)) ↔ (view w.context name).isSome = true) ∧
      ((view w.context name).isSome = true →
        out.1 = .error (.duplicateUnit name) ∧ out.2.context = w.context) ∧
      (view w.context name = none →
        out.1 = .ok () ∧ Defines view Holds w.context r.artifacts.entries out.2.context ∨
          ∃ e, out.1 = .error e ∧ Failed k view calls e) := by
  intro out calls
  have hu := unit_compileSource hc
  obtain ⟨v, hv, hrun⟩ := install_reaches hc hb hp k
  have hout : out = (((install t k.watched name text).run w.watch).1,
      ((install t k.watched name text).run w.watch).2.forget) := Follows.install t k name text w.watch
  have hcalls : calls = ((install t k.watched name text).run w.watch).2.context.dealings.map
      Dealing.artifact := rfl
  rw [hrun] at hout hcalls
  cases hname : view w.context name with
  | some d =>
    have hdefined : (view w.context name).isSome = true := by rw [hname]; rfl
    have hinject : (inject k.watched name bytes).run v = (.error (.duplicateUnit name),
        { v with context := ⟨w.context, [.injected name bytes]⟩ }) := by
      rw [run_inject, hv]
      simp only [ContextKind.watched, hk.duplicate bytes hfit hdefined]
      rfl
    rw [run_bind_error hinject] at hout hcalls
    have hone : calls = [(name, bytes)] := hcalls
    rw [hone, hout]
    refine ⟨by simp, fun a ha => ?_, ?_, fun _ => ⟨rfl, rfl⟩, fun h => ?_⟩
    · rw [List.mem_singleton.mp ha]
      exact ⟨hb, fun hne => absurd rfl hne⟩
    · simp
    · cases h
  | none =>
    have hfresh : k.watched.isDefined v.context name = false := by
      rw [hv]
      exact (hk.seen hfit name).trans (by rw [hname]; rfl)
    have hmissing := run_injectMissing_fresh (a := (name, bytes)) hfresh r.byproducts
    have hinjecting := injectMissing_injecting k.watched ((name, bytes) :: r.byproducts) v
    rw [← hmissing] at hout hcalls
    obtain ⟨hsublist, hnew, hend⟩ := hinjecting.defines hk (by rw [hv]; exact hfit) (by rw [hv])
      (nodup_byproducts hu)
    rw [← hcalls] at hsublist hnew hend
    rw [hv] at hnew hend
    refine ⟨(nodup_byproducts hu).sublist (hsublist.map _), fun a ha => ?_, ?_, ?_, fun _ => ?_⟩
    · have hmem := (mem_byproducts hu hb a).mp (hsublist.subset ha)
      exact ⟨NameMap.mem_entries.mp hmem, fun _ => hnew a ha⟩
    · rw [hout]
      constructor
      · rintro ⟨n, hn⟩
        rcases hend with ⟨hok, -⟩ | ⟨e, herror, _, _, _, -, -, -, hother⟩
        · rw [hok] at hn
          cases hn
        · rw [herror] at hn
          exact absurd (Except.error.inj hn) (hother n)
      · intro h
        cases h
    · intro h
      cases h
    · rw [hout]
      apply hend.imp_left
      rintro ⟨hok, hdefines⟩
      exact ⟨hok, hdefines.congr (mem_byproducts hu hb)⟩

def produces (names : List String) (name text : String) (w : Workbench κ) : Bool :=
  match (compileSource Lua.compiler name text).run w with
  | (.ok r, _) => names.all r.contains
  | (.error _, _) => false

/-- A unit and a module that it requires are defined in a new machine, the module by its own code,
and the library is left as it was. -/
theorem install_defines_module :
    let w := archiveBench Lua.Context.fresh
    let out := (install Lua.compiler Lua.Context.kind "a" "require 'b'").run w
    out.1 = .ok () ∧ (definition? out.2.context "a").isSome = true ∧
      (∃ bytes, Lua.Context.Loads out.2.context "b" bytes) ∧
      (definition? w.context "string").isSome = true ∧
      definition? out.2.context "string" = definition? w.context "string" := by
  intro w out
  have hok : out.1 = .ok () := by decide +kernel
  have hproduced : produces ["a", "b"] "a" "require 'b'" w = true := by decide +kernel
  have hplain : Lua.Context.IsPlain w.context := by
    have ht : Lua.Context.fresh.world.ModuleTables 3 := .of_unfilled (by decide +kernel)
    exact ⟨3, ht.packageTables, ht.distinct⟩
  have hnew : definition? w.context "a" = none ∧ definition? w.context "b" = none ∧
      (definition? w.context "string").isSome = true := by decide +kernel
  have hunrooted : w.cache.artifactRoot = none := rfl
  have hout : (install Lua.compiler Lua.Context.kind "a" "require 'b'").run w = out := rfl
  -- From here on it does not matter what is in the machine, only what was found out about it.
  clear_value out w
  unfold produces at hproduced
  split at hproduced
  · rename_i r w₁ hc
    simp only [List.all_cons, List.all_nil, Bool.and_true, Bool.and_eq_true] at hproduced
    obtain ⟨bytes, hb⟩ := Option.isSome_iff_exists.mp hproduced.1
    obtain ⟨bytes', hb'⟩ := Option.isSome_iff_exists.mp hproduced.2
    obtain ⟨_, _, _, -, hw₁, -⟩ := stage_of_compileSource hc
    have hroot : w₁.cache.persistenceRoot? w₁.host.disk = none := by
      rw [hw₁, persistenceRoot?, show (compiledBench w _ _ _).cache.artifactRoot = none from hunrooted]
      rfl
    have hp := run_keepAll_skip hroot persist r.artifacts.entries
    have hdefines := install_defines Lua.Context.kind_exact hplain hc hb hp
    obtain ⟨-, -, -, -, hend⟩ := hdefines
    rw [hout] at hend
    obtain ⟨-, hall⟩ | ⟨e, he, -⟩ := hend hnew.1
    · have ha := NameMap.mem_entries.mpr hb
      have hmodule := NameMap.mem_entries.mpr hb'
      exact ⟨hok, (hall.names "a").mpr (.inr (List.mem_map_of_mem ha)),
        ⟨bytes', hall.bytes _ hmodule hnew.2.1⟩, hnew.2.2, (hall.kept "string" hnew.2.2).1⟩
    · rw [show out.1 = .error e from he] at hok
      cases hok
  · cases hproduced

end Cache
end UnitCache
