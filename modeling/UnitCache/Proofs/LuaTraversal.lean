import UnitCache.Lua.Compiler
import UnitCache.Proofs.Dialogue
import UnitCache.Proofs.PostOrder

namespace UnitCache.Lua

open Dialogue

def Requirement.literal? (r : Requirement) : Option String :=
  match r.target with
  | .literal name => some name
  | .dynamic => none

structure Sources where
  unit : ModuleSource
  find : String → Except Error (Option ModuleSource)

namespace Sources

variable (x : Sources)

/-- The source of a name. The unit's own name always stands for the unit. -/
def get? (name : String) : Option ModuleSource :=
  if name = x.unit.name then some x.unit
  else
    match x.find name with
    | .ok m => m
    | .error _ => none

def literals (m : ModuleSource) : List String :=
  match Compile.chunk m.origin m.text with
  | .ok _ => (requirements (Utf8.encode m.text)).filterMap Requirement.literal?
  | .error _ => []

/-- Any other name stands for the module that a lookup of it finds. -/
theorem get?_eq_some {name : String} {m : ModuleSource} (h : name ≠ x.unit.name) :
    x.get? name = some m ↔ x.find name = .ok (some m) := by
  rw [get?, if_neg h]
  split
  · rename_i hf
    rw [hf, Except.ok.injEq]
  · rename_i hf
    simp [hf]

def isModule (name : String) : Bool := !builtinModules.contains name && (x.get? name).isSome

def next (name : String) : List String :=
  match x.get? name with
  | some m => (literals m).filter x.isModule
  | none => []

abbrev Member : String → Prop := Reachable x.next [x.unit.name]

theorem isSome_get?_of_member {n : String} (h : x.Member n) : (x.get? n).isSome := by
  cases h with
  | root hn => simp [get?, List.mem_singleton.mp hn]
  | @next k _ _ hm =>
    cases hk : x.get? k with
    | none => simp [next, hk] at hm
    | some m =>
      simp only [next, hk, List.mem_filter, isModule, Bool.and_eq_true] at hm
      exact hm.2.2

def Unresolved (name : String) : Prop := name ∉ builtinModules ∧ x.get? name = none

def Fails (name : String) : Prop :=
  ∃ m, x.get? name = some m ∧
    ((∃ e, Compile.chunk m.origin m.text = .error e) ∨ ∃ n ∈ literals m, x.Unresolved n)

def compiled? (name : String) : Option (String × Bytes) :=
  match x.get? name with
  | some m =>
    match Compile.chunk m.origin m.text with
    | .ok c => some (name, c.encode)
    | .error _ => none
  | none => none

end Sources

namespace Compile

variable {find : String → Except Error (Option ModuleSource)} {α β : Type} {x : Compile α}
  {f : α → Compile β} {s s' s'' : Session} {a : α} {b : β} {looked looked' : List String}

/-- With anyone who answers as `find`, a part of a compile ends in a value and a session and only
looks up some names. -/
def Explores (find : String → Except Error (Option ModuleSource)) (x : Compile α) (s : Session)
    (a : α) (s' : Session) (looked : List String) : Prop :=
  ∀ (σ : Type) (m : Manager σ), m.Answers find → ∀ st,
    ((x.run s).run m).run st = ((a, s'), m.after looked st) ∧
      (x.run s).calls m st = looked.map Call.find

namespace Explores

theorem pure (a : α) (s : Session) : Explores find (Pure.pure a) s a s [] :=
  fun _ _ _ _ => ⟨rfl, rfl⟩

theorem update (f : Session → Session) (s : Session) :
    Explores find (modify f) s () (f s) [] :=
  fun _ _ _ _ => ⟨rfl, rfl⟩

theorem lookUp (name : String) (s : Session) :
    Explores find (Dialogue.lookUp name : Dialogue _) s (find name) s [name] := by
  intro σ m hm st
  refine ⟨?_, rfl⟩
  rw [← hm name st]
  rfl

theorem bind (hx : Explores find x s a s' looked) (hf : Explores find (f a) s' b s'' looked') :
    Explores find (x >>= f) s b s'' (looked ++ looked') := by
  intro σ m hm st
  obtain ⟨hr, hc⟩ := hx σ m hm st
  obtain ⟨hr', hc'⟩ := hf σ m hm (m.after looked st)
  refine ⟨?_, ?_⟩
  · rw [StateT.run_bind, run_bind, hr, m.after_append]
    exact hr'
  · rw [StateT.run_bind, calls_bind, hr, hc, List.map_append]
    exact congrArg _ hc'

theorem get_bind {f : Session → Compile β} (hf : Explores find (f s) s b s' looked) :
    Explores find (get >>= f) s b s' looked := hf

end Explores

/-- What a part of a compile does for the names `todo` that are required, one after the other:
`looked` are the names that it looks up, `order` those that it enters. `own` says whether it finds
an error besides those of the sources it enters. -/
structure Walked (x : Sources) (own : Prop) (s : Session) (todo : List String) (s' : Session)
    (looked order : List String) : Prop where
  post : PostOrder x.next s.visited todo s'.visited order
  outputs : s'.outputs = s.outputs ++ order.filterMap x.compiled?
  errors : hasErrors s'.diagnostics = true ↔
    hasErrors s.diagnostics = true ∨ own ∨ ∃ n ∈ order, x.Fails n
  /-- What is entered was looked up once. -/
  counted : ∀ n, (x.get? n).isSome → looked.count n = order.count n
  asked : ∀ n ∈ looked, n ∉ builtinModules ∧ n ≠ x.unit.name
  missing : ∀ n ∈ looked, x.get? n = none → hasErrors s'.diagnostics = true

structure Entered (x : Sources) (name : String) (s s' : Session) (looked inner : List String) :
    Prop where
  post : PostOrder x.next (name :: s.visited) (x.next name) s'.visited inner
  outputs : s'.outputs = s.outputs ++ (inner ++ [name]).filterMap x.compiled?
  errors : hasErrors s'.diagnostics = true ↔
    hasErrors s.diagnostics = true ∨ ∃ n ∈ inner ++ [name], x.Fails n
  counted : ∀ n, (x.get? n).isSome → looked.count n = inner.count n
  asked : ∀ n ∈ looked, n ∉ builtinModules ∧ n ≠ x.unit.name
  missing : ∀ n ∈ looked, x.get? n = none → hasErrors s'.diagnostics = true

namespace Walked

variable {x : Sources} {own own' : Prop} {s s' s'' : Session} {todo todo' looked looked' order order' : List String}

theorem refl (x : Sources) (s : Session) : Walked x False s [] s [] [] :=
  ⟨.nil, by simp, by simp, by simp, by simp, by simp⟩

theorem trans (h : Walked x own s todo s' looked order)
    (h' : Walked x own' s' todo' s'' looked' order') :
    Walked x (own ∨ own') s (todo ++ todo') s'' (looked ++ looked') (order ++ order') := by
  refine ⟨h.post.append h'.post, ?_, ?_, ?_, ?_, ?_⟩
  · rw [h'.outputs, h.outputs, List.filterMap_append, List.append_assoc]
  · rw [h'.errors, h.errors]
    simp only [List.mem_append, or_and_right, exists_or]
    constructor
    · rintro ((h | h | h) | h | h) <;> simp [h]
    · rintro (h | (h | h) | h | h) <;> simp [h]
  · intro n hn
    rw [List.count_append, List.count_append, h.counted n hn, h'.counted n hn]
  · intro n hn
    rcases List.mem_append.mp hn with hn | hn
    · exact h.asked n hn
    · exact h'.asked n hn
  · intro n hn hg
    rcases List.mem_append.mp hn with hn | hn
    · exact h'.errors.mpr (.inl (h.missing n hn hg))
    · exact h'.missing n hn hg

/-- A name that was visited needs nothing done. -/
theorem skip {n : String} (hn : n ∈ s.visited) : Walked x False s [n] s [] [] :=
  ⟨.skip hn .nil, by simp, by simp, by simp, by simp, by simp⟩

/-- A module that is found is entered. -/
theorem enter {n : String} {inner : List String} (hv : n ∉ s.visited) (hb : n ∉ builtinModules)
    (hu : n ≠ x.unit.name) (hg : (x.get? n).isSome) (h : Entered x n s s' looked inner) :
    Walked x False s [n] s' (n :: looked) (inner ++ [n]) := by
  refine ⟨.enter hv h.post .nil, h.outputs, by simpa using h.errors, ?_, ?_, ?_⟩
  · intro m hm
    rw [List.count_cons, List.count_append, h.counted m hm, List.count_singleton]
  · intro m hm
    rcases List.mem_cons.mp hm with rfl | hm
    · exact ⟨hb, hu⟩
    · exact h.asked m hm
  · intro m hm hn
    rcases List.mem_cons.mp hm with rfl | hm
    · simp [hn] at hg
    · exact h.missing m hm hn

/-- A name that stands for nothing is an error. -/
theorem report {d : Diagnostic} (looked : List String) (hd : own ↔ d.isError = true)
    (hl : ∀ n ∈ looked, x.Unresolved n ∧ own) :
    Walked x own s [] { s with diagnostics := s.diagnostics ++ [d] } looked [] := by
  refine ⟨.nil, by simp, by simp [hasErrors, hd], ?_, ?_, ?_⟩
  · intro n hn
    rw [List.count_nil, List.count_eq_zero]
    intro hm
    simp [(hl n hm).1.2] at hn
  · intro n hn
    obtain ⟨⟨hb, hg⟩, -⟩ := hl n hn
    refine ⟨hb, fun hu => ?_⟩
    simp [Sources.get?, hu] at hg
  · intro n hn _
    simp [hasErrors, hd.mp (hl n hn).2]

/-- A name that stands for nothing is looked up, and is an error. -/
theorem unresolved {n : String} {d : Diagnostic} (hu : x.Unresolved n) (hd : d.isError = true) :
    Walked x (x.Unresolved n) s (if x.isModule n then [n] else [])
      { s with diagnostics := s.diagnostics ++ [d] } [n] [] := by
  have hm : x.isModule n = false := by simp [Sources.isModule, hu.2]
  rw [hm]
  exact report [n] (by simp [hu, hd]) (by simpa using hu)

end Walked

structure Sound (x : Sources) (visited : List String) : Prop where
  unit : x.unit.name ∈ visited
  members : ∀ n ∈ visited, x.Member n

theorem Walked.sound {x : Sources} {own : Prop} {todo order : List String}
    (h : Walked x own s todo s' looked order) (hs : Sound x s.visited)
    (ht : ∀ n ∈ todo, x.Member n) : Sound x s'.visited := by
  refine ⟨(h.post.mem_seen _).mpr (.inl hs.unit), ?_⟩
  intro n hn
  rcases (h.post.mem_seen n).mp hn with hn | hn
  · exact hs.members n hn
  · exact h.post.reachable ht n hn

def room (known visited : List String) : Nat := known.countP (fun n => !visited.contains n)

theorem room_le {known visited visited' : List String} (h : ∀ n ∈ visited, n ∈ visited') :
    room known visited' ≤ room known visited := by
  refine List.countP_mono_left fun n _ hn => ?_
  simp only [Bool.not_eq_true', List.contains_eq_mem, decide_eq_false_iff_not] at hn ⊢
  exact fun hv => hn (h n hv)

/-- Visiting a name takes room. -/
theorem room_lt {known visited : List String} {n : String} (hk : n ∈ known) (hv : n ∉ visited) :
    room known (n :: visited) < room known visited := by
  obtain ⟨as, bs, rfl⟩ := List.append_of_mem hk
  have hle (ks : List String) : room ks (n :: visited) ≤ room ks visited :=
    room_le fun _ hm => List.mem_cons_of_mem n hm
  have ha := hle as
  have hb := hle bs
  unfold room at *
  rw [List.countP_append, List.countP_append, List.countP_cons_of_neg (by simp),
    List.countP_cons_of_pos (by simpa using hv)]
  omega

/-- Compiling a source does what it should, and in the same way with any reach that leaves room for
all names, as long as there are fewer of them than `bound`. -/
def Compiles (x : Sources) (known : List String) (bound : Nat) : Prop :=
  ∀ name m s, x.get? name = some m → name ∉ s.visited → Sound x (name :: s.visited) →
    room known (name :: s.visited) < bound →
    ∃ s' looked inner,
      (∀ reach, room known (name :: s.visited) < reach →
        Explores x.find (text reach name m.origin m.text) s () s' looked) ∧
      Entered x name s s' looked inner

variable {x : Sources} {known : List String} {bound : Nat}

section

variable {compile : (name origin text : String) → Compile Unit}

/-- A requirement of what was visited or is always there needs nothing done. -/
theorem explores_demand_skip {r : Requirement} {name wanted : String} (ht : r.target = .literal wanted)
    (hs : wanted ∈ s.visited ∨ wanted ∈ builtinModules) :
    Explores find (demand compile name r) s () s [] := by
  have hc : (s.visited.contains wanted || builtinModules.contains wanted) = true := by
    simpa using hs
  unfold demand
  rw [ht]
  refine Explores.get_bind ?_
  rw [hc]
  exact Explores.pure () s

/-- What is done for any other requirement depends on what the lookup of its name gives. -/
theorem explores_demand_look {r : Requirement} {name wanted : String} (ht : r.target = .literal wanted)
    (hv : wanted ∉ s.visited) (hb : wanted ∉ builtinModules)
    (he : Explores find (match find wanted with
      | .ok (some m) => compile wanted m.origin m.text
      | .ok none =>
        report ⟨.error, name, some r.line, "module '" ++ wanted ++ "' not found on classpath"⟩
      | .error e =>
        report ⟨.error, name, some r.line,
          "cannot resolve module '" ++ wanted ++ "': " ++ e.message⟩) s () s' looked) :
    Explores find (demand compile name r) s () s' (wanted :: looked) := by
  have hc : (s.visited.contains wanted || builtinModules.contains wanted) = false := by
    simp [hv, hb]
  unfold demand
  rw [ht]
  refine Explores.get_bind ?_
  rw [hc]
  exact (Explores.lookUp wanted s).bind he

/-- A module that is found is compiled. -/
theorem explores_demand_found {r : Requirement} {name wanted : String} {m : ModuleSource}
    (ht : r.target = .literal wanted) (hv : wanted ∉ s.visited) (hb : wanted ∉ builtinModules)
    (hf : find wanted = .ok (some m))
    (he : Explores find (compile wanted m.origin m.text) s () s' looked) :
    Explores find (demand compile name r) s () s' (wanted :: looked) :=
  explores_demand_look ht hv hb (by rwa [hf])

/-- An error is reported if none is found. -/
theorem explores_demand_unresolved {r : Requirement} {name wanted : String}
    (ht : r.target = .literal wanted) (hv : wanted ∉ s.visited) (hb : wanted ∉ builtinModules)
    (hf : ∀ m, find wanted ≠ .ok (some m)) :
    ∃ d : Diagnostic, d.isError = true ∧ ∀ compile, Explores find (demand compile name r) s ()
      { s with diagnostics := s.diagnostics ++ [d] } [wanted] := by
  rcases h : find wanted with e | _ | m
  · exact ⟨⟨.error, name, some r.line, _⟩, rfl, fun compile =>
      explores_demand_look ht hv hb (by rw [h]; exact Explores.update _ s)⟩
  · exact ⟨⟨.error, name, some r.line, _⟩, rfl, fun compile =>
      explores_demand_look ht hv hb (by rw [h]; exact Explores.update _ s)⟩
  · exact absurd h (hf m)

end

theorem demand_walked (hc : Compiles x known bound) (hk : ∀ n, x.Member n → n ∈ known)
    (name : String) {r : Requirement} (hs : Sound x s.visited)
    (hr : ∀ n ∈ r.literal?.toList.filter x.isModule, x.Member n)
    (hroom : room known s.visited ≤ bound) :
    ∃ s' looked order,
      (∀ reach, room known s.visited ≤ reach →
        Explores x.find (demand (text reach) name r) s () s' looked) ∧
      Walked x (∃ n, r.literal? = some n ∧ x.Unresolved n) s
        (r.literal?.toList.filter x.isModule) s' looked order := by
  cases ht : r.target with
  | dynamic =>
    have hl : r.literal? = none := by simp [Requirement.literal?, ht]
    have hw : Walked x False s [] { s with diagnostics := s.diagnostics ++
        [⟨.warning, name, some r.line, dynamicRequire⟩] } [] [] :=
      Walked.report [] (by simp [Diagnostic.isError]) (by simp)
    refine ⟨_, [], [], fun reach _ => ?_, by simpa [hl] using hw⟩
    unfold demand
    rw [ht]
    exact Explores.update _ s
  | literal wanted =>
    have hl : r.literal? = some wanted := by simp [Requirement.literal?, ht]
    have hown : (∃ n, r.literal? = some n ∧ x.Unresolved n) ↔ x.Unresolved wanted := by simp [hl]
    rw [hl, Option.toList_some, List.filter_cons, List.filter_nil] at hr ⊢
    rw [← hl, hown]
    by_cases hv : wanted ∈ s.visited
    · -- A name that was visited stands for a source, so nothing is wrong with it.
      have hg := x.isSome_get?_of_member (hs.members wanted hv)
      have hu : ¬x.Unresolved wanted := fun h => by simp [h.2] at hg
      refine ⟨s, [], [], fun _ _ => explores_demand_skip ht (.inl hv), ?_⟩
      simp only [hu]
      cases x.isModule wanted with
      | true => exact Walked.skip hv
      | false => exact Walked.refl x s
    · by_cases hb : wanted ∈ builtinModules
      · have hm : x.isModule wanted = false := by simp [Sources.isModule, hb]
        have hu : ¬x.Unresolved wanted := fun h => h.1 hb
        refine ⟨s, [], [], fun _ _ => explores_demand_skip ht (.inr hb), ?_⟩
        simp only [hu, hm]
        exact Walked.refl x s
      · have hne : wanted ≠ x.unit.name := fun h => hv (h ▸ hs.unit)
        cases hg : x.get? wanted with
        | none =>
          obtain ⟨d, hd, he⟩ := explores_demand_unresolved ht hv hb fun m hf => by
            cases hg.symm.trans ((x.get?_eq_some hne).mpr hf)
          exact ⟨_, [wanted], [], fun reach _ => he (text reach), Walked.unresolved ⟨hb, hg⟩ hd⟩
        | some m =>
          have hm : x.isModule wanted = true := by simp [Sources.isModule, hb, hg]
          have hu : ¬x.Unresolved wanted := fun h => by simp [h.2] at hg
          have hmem : x.Member wanted := hr wanted (by simp [hm])
          have hs' : Sound x (wanted :: s.visited) :=
            ⟨List.mem_cons_of_mem _ hs.unit, by simpa [hmem] using hs.members⟩
          have hlt := room_lt (hk wanted hmem) hv
          obtain ⟨s', looked, inner, he, hw⟩ :=
            hc wanted m s hg hv hs' (Nat.lt_of_lt_of_le hlt hroom)
          refine ⟨s', wanted :: looked, inner ++ [wanted], fun reach hreach => ?_, ?_⟩
          · exact explores_demand_found ht hv hb ((x.get?_eq_some hne).mp hg)
              (he reach (Nat.lt_of_lt_of_le hlt hreach))
          · simp only [hu, hm]
            exact Walked.enter hv hb hne (by simp [hg]) hw

theorem demands_walked (hc : Compiles x known bound) (hk : ∀ n, x.Member n → n ∈ known)
    (name : String) {rs : List Requirement} (hs : Sound x s.visited)
    (hr : ∀ n ∈ (rs.filterMap Requirement.literal?).filter x.isModule, x.Member n)
    (hroom : room known s.visited ≤ bound) :
    ∃ s' looked order,
      (∀ reach, room known s.visited ≤ reach →
        Explores x.find (rs.forM (demand (text reach) name)) s () s' looked) ∧
      Walked x (∃ n ∈ rs.filterMap Requirement.literal?, x.Unresolved n) s
        ((rs.filterMap Requirement.literal?).filter x.isModule) s' looked order := by
  induction rs generalizing s with
  | nil => exact ⟨s, [], [], fun _ _ => Explores.pure () s, by simpa using Walked.refl x s⟩
  | cons r rs ih =>
    have hsplit : (r :: rs).filterMap Requirement.literal? =
        r.literal?.toList ++ rs.filterMap Requirement.literal? := by
      cases hl : r.literal? <;> simp [hl]
    rw [hsplit, List.filter_append] at hr ⊢
    obtain ⟨s₁, l₁, o₁, he₁, hw₁⟩ :=
      demand_walked hc hk name hs (fun n hn => hr n (List.mem_append_left _ hn)) hroom
    have hroom₁ : room known s₁.visited ≤ room known s.visited :=
      room_le fun n hn => (hw₁.post.mem_seen n).mpr (.inl hn)
    have hs₁ := hw₁.sound hs fun n hn => hr n (List.mem_append_left _ hn)
    obtain ⟨s₂, l₂, o₂, he₂, hw₂⟩ :=
      ih hs₁ (fun n hn => hr n (List.mem_append_right _ hn)) (Nat.le_trans hroom₁ hroom)
    refine ⟨s₂, l₁ ++ l₂, o₁ ++ o₂, ?_, ?_⟩
    · intro reach hreach
      exact (he₁ reach hreach).bind (he₂ reach (Nat.le_trans hroom₁ hreach))
    · have hw := hw₁.trans hw₂
      simpa only [List.mem_append, or_and_right, exists_or, Option.mem_toList] using hw

/-- A source that cannot be loaded is an error, and nothing follows from it. -/
theorem entered_of_error {name message : String} {m : ModuleSource} {d : Diagnostic}
    (hg : x.get? name = some m) (hc : chunk m.origin m.text = .error message)
    (hd : d.isError = true) : Entered x name s { s with
      visited := name :: s.visited, diagnostics := s.diagnostics ++ [d] } [] [] := by
  have hn : x.next name = [] := by simp [Sources.next, hg, Sources.literals, hc]
  have hf : x.Fails name := ⟨m, hg, .inl ⟨message, hc⟩⟩
  refine ⟨by rw [hn]; exact .nil, ?_, ?_, by simp, by simp, by simp⟩
  · simp [Sources.compiled?, hg, hc]
  · simp [hasErrors, hd, hf]

/-- A source that can be loaded is put in order after what it requires. -/
theorem entered_of_walked {name : String} {m : ModuleSource} {c : Chunk} {inner : List String}
    (hg : x.get? name = some m) (hc : chunk m.origin m.text = .ok c)
    (hw : Walked x (∃ n ∈ Sources.literals m, x.Unresolved n)
      { s with visited := name :: s.visited } (x.next name) s' looked inner) :
    Entered x name s { s' with outputs := s'.outputs ++ [(name, c.encode)] } looked inner := by
  have hf : x.Fails name ↔ ∃ n ∈ Sources.literals m, x.Unresolved n := by
    simp [Sources.Fails, hg, hc]
  refine ⟨hw.post, ?_, ?_, hw.counted, hw.asked, hw.missing⟩
  · simp [hw.outputs, Sources.compiled?, hg, hc]
  · rw [hw.errors, ← hf]
    simp only [List.mem_append, List.mem_singleton, or_and_right, exists_or, exists_eq_left]
    constructor
    · rintro (h | h | h) <;> simp [h]
    · rintro (h | h | h) <;> simp [h]

/-- Compiling a text does what it should. -/
theorem text_compiles (hk : ∀ n, x.Member n → n ∈ known) (bound : Nat) :
    Compiles x known bound := by
  induction bound with
  | zero =>
    intro name m s _ _ _ hroom
    exact absurd hroom (Nat.not_lt_zero _)
  | succ bound ih =>
    intro name m s hg hv hs hroom
    have hvisit : Explores x.find
        (modify fun s => { s with visited := name :: s.visited } : Compile Unit) s () _ [] :=
      Explores.update _ s
    cases hc : chunk m.origin m.text with
    | error message =>
      refine ⟨_, [], [], ?_, entered_of_error (d := ⟨.error, name, (Location.split message).1,
        (Location.split message).2⟩) hg hc rfl⟩
      rintro (_ | reach) hreach
      · exact absurd hreach (Nat.not_lt_zero _)
      · unfold text
        rw [hc]
        exact hvisit.bind (Explores.update _ _)
    | ok c =>
      have hl : Sources.literals m =
          (requirements (Utf8.encode m.text)).filterMap Requirement.literal? := by
        simp [Sources.literals, hc]
      have hn : x.next name = (Sources.literals m).filter x.isModule := by
        simp [Sources.next, hg]
      have hr : ∀ n ∈ (Sources.literals m).filter x.isModule, x.Member n := by
        intro n hm
        exact .next (hs.members name List.mem_cons_self) (by rw [hn]; exact hm)
      rw [hl] at hr
      obtain ⟨s', looked, inner, he, hw⟩ := demands_walked ih hk name
        (s := { s with visited := name :: s.visited }) hs hr (Nat.lt_succ_iff.mp hroom)
      rw [← hl, ← hn] at hw
      refine ⟨{ s' with outputs := s'.outputs ++ [(name, c.encode)] }, looked ++ [], inner, ?_, ?_⟩
      · rintro (_ | reach) hreach
        · exact absurd hreach (Nat.not_lt_zero _)
        · unfold text
          rw [hc]
          exact hvisit.bind ((he reach (Nat.lt_succ_iff.mp hreach)).bind (Explores.update _ _))
      · rw [List.append_nil]
        exact entered_of_walked hg hc hw

end Compile
end UnitCache.Lua
