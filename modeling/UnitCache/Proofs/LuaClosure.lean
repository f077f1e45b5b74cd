import UnitCache.Proofs.LuaTraversal

namespace UnitCache.Lua

open Dialogue

theorem map_some_filterMap {α β : Type} {f : α → Option β} {as : List α}
    (h : ∀ a ∈ as, (f a).isSome) : (as.filterMap f).map some = as.map f := by
  induction as with
  | nil => rfl
  | cons a as ih =>
    obtain ⟨b, hb⟩ := Option.isSome_iff_exists.mp (h a List.mem_cons_self)
    rw [List.filterMap_cons_some hb, List.map_cons, List.map_cons, hb,
      ih fun a ha => h a (List.mem_cons_of_mem _ ha)]

namespace Sources

variable (x : Sources)

/-- What stands for anything but the unit was found. -/
theorem find_of_get? {n : String} {m : ModuleSource} (h : x.get? n = some m) :
    n = x.unit.name ∨ x.find n = .ok (some m) := by
  unfold get? at h
  split at h
  · exact .inl ‹_›
  · cases hf : x.find n with
    | error e => simp [hf] at h
    | ok found =>
      rw [hf] at h
      exact .inr (congrArg Except.ok h)

/-- What does not fail is compiled. -/
theorem isSome_compiled? {n : String} (hn : x.Member n) (hf : ¬x.Fails n) :
    (x.compiled? n).isSome := by
  obtain ⟨m, hm⟩ := Option.isSome_iff_exists.mp (x.isSome_get?_of_member hn)
  cases hc : Compile.chunk m.origin m.text with
  | error e => exact absurd ⟨m, hm, .inl ⟨e, hc⟩⟩ hf
  | ok c => simp [compiled?, hm, hc]

end Sources

namespace Compile

variable {σ : Type}

theorem calls_writeAll (m : Manager σ) (es : List (String × Bytes)) (st : σ) :
    (writeAll es).calls m st = es.map (fun e => .write e.1 e.2) := by
  induction es generalizing st with
  | nil => rfl
  | cons e es ih =>
    have hrest (ds : List Diagnostic) (st : σ) :
        (do return ds ++ (← writeAll es) : Dialogue (List Diagnostic)).calls m st =
          es.map (fun e => .write e.1 e.2) := by
      rw [calls_bind, ih, calls_pure, List.append_nil]
    unfold writeAll
    rw [calls_bind]
    refine congrArg (List.cons (Call.write e.1 e.2)) ?_
    cases ((output e.1 e.2).run m).run st with
    | mk r st' =>
      cases r with
      | ok _ => exact hrest _ _
      | error f => exact hrest _ _

/-- What the analysis of a unit goes through, if there are not more modules than known that the unit
needs. It is the same with any reach beyond them. -/
theorem analyse_entered {find : String → Except Error (Option ModuleSource)} (unit : NamedUnit)
    (text : String) {known : List String}
    (hk : ∀ n, Reachable (Sources.next ⟨⟨unit.name, unit.uri, text⟩, find⟩) [unit.name] n →
      n ∈ unit.name :: known) :
    ∃ s looked inner, Entered ⟨⟨unit.name, unit.uri, text⟩, find⟩ unit.name {} s looked inner ∧
      ∀ {σ : Type} {m : Manager σ}, m.Answers find → ∀ {reach}, known.length < reach → ∀ st,
        ((analyse unit text reach).run m).run st = (s, m.after looked st) ∧
          (analyse unit text reach).calls m st = looked.map Call.find := by
  have hroom : room (unit.name :: known) [unit.name] ≤ known.length := by
    rw [room, List.countP_cons_of_neg (by simp)]
    exact List.countP_le_length
  obtain ⟨s, looked, inner, he, hw⟩ := text_compiles hk (known.length + 1) unit.name
    ⟨unit.name, unit.uri, text⟩ {} (by simp [Sources.get?]) (by simp)
    ⟨by simp, by simpa using Reachable.root (by simp)⟩ (Nat.lt_succ_of_le hroom)
  refine ⟨s, looked, inner, hw, ?_⟩
  intro σ m hm reach hr st
  obtain ⟨hrun, hcalls⟩ := he reach (Nat.lt_of_le_of_lt hroom hr) σ m hm st
  refine ⟨?_, ?_⟩
  · rw [analyse, run_bind, hrun]
    rfl
  · rw [analyse, calls_bind, hrun, hcalls]
    simp

/-- A compile goes on after its analysis only if there is no error. -/
theorem compile_eq (unit : NamedUnit) (text : String) (reach : Nat) :
    compiler.compile unit (.ok text) reach = (do
      let s ← analyse unit text reach
      if hasErrors s.diagnostics then return s.diagnostics
      else return s.diagnostics ++ (← writeAll s.outputs)) := rfl

/-- With or without an error a compile looks up what its analysis does. -/
theorem lookups_compile {m : Manager σ} {unit : NamedUnit} {text : String} {reach : Nat} {st : σ}
    {looked : List String} (hc : (analyse unit text reach).calls m st = looked.map Call.find) :
    ((compiler.compile unit (.ok text) reach).calls m st).filterMap Call.lookup? = looked := by
  have hl : (looked.map Call.find).filterMap Call.lookup? = looked := by
    simp [Function.comp_def, Call.lookup?]
  rw [compile_eq, calls_bind, hc, List.filterMap_append, hl]
  split
  · simp
  · simp [calls_bind, calls_writeAll, Function.comp_def, Call.lookup?]

/-- A compile writes what its analysis has put out, or nothing if there is an error. -/
theorem outputs_compile {m : Manager σ} {unit : NamedUnit} {text : String} {reach : Nat} {st st' : σ}
    {s : Session} {looked : List String}
    (hr : ((analyse unit text reach).run m).run st = (s, st'))
    (hc : (analyse unit text reach).calls m st = looked.map Call.find) :
    ((compiler.compile unit (.ok text) reach).calls m st).filterMap Call.output? =
      if hasErrors s.diagnostics then [] else s.outputs := by
  have hl : (looked.map Call.find).filterMap Call.output? = [] := by
    simp [Function.comp_def, Call.output?]
  rw [compile_eq, calls_bind, hc, hr, List.filterMap_append, hl]
  split
  · simp
  · simp [calls_bind, calls_writeAll, Function.comp_def, Call.output?]

/-- The result of a compile begins with what its analysis found, and is that if there is an error. -/
theorem result_compile {m : Manager σ} {unit : NamedUnit} {text : String} {reach : Nat} {st st' : σ}
    {s : Session} (hr : ((analyse unit text reach).run m).run st = (s, st')) :
    s.diagnostics <+: (((compiler.compile unit (.ok text) reach).run m).run st).1 ∧
      (hasErrors s.diagnostics = true →
        (((compiler.compile unit (.ok text) reach).run m).run st).1 = s.diagnostics) := by
  rw [compile_eq, run_bind, hr]
  cases hd : hasErrors s.diagnostics with
  | true => exact ⟨List.prefix_refl _, fun _ => rfl⟩
  | false =>
    simp only [Bool.false_eq_true, ↓reduceIte, run_bind]
    exact ⟨List.prefix_append _ _, fun h => nomatch h⟩

/-- A compile is the same with two reaches if its analysis is. -/
theorem compile_congr {m : Manager σ} {unit : NamedUnit} {text : String} {reach reach' : Nat} {st : σ}
    (hr : ((analyse unit text reach).run m).run st = ((analyse unit text reach').run m).run st)
    (hc : (analyse unit text reach).calls m st = (analyse unit text reach').calls m st) :
    ((compiler.compile unit (.ok text) reach).run m).run st =
        ((compiler.compile unit (.ok text) reach').run m).run st ∧
      (compiler.compile unit (.ok text) reach).calls m st =
        (compiler.compile unit (.ok text) reach').calls m st := by
  rw [compile_eq, compile_eq, run_bind, run_bind, calls_bind, calls_bind, hr, hc]
  exact ⟨rfl, rfl⟩

end Compile

open Compile

/-- The compile of a unit whose text can be read, with someone who finds finitely many modules and
always the same. There is an error just when one of the unit and the modules that it needs cannot be
loaded, or requires by a literal what is not found. Then nothing is written. Else all of them are,
each once and compiled from its own text, in depth-first post-order of what they require. Each of
them but the unit is looked up once, and nothing that is always there ever is. All of this is over
within any reach beyond the number of modules found. -/
theorem compile_closure {σ : Type} {m : Manager σ}
    {find : String → Except Error (Option ModuleSource)} (hm : m.Answers find)
    {found : List String} (hf : ∀ n source, find n = .ok (some source) → n ∈ found)
    (unit : NamedUnit) (text : String) {reach : Nat} (hr : found.length < reach) (st : σ) :
    let x : Sources := ⟨⟨unit.name, unit.uri, text⟩, find⟩
    let analysis := (((analyse unit text reach).run m).run st).1.diagnostics
    let compile := compiler.compile unit (.ok text) reach
    let result := ((compile.run m).run st).1
    let looked := (compile.calls m st).filterMap Call.lookup?
    let written := (compile.calls m st).filterMap Call.output?
    (hasErrors analysis = true ↔ ∃ n, x.Member n ∧ x.Fails n) ∧
      (hasErrors analysis = true → result = analysis ∧ written = []) ∧
      (hasErrors analysis = false →
        analysis <+: result ∧ (∀ n ∈ looked, x.Member n) ∧
        ∃ seen order, PostOrder x.next [] [unit.name] seen order ∧ order.Nodup ∧
          (∀ n, n ∈ order ↔ x.Member n) ∧ written.map some = order.map x.compiled?) ∧
      (∀ n, x.Member n → n ≠ unit.name → looked.count n = 1) ∧
      (∀ n ∈ looked, n ∉ builtinModules ∧ n ≠ unit.name) ∧
      ∀ reach', found.length < reach' →
        ((compiler.compile unit (.ok text) reach').run m).run st = (compile.run m).run st ∧
          (compiler.compile unit (.ok text) reach').calls m st = compile.calls m st := by
  intro x analysis compile result looked written
  have hk (n : String) (hn : x.Member n) : n ∈ unit.name :: found := by
    obtain ⟨source, hs⟩ := Option.isSome_iff_exists.mp (x.isSome_get?_of_member hn)
    rcases x.find_of_get? hs with h | h
    · exact List.mem_cons.mpr (.inl h)
    · exact List.mem_cons_of_mem _ (hf n source h)
  obtain ⟨s, asked, inner, hw, hall⟩ := analyse_entered unit text hk
  obtain ⟨hrun, hcalls⟩ := hall hm hr st
  have hw : Entered x unit.name {} s asked inner := hw
  have hpost : PostOrder x.next [] [unit.name] s.visited (inner ++ [unit.name]) :=
    .enter (by simp) hw.post .nil
  have hmem (n : String) : n ∈ inner ++ [unit.name] ↔ x.Member n := hpost.mem_iff_reachable n
  have hlooked : looked = asked := lookups_compile hcalls
  have hwritten : written = if hasErrors s.diagnostics then [] else s.outputs :=
    outputs_compile hrun hcalls
  have hanalysis : analysis = s.diagnostics := by
    change (((analyse unit text reach).run m).run st).1.diagnostics = _
    rw [hrun]
  have herr : hasErrors s.diagnostics = true ↔ ∃ n, x.Member n ∧ x.Fails n := by
    have he := hw.errors
    simp only [hmem] at he
    simpa [hasErrors] using he
  rw [hanalysis, hlooked, hwritten]
  refine ⟨herr, ?_, ?_, ?_, hw.asked, ?_⟩
  · intro he
    rw [he]
    exact ⟨(result_compile hrun).2 he, rfl⟩
  · intro he
    refine ⟨(result_compile hrun).1, ?_, s.visited, inner ++ [unit.name], hpost, hpost.nodup.1,
      hmem, ?_⟩
    · intro n hn
      cases hg : x.get? n with
      | none => simp [hw.missing n hn hg] at he
      | some source =>
        have hc := hw.counted n (by simp [hg])
        have hi : n ∈ inner := List.count_pos_iff.mp (hc ▸ List.count_pos_iff.mpr hn)
        exact (hmem n).mp (List.mem_append_left _ hi)
    · rw [he, hw.outputs]
      refine map_some_filterMap fun n hn => x.isSome_compiled? ((hmem n).mp hn) fun hfail => ?_
      simp [herr.mpr ⟨n, (hmem n).mp hn, hfail⟩] at he
  · intro n hn hne
    have hi : n ∈ inner := by simpa [hne] using (hmem n).mpr hn
    have hd : inner.Nodup := (List.nodup_append.mp hpost.nodup.1).1
    rw [hw.counted n (x.isSome_get?_of_member hn), hd.count, if_pos hi]
  · intro reach' hr'
    obtain ⟨hrun', hcalls'⟩ := hall hm hr' st
    exact compile_congr (hrun'.trans hrun.symm) (hcalls'.trans hcalls.symm)

def cycle (n : String) : Except Error (Option ModuleSource) :=
  if n = "b" then .ok (some ⟨"b", "b.lua", "require 'a' require 'c'"⟩)
  else if n = "c" then .ok (some ⟨"c", "c.lua", "return 1"⟩)
  else .ok none

/-- With a cycle all is written once, and what is looked up are the modules of the unit. -/
theorem compile_closure_cycle :
    let m : Manager Unit := ⟨fun n => return cycle n, fun _ _ => return .ok (), return .ok ()⟩
    let text := "require 'b' require 'c'"
    let unit : NamedUnit := ⟨"a", .memory text, by decide⟩
    let calls := (compiler.compile unit (.ok text) 3).calls m ()
    calls.filterMap Call.lookup? = ["b", "c"] ∧
      (calls.filterMap Call.output?).map Prod.fst = ["c", "b", "a"] ∧
      ∀ n ∈ ["b", "c"], (⟨⟨"a", unit.uri, text⟩, cycle⟩ : Sources).Member n := by
  intro m text unit calls
  have hl : calls.filterMap Call.lookup? = ["b", "c"] := by decide +kernel
  have hw : (calls.filterMap Call.output?).map Prod.fst = ["c", "b", "a"] := by decide +kernel
  have hf (n : String) (source : ModuleSource) (h : cycle n = .ok (some source)) : n ∈ ["b", "c"] := by
    unfold cycle at h
    split at h
    · simp_all
    · split at h <;> simp_all
  have hm : m.Answers cycle := fun _ _ => rfl
  have he : hasErrors (((analyse unit text 3).run m).run ()).1.diagnostics = false := by
    decide +kernel
  have hc := compile_closure hm hf unit text (by decide : ["b", "c"].length < 3) ()
  refine ⟨hl, hw, ?_⟩
  rw [← hl]
  exact (hc.2.2.1 he).2.1

end UnitCache.Lua
