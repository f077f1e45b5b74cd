import UnitCache.Proofs.LuaReach

namespace UnitCache.Lua

open Dialogue

variable {σ : Type}

def refusal? (w : (String × Bytes) × Except Error Unit) : Option Diagnostic :=
  match w.2 with
  | .ok () => none
  | .error e => some ⟨.error, w.1.1, none, "cannot write output: " ++ e.message⟩

theorem refusal?_isSome (w : (String × Bytes) × Except Error Unit) :
    (refusal? w).isSome ↔ w.2 ≠ .ok () := by
  obtain ⟨output, answer⟩ := w
  cases answer <;> simp [refusal?]

/-- Each refused write is an error. -/
theorem hasErrors_refusals (ws : List ((String × Bytes) × Except Error Unit)) :
    hasErrors (ws.filterMap refusal?) = true ↔ ∃ w ∈ ws, w.2 ≠ .ok () := by
  have hd {w : (String × Bytes) × Except Error Unit} {x : Diagnostic} (h : refusal? w = some x) :
      x.isError = true := by
    obtain ⟨output, answer⟩ := w
    cases answer with
    | ok _ => cases h
    | error e =>
      cases h
      rfl
  rw [hasErrors, List.any_eq_true]
  constructor
  · rintro ⟨x, hx, -⟩
    obtain ⟨w, hw, hr⟩ := List.mem_filterMap.mp hx
    exact ⟨w, hw, (refusal?_isSome w).mp (by simp [hr])⟩
  · rintro ⟨w, hw, hn⟩
    obtain ⟨x, hx⟩ := Option.isSome_iff_exists.mp ((refusal?_isSome w).mpr hn)
    exact ⟨x, List.mem_filterMap.mpr ⟨w, hw, hx⟩, hd hx⟩

namespace Compile

/-- After each output the next ones are written, whatever the answer is. -/
theorem writeAll_cons (e : String × Bytes) (es : List (String × Bytes)) :
    writeAll (e :: es) =
      .write e.1 e.2 fun answer => do
        return (refusal? (e, answer)).toList ++ (← writeAll es) := by
  refine congrArg (Dialogue.write e.1 e.2) (funext fun answer => ?_)
  cases answer <;> rfl

/-- All outputs are tried in order, and each refused write is told. -/
theorem writeAll_writes (m : Manager σ) (es : List (String × Bytes)) (s : σ) :
    ((writeAll es).writes m s).map Prod.fst = es ∧
      (((writeAll es).run m).run s).1 = ((writeAll es).writes m s).filterMap refusal? := by
  induction es generalizing s with
  | nil => exact ⟨rfl, rfl⟩
  | cons e es ih =>
    obtain ⟨hw, hr⟩ := ih ((m.write e.1 e.2).run s).2
    generalize ha : ((m.write e.1 e.2).run s).1 = answer
    have hwrites : (writeAll (e :: es)).writes m s =
        (e, answer) :: (writeAll es).writes m ((m.write e.1 e.2).run s).2 := by
      rw [writeAll_cons, ← ha]
      refine congrArg (List.cons _) ?_
      rw [writes_bind]
      exact List.append_nil _
    have hresult : (((writeAll (e :: es)).run m).run s).1 = (refusal? (e, answer)).toList ++
        (((writeAll es).run m).run ((m.write e.1 e.2).run s).2).1 := by
      rw [writeAll_cons, ← ha]
      exact congrArg Prod.fst (run_bind m _ _ _)
    rw [hwrites, hresult, hr, List.map_cons, hw]
    refine ⟨rfl, ?_⟩
    cases hf : refusal? (e, answer) with
    | none => rw [List.filterMap_cons_none hf, Option.toList_none, List.nil_append]
    | some d => rw [List.filterMap_cons_some hf, Option.toList_some, List.singleton_append]

def findings (m : Manager σ) (unit : NamedUnit) (text : Except Error String) (reach : Nat) (s : σ) :
    Session :=
  match text with
  | .error e => { diagnostics := [⟨.error, unit.name, none, e.message⟩] }
  | .ok text => (((analyse unit text reach).run m).run s).1

end Compile

open Compile

/-- What a compile of any unit writes, and what it answers, whoever answers it: nothing is written
if there are errors in the sources; else every output is tried once in order, and each write that is
refused adds its error and keeps back no other one. So a compile with errors has written something
just when one of its writes was refused and another one was not. -/
theorem errors_after_writes (m : Manager σ) (unit : NamedUnit) (text : Except Error String)
    (reach : Nat) (s : σ) :
    let found := findings m unit text reach s
    let compile := compiler.compile unit text reach
    let result := ((compile.run m).run s).1
    let written := compile.writes m s
    written.map Prod.fst = found.writes ∧
      result = found.diagnostics ++ written.filterMap refusal? ∧
      (hasErrors result = true ∧ (∃ w ∈ written, w.2 = .ok ()) ↔
        (∃ w ∈ written, w.2 ≠ .ok ()) ∧ ∃ w ∈ written, w.2 = .ok ()) := by
  intro found compile result written
  -- The third fact follows from the other two.
  suffices h : written.map Prod.fst = found.writes ∧
      result = found.diagnostics ++ written.filterMap refusal? by
    refine ⟨h.1, h.2, and_congr_left fun ⟨w, hw, _⟩ => ?_⟩
    have hclean : hasErrors found.diagnostics = false := by
      have hne : found.writes ≠ [] := by
        rw [← h.1]
        simpa using List.ne_nil_of_mem hw
      unfold Session.writes at hne
      cases he : hasErrors found.diagnostics with
      | true => simp [he] at hne
      | false => rfl
    rw [h.2, ← hasErrors_refusals, hasErrors, List.any_append]
    change (hasErrors _ || hasErrors _) = true ↔ _
    rw [hclean, Bool.false_or]
  cases text with
  | error e => exact ⟨rfl, rfl⟩
  | ok text =>
    have hfound : (((analyse unit text reach).run m).run s).1 = found := rfl
    have hlooks := (analyse_onlyLooks unit text reach).writes m s
    cases he : hasErrors found.diagnostics with
    | true =>
      have hwritten : written = [] := by
        change (compiler.compile unit (.ok text) reach).writes m s = []
        rw [compile_eq, writes_bind, hlooks, hfound, he]
        rfl
      have hresult : result = found.diagnostics := by
        change (((compiler.compile unit (.ok text) reach).run m).run s).1 = _
        rw [compile_eq, run_bind, hfound, he]
        rfl
      rw [hwritten, hresult, Session.writes, he]
      exact ⟨rfl, (List.append_nil _).symm⟩
    | false =>
      obtain ⟨hw, hr⟩ := writeAll_writes m found.outputs (((analyse unit text reach).run m).run s).2
      have hwritten : written = (writeAll found.outputs).writes m
          (((analyse unit text reach).run m).run s).2 := by
        change (compiler.compile unit (.ok text) reach).writes m s = _
        rw [compile_eq, writes_bind, hlooks, hfound, he, List.nil_append]
        exact (writes_bind m _ _ _).trans (List.append_nil _)
      have hresult : result = found.diagnostics ++ (((writeAll found.outputs).run m).run
          (((analyse unit text reach).run m).run s).2).1 := by
        change (((compiler.compile unit (.ok text) reach).run m).run s).1 = _
        rw [compile_eq, run_bind, hfound, he]
        exact congrArg Prod.fst (run_bind m _ _ _)
      rw [hwritten, hresult, hw, hr, Session.writes, he]
      exact ⟨rfl, rfl⟩

def readOnly : Manager Unit where
  find name := return if name = "b" then .ok (some ⟨"b", "b.lua", "return 1"⟩) else .ok none
  write name _ := return if name = "a" then .error (.configuration "read only") else .ok ()

/-- The module is written before the unit that requires it is refused. -/
theorem errors_after_writes_partly :
    let unit : NamedUnit := ⟨"a", .memory "return require 'b'", by decide⟩
    let compile := compiler.compile unit (.ok "return require 'b'") 2
    let result := ((compile.run readOnly).run ()).1
    let written := compile.writes readOnly ()
    written.map (fun w => (w.1.1, w.2)) =
        [("b", .ok ()), ("a", .error (.configuration "read only"))] ∧
      hasErrors result = true ∧ ∃ w ∈ written, w.2 = .ok () := by
  intro unit compile result written
  have hw : written.map (fun w => (w.1.1, w.2)) =
      [("b", .ok ()), ("a", .error (.configuration "read only"))] := by decide +kernel
  have hof {x : String × Except Error Unit} (hx : x ∈ written.map fun w => (w.1.1, w.2)) :
      ∃ w ∈ written, w.2 = x.2 := by
    obtain ⟨w, hm, rfl⟩ := List.mem_map.mp hx
    exact ⟨w, hm, rfl⟩
  rw [hw] at hof
  obtain ⟨v, hv, hr⟩ := hof (x := ("a", .error (.configuration "read only"))) (by simp)
  have hmixed := (errors_after_writes readOnly unit (.ok "return require 'b'") 2 ()).2.2
  exact ⟨hw, hmixed.mpr ⟨⟨v, hv, by simp [hr]⟩, hof (x := ("b", .ok ())) (by simp)⟩⟩

end UnitCache.Lua
