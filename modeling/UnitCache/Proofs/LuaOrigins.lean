import UnitCache.Proofs.LuaReach

namespace UnitCache.Lua

open Compile Dialogue

variable {σ : Type} {origin origin' text : String} {unit unit' : NamedUnit}

theorem findIdx?_zero (ho : '\x00' ∉ origin.toList) :
    (Utf8.encode ("@" ++ origin)).findIdx? (· = 0) = none := by
  rw [List.findIdx?_eq_none_iff]
  intro b hb
  have hz := Utf8.zero_not_mem_encode (s := "@" ++ origin) (by simpa using ho)
  simpa using fun he : b = 0 => hz (he ▸ hb)

/-- A text can be loaded as a chunk wherever it was found, or nowhere. -/
theorem chunk_alike (ho : '\x00' ∉ origin.toList) (ho' : '\x00' ∉ origin'.toList) (text : String) :
    (∃ e e', chunk origin text = .error e ∧ chunk origin' text = .error e') ∨
      ∃ c c', chunk origin text = .ok c ∧ chunk origin' text = .ok c' ∧ c.source = c'.source := by
  simp only [chunk, findIdx?_zero ho, findIdx?_zero ho']
  split
  · cases Chunk.decode (Utf8.encode text) with
    | ok c => exact .inr ⟨c, c, rfl, rfl, rfl⟩
    | error e => exact .inl ⟨_, _, rfl, rfl⟩
  split
  · exact .inl ⟨_, _, rfl, rfl⟩
  cases parse (Utf8.encode text) with
  | ok tree => exact .inr ⟨_, _, rfl, rfl, rfl⟩
  | error e => cases e <;> exact .inl ⟨_, _, rfl, rfl⟩

def heading (d : Diagnostic) : Severity × String := (d.severity, d.unit)

/-- Two sessions that differ only in what a unit's own chunk is called and in what is wrong with it. -/
structure Session.Agree (name : String) (s s' : Session) : Prop where
  diagnostics : s.diagnostics.map heading = s'.diagnostics.map heading
  outputs : s.outputs = [] ∧ s'.outputs = [] ∨ ∃ (front : List (String × Bytes)) (c c' : Chunk),
    s.outputs = front ++ [(name, c.encode)] ∧ s'.outputs = front ++ [(name, c'.encode)] ∧
      c.source = c'.source

def prerequisites (reach : Nat) (name text : String) : Dialogue (PUnit × Session) :=
  ((requirements (Utf8.encode text)).forM (demand (Compile.text reach) name)).run { visited := [name] }

theorem analyse_error {reach : Nat} {e : String} (h : chunk unit.uri text = .error e) :
    analyse unit text (reach + 1) = return { visited := [unit.name], diagnostics :=
      [⟨.error, unit.name, (Location.split e).1, (Location.split e).2⟩] } := by
  unfold analyse Compile.text
  simp only [h]
  rfl

/-- A unit that can be loaded is put out after its prerequisites. -/
theorem analyse_ok {c : Chunk} (h : chunk unit.uri text = .ok c) (reach : Nat) (m : Manager σ)
    (st : σ) :
    let x := ((prerequisites reach unit.name text).run m).run st
    ((analyse unit text (reach + 1)).run m).run st =
        ({ x.1.2 with outputs := x.1.2.outputs ++ [(unit.name, c.encode)] }, x.2) ∧
      (analyse unit text (reach + 1)).calls m st =
        (prerequisites reach unit.name text).calls m st := by
  have ha : analyse unit text (reach + 1) = (prerequisites reach unit.name text >>= fun x =>
      (pure ((), { x.2 with outputs := x.2.outputs ++ [(unit.name, c.encode)] }) :
        Dialogue (Unit × Session))) >>= fun x => return x.2 := by
    unfold analyse Compile.text
    simp only [h]
    rfl
  rw [ha, run_bind, run_bind, calls_bind, calls_bind]
  exact ⟨rfl, by simp⟩

/-- Two units of one name and text look up the same and come to the same, but for what the chunk of
each is called and what is wrong with it. -/
theorem analyse_agree (hn : unit.name = unit'.name) (ho : '\x00' ∉ unit.uri.toList)
    (ho' : '\x00' ∉ unit'.uri.toList) (text : String) (reach : Nat) (m : Manager σ) (st : σ) :
    (analyse unit text reach).calls m st = (analyse unit' text reach).calls m st ∧
      Session.Agree unit.name (((analyse unit text reach).run m).run st).1
        (((analyse unit' text reach).run m).run st).1 := by
  cases reach with
  | zero => exact ⟨rfl, rfl, .inl ⟨rfl, rfl⟩⟩
  | succ reach =>
    rcases chunk_alike ho ho' text with ⟨e, e', he, he'⟩ | ⟨c, c', hc, hc', hs⟩
    · rw [analyse_error he, analyse_error he', ← hn]
      exact ⟨rfl, rfl, .inl ⟨rfl, rfl⟩⟩
    · obtain ⟨hrun, hcalls⟩ := analyse_ok hc reach m st
      obtain ⟨hrun', hcalls'⟩ := analyse_ok hc' reach m st
      rw [hrun, hrun', hcalls, hcalls', ← hn]
      exact ⟨rfl, rfl, .inr ⟨_, c, c', rfl, rfl, hs⟩⟩

end UnitCache.Lua
