import UnitCache.Toolchain.Dialogue

namespace UnitCache.Dialogue

inductive Call where
  | find (name : String)
  | write (name : String) (bytes : Bytes)
  | close
  deriving DecidableEq, Repr

namespace Call

def lookup? : Call → Option String
  | .find name => some name
  | _ => none

def output? : Call → Option (String × Bytes)
  | .write name bytes => some (name, bytes)
  | _ => none

end Call

variable {α β σ : Type}

/-- Someone who answers lookups as a function of the name, whatever else comes of them. -/
def Manager.Answers (m : Manager σ) (find : String → Except Error (Option ModuleSource)) : Prop :=
  ∀ name s, ((m.find name).run s).1 = find name

def Manager.after (m : Manager σ) (names : List String) (s : σ) : σ :=
  names.foldl (fun s name => ((m.find name).run s).2) s

theorem Manager.after_append (m : Manager σ) (names more : List String) (s : σ) :
    m.after (names ++ more) s = m.after more (m.after names s) := List.foldl_append

def calls (m : Manager σ) : Dialogue α → σ → List Call
  | .done _, _ => []
  | .find name next, s =>
    let (r, s) := (m.find name).run s
    .find name :: (next r).calls m s
  | .write name bytes next, s =>
    let (r, s) := (m.write name bytes).run s
    .write name bytes :: (next r).calls m s
  | .close next, s =>
    let (r, s) := m.close.run s
    .close :: (next r).calls m s

@[simp]
theorem calls_pure (m : Manager σ) (a : α) (s : σ) : (pure a : Dialogue α).calls m s = [] := rfl

theorem run_bind (m : Manager σ) (d : Dialogue α) (f : α → Dialogue β) (s : σ) :
    ((d >>= f).run m).run s = ((f ((d.run m).run s).1).run m).run ((d.run m).run s).2 := by
  induction d generalizing s with
  | done a => rfl
  | find name next ih => exact ih _ _
  | write name bytes next ih => exact ih _ _
  | close next ih => exact ih _ _

theorem calls_bind (m : Manager σ) (d : Dialogue α) (f : α → Dialogue β) (s : σ) :
    (d >>= f).calls m s =
      d.calls m s ++ (f ((d.run m).run s).1).calls m ((d.run m).run s).2 := by
  induction d generalizing s with
  | done a => rfl
  | find name next ih => exact congrArg (List.cons _) (ih _ _)
  | write name bytes next ih => exact congrArg (List.cons _) (ih _ _)
  | close next ih => exact congrArg (List.cons _) (ih _ _)

def NeverCloses : Dialogue α → Prop
  | .done _ => True
  | .find _ next => ∀ r, (next r).NeverCloses
  | .write _ _ next => ∀ r, (next r).NeverCloses
  | .close _ => False

theorem NeverCloses.calls {x : Dialogue α} (hx : x.NeverCloses) (m : Manager σ) (s : σ) :
    .close ∉ x.calls m s := by
  induction x generalizing s with
  | done a => exact List.not_mem_nil
  | find name next ih =>
    intro h
    rcases List.mem_cons.mp h with h | h
    · cases h
    · exact ih _ (hx _) _ h
  | write name bytes next ih =>
    intro h
    rcases List.mem_cons.mp h with h | h
    · cases h
    · exact ih _ (hx _) _ h
  | close next => exact hx.elim

theorem NeverCloses.bind {x : Dialogue α} {f : α → Dialogue β} (hx : x.NeverCloses)
    (hf : ∀ a, (f a).NeverCloses) : (x >>= f).NeverCloses := by
  induction x with
  | done a => exact hf a
  | find name next ih => exact fun r => ih r (hx r)
  | write name bytes next ih => exact fun r => ih r (hx r)
  | close next => exact hx.elim

def OnlyLooks : Dialogue α → Prop
  | .done _ => True
  | .find _ next => ∀ r, (next r).OnlyLooks
  | .write _ _ _ => False
  | .close _ => False

theorem OnlyLooks.bind {x : Dialogue α} {f : α → Dialogue β} (hx : x.OnlyLooks)
    (hf : ∀ a, (f a).OnlyLooks) : (x >>= f).OnlyLooks := by
  induction x with
  | done a => exact hf a
  | find name next ih => exact fun r => ih r (hx r)
  | write name bytes next => exact hx.elim
  | close next => exact hx.elim

theorem OnlyLooks.neverCloses {x : Dialogue α} (hx : x.OnlyLooks) : x.NeverCloses := by
  induction x with
  | done a => trivial
  | find name next ih => exact fun r => ih r (hx r)
  | write name bytes next => exact hx.elim
  | close next => exact hx.elim

def writes (m : Manager σ) : Dialogue α → σ → List ((String × Bytes) × Except Error Unit)
  | .done _, _ => []
  | .find name next, s =>
    let (r, s) := (m.find name).run s
    (next r).writes m s
  | .write name bytes next, s =>
    let (r, s) := (m.write name bytes).run s
    ((name, bytes), r) :: (next r).writes m s
  | .close next, s =>
    let (r, s) := m.close.run s
    (next r).writes m s

theorem writes_bind (m : Manager σ) (d : Dialogue α) (f : α → Dialogue β) (s : σ) :
    (d >>= f).writes m s =
      d.writes m s ++ (f ((d.run m).run s).1).writes m ((d.run m).run s).2 := by
  induction d generalizing s with
  | done a => rfl
  | find name next ih => exact ih _ _
  | write name bytes next ih => exact congrArg (List.cons _) (ih _ _)
  | close next ih => exact ih _ _

theorem OnlyLooks.writes {x : Dialogue α} (hx : x.OnlyLooks) (m : Manager σ) (s : σ) :
    x.writes m s = [] := by
  induction x generalizing s with
  | done a => rfl
  | find name next ih => exact ih _ (hx _) _
  | write name bytes next => exact hx.elim
  | close next => exact hx.elim

end UnitCache.Dialogue
