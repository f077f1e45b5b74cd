import UnitCache.Classpath
/-!
What a compiler asks of its surroundings, as a tree: it looks up modules, writes outputs and may
close what it works with, and goes on with the answers. Who answers decides what a compile does
besides giving its result.
-/
namespace UnitCache

inductive Dialogue (α : Type) where
  | done (result : α)
  | find (name : String) (next : Except Error (Option ModuleSource) → Dialogue α)
  | write (name : String) (bytes : Bytes) (next : Except Error Unit → Dialogue α)
  | close (next : Except Error Unit → Dialogue α)

namespace Dialogue

variable {α β : Type}

def bind (d : Dialogue α) (f : α → Dialogue β) : Dialogue β :=
  match d with
  | .done a => f a
  | .find name next => .find name (fun r => (next r).bind f)
  | .write name bytes next => .write name bytes (fun r => (next r).bind f)
  | .close next => .close (fun r => (next r).bind f)

instance : Monad Dialogue where
  pure := .done
  bind := bind

def lookUp (name : String) : Dialogue (Except Error (Option ModuleSource)) := .find name .done

def output (name : String) (bytes : Bytes) : Dialogue (Except Error Unit) :=
  .write name bytes .done

/-- Those who answer, with a state of their own. -/
structure Manager (σ : Type) where
  find : String → StateM σ (Except Error (Option ModuleSource))
  write : String → Bytes → StateM σ (Except Error Unit)
  close : StateM σ (Except Error Unit) := return .ok ()

/-- A dialogue with someone who answers. -/
def run {σ : Type} (m : Manager σ) : Dialogue α → StateM σ α
  | .done a => return a
  | .find name next => do (next (← m.find name)).run m
  | .write name bytes next => do (next (← m.write name bytes)).run m
  | .close next => do (next (← m.close)).run m

end Dialogue
end UnitCache
