import UnitCache.Lua.World

namespace UnitCache.Lua

/-- What messages call a function: a kind, such as a local or a method, and a name. -/
structure CallName where
  kind : String
  name : Bytes
  deriving DecidableEq, Repr

inductive Routine (α : Type) where
  | done (a : α)
  /-- Raises a value as an error. -/
  | raise (v : Value)
  /-- The operation itself is at fault; Lua code adds to the message where it stands. -/
  | fault (message : Bytes)
  /-- Acts on the world and goes on with the answers. -/
  | act (f : World → List Value × World) (next : List Value → Routine α)
  /-- Calls a function and goes on with its results. -/
  | call (f : Value) (args : List Value) (name : Option CallName) (next : List Value → Routine α)
  /-- Calls a function and goes on with whether it succeeded, and with its results or the error. A
  handler sees the error first. -/
  | attempt (f : Value) (args : List Value) (handler : Option Value)
      (next : Bool → List Value → Routine α)
  /-- Where the caller at a level stands, with level one for the caller of this function. -/
  | place (level : Nat) (next : Bytes → Routine α)
  /-- How this function was called. -/
  | callee (next : Option CallName → Routine α)
  /-- Lets a thread run until it yields or ends, and goes on with whether it failed. -/
  | resume (thread : Nat) (args : List Value) (next : Bool → List Value → Routine α)
  /-- Gives values to whoever resumed this thread, and goes on with those of the next resumption. -/
  | yield (vs : List Value) (next : List Value → Routine α)
  /-- Begins a thread that will run a function. -/
  | spawn (f : Value) (next : Nat → Routine α)
  /-- Ends a thread that does not run, closes what it has open, and goes on with whether all went
  well, or else with the error. -/
  | kill (thread : Nat) (next : Bool → List Value → Routine α)

namespace Routine

variable {α β : Type}

def bind (r : Routine α) (g : α → Routine β) : Routine β :=
  match r with
  | .done a => g a
  | .raise v => .raise v
  | .fault m => .fault m
  | .act f next => .act f (fun vs => (next vs).bind g)
  | .call f args name next => .call f args name (fun vs => (next vs).bind g)
  | .attempt f args h next => .attempt f args h (fun ok vs => (next ok vs).bind g)
  | .place level next => .place level (fun bs => (next bs).bind g)
  | .callee next => .callee (fun n => (next n).bind g)
  | .resume t args next => .resume t args (fun ok vs => (next ok vs).bind g)
  | .yield vs next => .yield vs (fun vs => (next vs).bind g)
  | .spawn f next => .spawn f (fun t => (next t).bind g)
  | .kill t next => .kill t (fun ok vs => (next ok vs).bind g)

instance : Monad Routine where
  pure := .done
  bind := bind

/-- Changes the world. -/
def change (f : World → World) : Routine Unit := .act (fun w => ([], f w)) fun _ => .done ()

/-- A value that the world has. -/
def ask (f : World → Value) : Routine Value := .act (fun w => ([f w], w)) fun vs => .done (Value.first vs)

/-- Values that the world has. -/
def askAll (f : World → List Value) : Routine (List Value) := .act (fun w => (f w, w)) .done

def askBytes (f : World → Bytes) : Routine Bytes :=
  .act (fun w => ([.string (f w)], w)) fun
    | [.string bs] => .done bs
    | _ => .done []

/-- A new thing in the world. -/
def make (f : World → Value × World) : Routine Value :=
  .act (fun w => let (v, w) := f w; ([v], w)) fun vs => .done (Value.first vs)

def newTable (t : Table) : Routine Value :=
  make fun w => let (a, w) := w.newTable t; (.table a, w)

def newFunction (c : Callable) : Routine Value :=
  make fun w => let (a, w) := w.newFunction c; (.function a, w)

def sharedFunction (name : String) : Routine Value :=
  make fun w => let (a, w) := w.sharedFunction name; (.function a, w)

def newList (vs : List Value) : Routine Value := newTable (.ofItems vs 0)

def callAll (f : Value) (args : List Value) : Routine (List Value) := .call f args none .done

def callFirst (f : Value) (args : List Value) (name : Option CallName) : Routine Value :=
  .call f args name fun vs => .done (Value.first vs)

def metafield (v : Value) (name : String) : Routine Value := ask (·.metafield v name)

/-- Fails in an operation. -/
def failWith (message : String) : Routine α := .fault (Utf8.encode message)

/-- Fails in a library function: the message begins with the place of its caller. -/
def failBytes (message : Bytes) : Routine α :=
  .place 1 fun here => .raise (.string (here ++ message))

def fail (message : String) : Routine α := failBytes (Utf8.encode message)

end Routine
end UnitCache.Lua
