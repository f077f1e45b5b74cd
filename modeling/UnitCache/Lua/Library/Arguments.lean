import UnitCache.Lua.Operation

namespace UnitCache.Lua

structure Arguments where
  /-- The function as messages call it if nothing else is known of it. -/
  function : String
  values : List Value
  /-- Values of the function's own. -/
  captured : List Value := []

/-- A library function. -/
abbrev Native := Arguments → Routine (List Value)

namespace Arguments

open Routine

variable {α : Type}

def count (a : Arguments) : Nat := a.values.length

def get? (a : Arguments) (i : Nat) : Option Value := a.values[i - 1]?

def get (a : Arguments) (i : Nat) : Value := (a.get? i).getD .nil

/-- The arguments after the first ones. -/
def after (a : Arguments) (i : Nat) : List Value := a.values.drop i

/-- An argument is wrong. The object of a method does not count. -/
def refuse (a : Arguments) (i : Nat) (why : Bytes) : Routine α :=
  .callee fun name =>
    let because := Utf8.encode " (" ++ why ++ Utf8.encode ")"
    let bad (i : Nat) (f : Bytes) : Bytes :=
      Utf8.encode ("bad argument #" ++ toString i ++ " to '") ++ f ++ Utf8.encode "'" ++ because
    match name with
    | some n =>
      if n.kind ≠ "method" then failBytes (bad i n.name)
      else if i = 1 then
        failBytes (Utf8.encode "calling '" ++ n.name ++ Utf8.encode "' on bad self" ++ because)
      else failBytes (bad (i - 1) n.name)
    | none => failBytes (bad i (Utf8.encode a.function))

def refuseText (a : Arguments) (i : Nat) (why : String) : Routine α := a.refuse i (Utf8.encode why)

/-- An argument is not of the type that is wanted. -/
def refuseType (a : Arguments) (i : Nat) (wanted : String) : Routine α := do
  let got ←
    match a.get? i with
    | none => pure (Utf8.encode "no value")
    | some v => askBytes fun w => w.typeName v
  a.refuse i (Utf8.encode (wanted ++ " expected, got ") ++ got)

def some (a : Arguments) (i : Nat) : Routine Value :=
  match a.get? i with
  | .some v => return v
  | none => a.refuseText i "value expected"

def number (a : Arguments) (i : Nat) : Routine Number :=
  match (a.get i).toNumber? with
  | .some n => return n
  | none => a.refuseType i "number"

def int (a : Arguments) (i : Nat) : Routine Int :=
  match (a.get i).toNumber? with
  | .some n =>
    match n.toInt? with
    | .some i => return i.toInt
    | none => a.refuseText i "number has no integer representation"
  | none => a.refuseType i "number"

/-- An integer, or what stands for one that is not given. -/
def intOr (a : Arguments) (i : Nat) (default : Int) : Routine Int :=
  if a.get i = .nil then return default else a.int i

def bytes (a : Arguments) (i : Nat) : Routine Bytes :=
  match (a.get i).toText? with
  | .some s => return s
  | none => a.refuseType i "string"

def bytesOr (a : Arguments) (i : Nat) (default : Bytes) : Routine Bytes :=
  if a.get i = .nil then return default else a.bytes i

/-- The address of a table. -/
def table (a : Arguments) (i : Nat) : Routine Nat :=
  match a.get i with
  | .table t => return t
  | _ => a.refuseType i "table"

def functionValue (a : Arguments) (i : Nat) : Routine Value :=
  match a.get i with
  | .function f => return .function f
  | _ => a.refuseType i "function"

/-- The number of a thread. -/
def thread (a : Arguments) (i : Nat) : Routine Nat :=
  match a.get i with
  | .thread t => return t
  | _ => a.refuseType i "thread"

def check (a : Arguments) (holds : Bool) (i : Nat) (otherwise : String) : Routine Unit :=
  if holds then return else a.refuseText i otherwise

end Arguments
end UnitCache.Lua
