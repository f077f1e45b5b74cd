import UnitCache.Binary64.Arithmetic
import UnitCache.Lua.Tree

namespace UnitCache.Lua

inductive Value where
  | nil
  | bool (b : Bool)
  | number (n : Number)
  | string (s : Bytes)
  | table (address : Nat)
  | function (address : Nat)
  | thread (address : Nat)
  | file (which : Nat)
  deriving DecidableEq, Repr

namespace Value

instance : Inhabited Value := ⟨.nil⟩

def int (i : Int) : Value := .number (.int (Int64.ofInt i))

def nat (n : Nat) : Value := int n

def float (x : Binary64) : Value := .number (.float x)

def text (s : String) : Value := .string (Utf8.encode s)

/-- All values except nil and false count as true. -/
def isTrue : Value → Bool
  | .nil | .bool false => false
  | _ => true

def typeName : Value → String
  | .nil => "nil"
  | .bool _ => "boolean"
  | .number _ => "number"
  | .string _ => "string"
  | .table _ => "table"
  | .function _ => "function"
  | .thread _ => "thread"
  | .file _ => "userdata"

/-- The value as a key of a table: a float that is an integer counts as the integer. -/
def asKey : Value → Value
  | .number (.float x) =>
    match x.toInt64? with
    | some i => .number (.int i)
    | none => .number (.float x)
  | v => v

def isNaN : Value → Bool
  | .number (.float x) => x.isNaN
  | _ => false

/-- Equality without metamethods. An integer equals the float of the same value. -/
def same : Value → Value → Bool
  | .number (.float x), .number (.float y) => x.same y
  | a, b => !a.isNaN && a.asKey = b.asKey

/-- The first of several values, nil if there is none. -/
def first (vs : List Value) : Value := vs.head?.getD .nil

/-- As many values as wanted, filled up with nil. -/
def adjust (count : Nat) (vs : List Value) : List Value :=
  vs.take count ++ List.replicate (count - vs.length) .nil

end Value
end UnitCache.Lua
