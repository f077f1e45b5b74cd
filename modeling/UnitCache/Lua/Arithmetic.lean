import UnitCache.Lua.Value

namespace UnitCache.Lua

namespace BinaryOp

/-- The name of the operation in metamethods. -/
def event : BinaryOp → String
  | .add => "add"
  | .sub => "sub"
  | .mul => "mul"
  | .mod => "mod"
  | .pow => "pow"
  | .div => "div"
  | .idiv => "idiv"
  | .band => "band"
  | .bor => "bor"
  | .bxor => "bxor"
  | .shl => "shl"
  | .shr => "shr"
  | .concat => "concat"
  | .eq | .ne => "eq"
  | .lt | .gt => "lt"
  | .le | .ge => "le"

def isBitwise : BinaryOp → Bool
  | .band | .bor | .bxor | .shl | .shr => true
  | _ => false

end BinaryOp

namespace Number

def toFloat : Number → Binary64
  | .int i => .ofInt i.toInt
  | .float x => x

/-- The integer of the same value, if there is one. -/
def toInt? : Number → Option Int64
  | .int i => some i
  | .float x => x.toInt64?

def wrap (i : Int) : Number := .int (Int64.ofInt i)

/-- An operation with one rule for two integers and one for all others. -/
def combine (ints : Int → Int → Int) (floats : Binary64 → Binary64 → Binary64) :
    Number → Number → Number
  | .int i, .int j => wrap (ints i.toInt j.toInt)
  | a, b => .float (floats a.toFloat b.toFloat)

def isIntZero : Number → Bool
  | .int i => i = 0
  | .float _ => false

def isInt : Number → Bool
  | .int _ => true
  | .float _ => false

/-- Arithmetic on two numbers, or what is wrong with it. -/
def arithmetic (op : BinaryOp) (a b : Number) : Except String Number :=
  let byZero := a.isInt && b.isIntZero
  match op with
  | .add => .ok (combine (· + ·) .add a b)
  | .sub => .ok (combine (· - ·) .sub a b)
  | .mul => .ok (combine (· * ·) .mul a b)
  | .mod =>
    if byZero then .error "attempt to perform 'n%%0'" else .ok (combine Int.fmod .floorMod a b)
  | .idiv =>
    if byZero then .error "attempt to divide by zero" else .ok (combine Int.fdiv .floorDiv a b)
  | .div => .ok (.float (a.toFloat.div b.toFloat))
  | _ => .ok (.float (a.toFloat.pow b.toFloat))

/-- A shift to the left, which is one to the right for negative amounts. -/
def shift (i amount : Int64) : Int64 :=
  let n := amount.toInt
  let word := i.toUInt64
  if n ≤ -64 || 64 ≤ n then 0
  else if n < 0 then (word >>> UInt64.ofNat (-n).toNat).toInt64
  else (word <<< UInt64.ofNat n.toNat).toInt64

def bitwise (op : BinaryOp) (i j : Int64) : Int64 :=
  match op with
  | .band => i &&& j
  | .bor => i ||| j
  | .bxor => i ^^^ j
  | .shl => shift i j
  | _ => shift i (if j = Int64.minValue then 64 else -j)

def neg : Number → Number
  | .int i => .int (-i)
  | .float x => .float x.neg

def lt : Number → Number → Bool
  | .int i, .int j => i < j
  | .float x, .float y => x.lt y
  | .int i, .float y => y.compareInt i.toInt = some .gt
  | .float x, .int j => x.compareInt j.toInt = some .lt

def le : Number → Number → Bool
  | .int i, .int j => i ≤ j
  | .float x, .float y => x.le y
  | .int i, .float y =>
    match y.compareInt i.toInt with
    | some o => o ≠ .lt
    | none => false
  | .float x, .int j =>
    match x.compareInt j.toInt with
    | some o => o ≠ .gt
    | none => false

end Number

namespace Value

/-- The number that a value is or whose text it is. -/
def toNumber? : Value → Option Number
  | .number n => some n
  | .string s => Number.ofText? s
  | _ => none

/-- The integer that a value is or whose text it is. -/
def toInt? (v : Value) : Option Int64 := v.toNumber?.bind Number.toInt?

/-- The text of a string or number. -/
def toText? : Value → Option Bytes
  | .string s => some s
  | .number n => some (Utf8.encode n.text)
  | _ => none

end Value

/-- The order of strings is that of their bytes. -/
def Bytes.less : Bytes → Bytes → Bool
  | _, [] => false
  | [], _ :: _ => true
  | a :: as, b :: bs => a < b || (a = b && Bytes.less as bs)

end UnitCache.Lua
