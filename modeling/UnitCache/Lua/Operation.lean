import UnitCache.Lua.Arithmetic
import UnitCache.Lua.Routine

namespace UnitCache.Lua

/-- A name in brackets, as it follows a value in a message. -/
def CallName.remark : Option CallName → Bytes
  | some n => Utf8.encode (" (" ++ n.kind ++ " '") ++ n.name ++ Utf8.encode "')"
  | none => []

/-- The call of a metamethod. -/
def metamethod (event : String) : Option CallName := some ⟨"metamethod", Utf8.encode event⟩

namespace Operation

open Routine

variable {α : Type}

/-- A value of a type for which there is no such operation. -/
def typeFault (what : String) (v : Value) (name : Option CallName) : Routine α := do
  let t ← askBytes (·.typeName v)
  .fault (Utf8.encode ("attempt to " ++ what ++ " a ") ++ t ++ Utf8.encode " value" ++
    CallName.remark name)

/-- How far metatables are followed from one to the next. -/
def maxChain : Nat := 2000

def indexChain (v key : Value) (name : Option CallName) : Nat → Routine Value
  | 0 => failWith "'__index' chain too long; possibly a loop"
  | steps + 1 => do
    let found ←
      match v with
      | .table a => ask fun w => (w.table a).get key
      | _ => pure .nil
    if found ≠ .nil then return found
    let handler ← metafield v "__index"
    match handler, v with
    | .nil, .table _ => return .nil
    | .nil, _ => typeFault "index" v name
    | .function _, _ => callFirst handler [v, key] (metamethod "index")
    | _, _ => indexChain handler key none steps

/-- The value under a key. -/
def index (v key : Value) (name : Option CallName) : Routine Value := indexChain v key name maxChain

/-- Puts a value into a table without metamethods. -/
def rawSet (a : Nat) (key v : Value) : Routine Unit :=
  if key = .nil then failWith "table index is nil"
  else if key.isNaN then failWith "table index is NaN"
  else change (·.alterTable a (·.set key v))

def setChain (t key v : Value) (name : Option CallName) : Nat → Routine Unit
  | 0 => failWith "'__newindex' chain too long; possibly a loop"
  | steps + 1 => do
    let present ←
      match t with
      | .table a => ask fun w => (w.table a).get key
      | _ => pure .nil
    let handler ← if present = .nil then metafield t "__newindex" else pure .nil
    match handler, t with
    | .nil, .table a => rawSet a key v
    | .nil, _ => typeFault "index" t name
    | .function _, _ =>
      let _ ← callFirst handler [t, key, v] (metamethod "newindex")
      return
    | _, _ => setChain handler key v none steps

/-- Puts a value under a key. -/
def setIndex (t key v : Value) (name : Option CallName) : Routine Unit :=
  setChain t key v name maxChain

/-- The metamethod of one of two operands, the first one if both have it. -/
def binaryHandler (a b : Value) (event : String) : Routine Value :=
  ask fun w =>
    match w.metafield a ("__" ++ event) with
    | .nil => w.metafield b ("__" ++ event)
    | h => h

def isNumber : Value → Bool
  | .number _ => true
  | _ => false

/-- The integer of a number; texts do not count. -/
def toInt? : Value → Option Int64
  | .number n => n.toInt?
  | _ => none

/-- The operand that is at fault: the first one that is no number. -/
def culprit (a b : Value) (na nb : Option CallName) : Value × Option CallName :=
  if isNumber a then (b, nb) else (a, na)

def intFault (name : Option CallName) : Routine α :=
  .fault (Utf8.encode "number" ++ CallName.remark name ++
    Utf8.encode " has no integer representation")

/-- An operation on operands that are not both numbers, or not both integers. -/
def withHandler (op : BinaryOp) (a b : Value) (na nb : Option CallName) : Routine Value := do
  match ← binaryHandler a b op.event with
  | .nil =>
    let (v, n) := culprit a b na nb
    if op.isBitwise then
      if isNumber a && isNumber b then intFault (if (toInt? a).isNone then na else nb)
      else typeFault "perform bitwise operation on" v n
    else typeFault "perform arithmetic on" v n
  | h => callFirst h [a, b] (metamethod op.event)

def arithmetic (op : BinaryOp) (a b : Value) (na nb : Option CallName) : Routine Value :=
  if op.isBitwise then
    match toInt? a, toInt? b with
    | some i, some j => return .number (.int (Number.bitwise op i j))
    | _, _ => withHandler op a b na nb
  else
    match a, b with
    | .number m, .number n =>
      match Number.arithmetic op m n with
      | .ok r => return .number r
      | .error message => failWith message
    | _, _ => withHandler op a b na nb

def concat (a b : Value) (na nb : Option CallName) : Routine Value :=
  match a.toText?, b.toText? with
  | some s, some t => return .string (s ++ t)
  | some _, none => handled b nb
  | none, _ => handled a na
where
  handled (v : Value) (n : Option CallName) : Routine Value := do
    match ← binaryHandler a b "concat" with
    | .nil => typeFault "concatenate" v n
    | h => callFirst h [a, b] (metamethod "concat")

def equal (a b : Value) : Routine Bool := do
  if a.same b then return true
  match a, b with
  | .table _, .table _ | .file _, .file _ =>
    match ← binaryHandler a b "eq" with
    | .nil => return false
    | h => return (← callFirst h [a, b] (metamethod "eq")).isTrue
  | _, _ => return false

/-- Two values that have no order. -/
def orderFault (a b : Value) : Routine α := do
  let s ← askBytes (·.typeName a)
  let t ← askBytes (·.typeName b)
  if s = t then .fault (Utf8.encode "attempt to compare two " ++ s ++ Utf8.encode " values")
  else .fault (Utf8.encode "attempt to compare " ++ s ++ Utf8.encode " with " ++ t)

def less (a b : Value) : Routine Bool := do
  match a, b with
  | .number m, .number n => return m.lt n
  | .string s, .string t => return Bytes.less s t
  | _, _ =>
    match ← binaryHandler a b "lt" with
    | .nil => orderFault a b
    | h => return (← callFirst h [a, b] (metamethod "lt")).isTrue

/-- Where there is no metamethod for it, `a` is at most `b` if `b` is not less than `a`. -/
def lessEqual (a b : Value) : Routine Bool := do
  match a, b with
  | .number m, .number n => return m.le n
  | .string s, .string t => return !Bytes.less t s
  | _, _ =>
    match ← binaryHandler a b "le" with
    | .nil =>
      match ← binaryHandler b a "lt" with
      | .nil => orderFault a b
      | h => return !(← callFirst h [b, a] (metamethod "lt")).isTrue
    | h => return (← callFirst h [a, b] (metamethod "le")).isTrue

def length (v : Value) (name : Option CallName) : Routine Value := do
  match v with
  | .string s => return .nat s.length
  | _ =>
    match ← metafield v "__len", v with
    | .nil, .table a => ask fun w => .nat (w.table a).length
    | .nil, _ => typeFault "get length of" v name
    | h, _ => callFirst h [v, v] (metamethod "len")

def unary (op : UnaryOp) (v : Value) (name : Option CallName) : Routine Value := do
  match op with
  | .not => return .bool (!v.isTrue)
  | .len => length v name
  | .neg =>
    match v with
    | .number n => return .number n.neg
    | _ =>
      match ← metafield v "__unm" with
      | .nil => typeFault "perform arithmetic on" v name
      | h => callFirst h [v, v] (metamethod "unm")
  | .bnot =>
    match toInt? v with
    | some i => return .number (.int (~~~i))
    | none =>
      match ← metafield v "__bnot" with
      | .nil =>
        if isNumber v then intFault name else typeFault "perform bitwise operation on" v name
      | h => callFirst h [v, v] (metamethod "bnot")

def binary (op : BinaryOp) (a b : Value) (na nb : Option CallName) : Routine Value := do
  match op with
  | .concat => concat a b na nb
  | .eq => return .bool (← equal a b)
  | .ne => return .bool (!(← equal a b))
  | .lt => return .bool (← less a b)
  | .le => return .bool (← lessEqual a b)
  | .gt => return .bool (← less b a)
  | .ge => return .bool (← lessEqual b a)
  | _ => arithmetic op a b na nb

/-- An address as it is shown for things without a text of their own. -/
def addressText (kind address : Nat) : String :=
  let n := 0x560000000000 + kind * 0x10000000 + address * 64
  "0x" ++ String.ofList (Nat.toDigits 16 n)

/-- The text of a value without metamethods. -/
def plainText (v : Value) (typeName : Bytes) : Bytes :=
  let addressed (kind address : Nat) : Bytes :=
    typeName ++ Utf8.encode (": " ++ addressText kind address)
  match v with
  | .nil => Utf8.encode "nil"
  | .bool b => Utf8.encode (if b then "true" else "false")
  | .number n => Utf8.encode n.text
  | .string s => s
  | .table a => addressed 1 a
  | .function a => addressed 2 a
  | .thread a => addressed 3 a
  | .file a => addressed 4 a

/-- The text of any value. -/
def text (v : Value) : Routine Bytes := do
  match ← metafield v "__tostring" with
  | .nil => return plainText v (← askBytes (·.typeName v))
  | h =>
    match ← callFirst h [v] none with
    | .string s => return s
    | .number n => return Utf8.encode n.text
    | _ => fail "'__tostring' must return a string"

end Operation
end UnitCache.Lua
