import UnitCache.Lua.Library.Arguments

namespace UnitCache.Lua.Maths

open Routine

def ofFloat (x : Binary64) : List Value := [.float x]

/-- A float as an integer if it is one that fits. -/
def ofWhole (x : Binary64) : List Value :=
  match x.toInt64? with
  | some i => [.number (.int i)]
  | none => [.float x]

/-- A function of one float. -/
def real (f : Binary64 → Binary64) : Native := fun a => do
  return ofFloat (f (← a.number 1).toFloat)

def abs (a : Arguments) : Routine (List Value) := do
  match a.get 1 with
  | .number (.int i) => return [.number (.int (if i < 0 then -i else i))]
  | _ => return ofFloat ((← a.number 1).toFloat.withSign false)

def rounded (f : Binary64 → Binary64) : Native := fun a => do
  match ← a.number 1 with
  | .int i => return [.number (.int i)]
  | .float x => return ofWhole (f x)

def atan (a : Arguments) : Routine (List Value) := do
  let y := (← a.number 1).toFloat
  let x ← if a.get 2 = .nil then pure Binary64.one else do pure (← a.number 2).toFloat
  return ofFloat (Binary64.lift Float.atan2 y x)

def log (a : Arguments) : Routine (List Value) := do
  let x := (← a.number 1).toFloat
  if a.get 2 = .nil then return ofFloat (x.map Float.log)
  let base := (← a.number 2).toFloat
  if base = .ofNat 2 then return ofFloat (x.map Float.log2)
  else if base = .ofNat 10 then return ofFloat (x.map Float.log10)
  else return ofFloat ((x.map Float.log).div (base.map Float.log))

def pow (a : Arguments) : Routine (List Value) := do
  let x := (← a.number 1).toFloat
  let y := (← a.number 2).toFloat
  return ofFloat (x.pow y)

def fmod (a : Arguments) : Routine (List Value) := do
  match a.get 1, a.get 2 with
  | .number (.int i), .number (.int j) =>
    a.check (j ≠ 0) 2 "zero"
    return [.int (Int.tmod i.toInt j.toInt)]
  | _, _ =>
    let x := (← a.number 1).toFloat
    let y := (← a.number 2).toFloat
    return ofFloat (x.fmod y)

def modf (a : Arguments) : Routine (List Value) := do
  match ← a.number 1 with
  | .int i =>
    match a.get 1 with
    | .number _ => return [.number (.int i), .float .zero]
    | _ => return [.float (.ofInt i.toInt), .float .zero]
  | .float x =>
    let whole := if x.negative then x.ceil else x.floor
    let frac := if whole.same x then .zero else x.sub whole
    return [.float whole, .float frac]

def toInteger (a : Arguments) : Routine (List Value) := do
  match (← a.some 1).toInt? with
  | some i => return [.number (.int i)]
  | none => return [.nil]

def typeOf (a : Arguments) : Routine (List Value) := do
  match ← a.some 1 with
  | .number (.int _) => return [.text "integer"]
  | .number (.float _) => return [.text "float"]
  | _ => return [.nil]

def lessUnsigned (a : Arguments) : Routine (List Value) := do
  let i ← a.int 1
  let j ← a.int 2
  return [.bool (i % Nat.pow 2 64 < j % Nat.pow 2 64)]

/-- The best of all arguments. -/
def choose (better : Number → Number → Bool) : Native := fun a => do
  let mut best ← a.number 1
  for i in List.range (a.count - 1) do
    let n ← a.number (i + 2)
    if better n best then best := n
  return [.number best]

def frexp (a : Arguments) : Routine (List Value) := do
  let x := (← a.number 1).toFloat
  match x.parts with
  | .finite s m e =>
    if m = 0 then return [.float x, .int 0]
    let bits := m.log2 + 1
    return [.float (.ofRatio s m (Nat.pow 2 bits)), .int (e + bits)]
  | _ => return [.float x, .int 0]

def ldexp (a : Arguments) : Routine (List Value) := do
  let x := (← a.number 1).toFloat
  let n ← a.int 2
  match x.parts with
  | .finite s m e =>
    let n := max (-5000) (min n 5000)
    let (num, den) := Binary64.ratio m (e + n)
    return ofFloat (.ofRatio s num den)
  | _ => return ofFloat x

def nextRandom : Routine UInt64 := do
  match ← ask fun w => .int w.random.next.1.toNat with
  | .number (.int i) =>
    change fun w => { w with random := w.random.next.2 }
    return i.toUInt64
  | _ => return 0

/-- A number up to a bound. -/
def projected (w bound : UInt64) : Routine UInt64 := do
  let answer ← ask fun world => .int ((Random.project w bound world.random 100000).1.toNat)
  change fun world => { world with random := (Random.project w bound world.random 100000).2 }
  match answer with
  | .number (.int i) => return i.toUInt64
  | _ => return 0

def random (a : Arguments) : Routine (List Value) := do
  let w ← nextRandom
  let between (low high : Int) : Routine (List Value) := do
    let n ← projected w (UInt64.ofNat ((high - low) % Nat.pow 2 64).toNat)
    return [.int (low + n.toNat)]
  match a.count with
  | 0 => return ofFloat (Random.unit w)
  | 1 =>
    let high ← a.int 1
    if high = 0 then return [.number (.int w.toInt64)]
    a.check (1 ≤ high) 1 "interval is empty"
    between 1 high
  | 2 =>
    let low ← a.int 1
    let high ← a.int 2
    a.check (low ≤ high) 2 "interval is empty"
    between low high
  | _ => fail "wrong number of arguments"

def randomSeed (a : Arguments) : Routine (List Value) := do
  let n1 ←
    if a.count = 0 then pure 0
    else
      match ← a.number 1 with
      | .int i => pure i
      | .float x => pure (x.toInt64?.getD x.bits.toInt64)
  let n2 := Int64.ofInt (← a.intOr 2 0)
  change fun w => { w with random := .seeded n1.toUInt64 n2.toUInt64 }
  return [.number (.int n1), .number (.int n2)]

def pi : Binary64 := ⟨0x400921FB54442D18⟩

def functions : List (String × Native) :=
  [("abs", abs), ("acos", real (·.map Float.acos)), ("asin", real (·.map Float.asin)), ("atan", atan),
    ("atan2", atan), ("ceil", rounded Binary64.ceil), ("cos", real (·.map Float.cos)),
    ("cosh", real (·.map Float.cosh)), ("deg", real (·.mul ((Binary64.ofNat 180).div pi))),
    ("exp", real (·.map Float.exp)), ("floor", rounded Binary64.floor), ("fmod", fmod),
    ("frexp", frexp), ("ldexp", ldexp), ("log", log), ("log10", real (·.map Float.log10)),
    ("max", choose fun n best => best.lt n), ("min", choose Number.lt), ("modf", modf), ("pow", pow),
    ("rad", real (·.mul (pi.div (.ofNat 180)))), ("random", random), ("randomseed", randomSeed),
    ("sin", real (·.map Float.sin)), ("sinh", real (·.map Float.sinh)),
    ("sqrt", real (·.map Float.sqrt)), ("tan", real (·.map Float.tan)),
    ("tanh", real (·.map Float.tanh)), ("tointeger", toInteger), ("type", typeOf),
    ("ult", lessUnsigned)]

def constants : List (String × Value) :=
  [("huge", .float (.infinity false)), ("maxinteger", .int 0x7FFFFFFFFFFFFFFF),
    ("mininteger", .int (-0x8000000000000000)), ("pi", .float pi)]

end UnitCache.Lua.Maths
