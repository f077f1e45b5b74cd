import UnitCache.Binary64.Basic

namespace UnitCache.Binary64

/-- An operation on the values of two doubles. -/
def lift (f : Float → Float → Float) (x y : Binary64) : Binary64 :=
  if x.isNaN then x else if y.isNaN then y else ofFloat (f x.toFloat y.toFloat)

def add : Binary64 → Binary64 → Binary64 := lift (· + ·)

def sub : Binary64 → Binary64 → Binary64 := lift (· - ·)

def mul : Binary64 → Binary64 → Binary64 := lift (· * ·)

def div : Binary64 → Binary64 → Binary64 := lift (· / ·)

def one : Binary64 := .ofNat 1

/-- A power. One to any power is one, and so is anything to the power zero. -/
def pow (x y : Binary64) : Binary64 :=
  if x = one || y.bits <<< 1 = 0 then one
  else if y = .ofNat 2 then x.mul x
  else lift Float.pow x y

def map (f : Float → Float) (x : Binary64) : Binary64 := if x.isNaN then x else ofFloat (f x.toFloat)

def floor : Binary64 → Binary64 := map Float.floor

def ceil : Binary64 → Binary64 := map Float.ceil

def isZero (x : Binary64) : Bool := x.bits <<< 1 = 0

/-- Whether `x < y`, never so if one is not a number. -/
def lt (x y : Binary64) : Bool := x.toFloat < y.toFloat

def le (x y : Binary64) : Bool := x.toFloat ≤ y.toFloat

/-- Equality of values: the zeros are equal, and what is not a number equals nothing. -/
def same (x y : Binary64) : Bool := x.toFloat == y.toFloat

/-- The remainder of a division toward zero, with the sign of the dividend. -/
def fmod (x y : Binary64) : Binary64 :=
  if x.isNaN then x else if y.isNaN then y
  else
    match x.parts, y.parts with
    | .finite s m e, .finite _ n f =>
      if n = 0 then invalid
      else
        let g := min e f
        let a := m * Nat.pow 2 (e - g).toNat
        let b := n * Nat.pow 2 (f - g).toNat
        let (num, den) := ratio (a % b) g
        ofRatio s num den
    | .finite .., _ => x
    | _, _ => invalid

/-- The remainder of a floor division, with the sign of the divisor. -/
def floorMod (x y : Binary64) : Binary64 :=
  let r := fmod x y
  if r.isNaN || r.isZero || r.negative = y.negative then r else r.add y

def floorDiv (x y : Binary64) : Binary64 := floor (x.div y)

/-- The order of a double and an integer, none if it is not a number. -/
def compareInt (x : Binary64) (i : Int) : Option Ordering :=
  match x.parts with
  | .nan _ => none
  | .infinite s => some (if s then .lt else .gt)
  | .finite s m e =>
    let (num, den) := ratio m e
    let v : Int := if s then -(num : Int) else num
    some (compare v (i * den))

/-- The integer of 64 bits that a double is, if it is one. -/
def toInt64? (x : Binary64) : Option Int64 := do
  let i ← x.toInt?
  if -Nat.pow 2 63 ≤ i && i < Nat.pow 2 63 then some (Int64.ofInt i) else none

end UnitCache.Binary64
