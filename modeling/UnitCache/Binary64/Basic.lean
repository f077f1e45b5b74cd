namespace UnitCache

structure Binary64 where
  bits : UInt64
  deriving DecidableEq, Repr, Inhabited

namespace Binary64

/-- What a word stands for; a finite one is `mantissa · 2 ^ exponent` with its sign. -/
inductive Parts where
  | nan (negative : Bool)
  | infinite (negative : Bool)
  | finite (negative : Bool) (mantissa : Nat) (exponent : Int)
  deriving DecidableEq, Repr

def negative (x : Binary64) : Bool := x.bits >>> 63 = 1

def parts (x : Binary64) : Parts :=
  let e : Nat := (x.bits.toNat / Nat.pow 2 52) % Nat.pow 2 11
  let m : Nat := x.bits.toNat % Nat.pow 2 52
  if e = 2047 then (if m = 0 then .infinite x.negative else .nan x.negative)
  else if e = 0 then .finite x.negative m (-1074)
  else .finite x.negative (m + Nat.pow 2 52) ((e : Int) - 1075)

def isNaN (x : Binary64) : Bool := x.bits &&& 0x7FFFFFFFFFFFFFFF > 0x7FF0000000000000

def zero : Binary64 := ⟨0⟩

def infinity (negative : Bool) : Binary64 := ⟨if negative then 0xFFF0000000000000 else 0x7FF0000000000000⟩

/-- The word that an invalid operation gives: its sign bit is set. -/
def invalid : Binary64 := ⟨0xFFF8000000000000⟩

/-- The same word with the sign bit given. -/
def withSign (negative : Bool) (x : Binary64) : Binary64 :=
  ⟨(x.bits &&& 0x7FFFFFFFFFFFFFFF) ||| (if negative then 0x8000000000000000 else 0)⟩

def neg (x : Binary64) : Binary64 := x.withSign (!x.negative)

def ofFloat (x : Float) : Binary64 := if x.isNaN then invalid else ⟨x.toBits⟩

def toFloat (x : Binary64) : Float := Float.ofBits x.bits

/-- `num / den` rounded to a natural number, a half to the even neighbour. -/
def roundHalfEven (num den : Nat) : Nat :=
  let q := num / den
  let r := num % den
  if 2 * r < den then q else if den < 2 * r then q + 1 else q + q % 2

/-- `num / den · 2 ^ (-e)` as a quotient. -/
def scaleDown (num den : Nat) (e : Int) : Nat × Nat :=
  if e < 0 then (num * Nat.pow 2 (-e).toNat, den) else (num, den * Nat.pow 2 e.toNat)

/-- The exponent of the last bit that `num / den` keeps. -/
def lastExponent (num den : Nat) : Int :=
  let e : Int := num.log2 - den.log2 - 52
  let (n, d) := scaleDown num den e
  max (if n < d * Nat.pow 2 52 then e - 1 else e) (-1074)

/-- The double nearest to `num / den`, a half to the even neighbour. -/
def ofRatio (negative : Bool) (num den : Nat) : Binary64 :=
  withSign negative <|
    if num = 0 then zero
    else
      let e := lastExponent num den
      let (n, d) := scaleDown num den e
      let q := roundHalfEven n d
      let (q, e) := if q = Nat.pow 2 53 then (Nat.pow 2 52, e + 1) else (q, e)
      if 971 < e then infinity false
      else if q < Nat.pow 2 52 then ⟨UInt64.ofNat q⟩
      else ⟨UInt64.ofNat ((e + 1075).toNat * Nat.pow 2 52 + (q - Nat.pow 2 52))⟩

def ofNat (n : Nat) : Binary64 := ofRatio false n 1

def ofInt (n : Int) : Binary64 := ofRatio (n < 0) n.natAbs 1

/-- The value of a decimal `digits · 10 ^ exponent`. An exponent far outside the range of doubles
gives the same answer as one at its edge. -/
def ofDecimal (negative : Bool) (digits : Nat) (exponent : Int) : Binary64 :=
  if digits = 0 then withSign negative zero
  else if 400 < exponent then infinity negative
  else if 0 ≤ exponent then ofRatio negative (digits * Nat.pow 10 exponent.toNat) 1
  else if exponent < -(400 + (Nat.log2 digits : Int)) then withSign negative zero
  else ofRatio negative digits (Nat.pow 10 (-exponent).toNat)

/-- A finite value as a quotient of naturals. -/
def ratio (mantissa : Nat) (exponent : Int) : Nat × Nat :=
  if exponent < 0 then (mantissa, Nat.pow 2 (-exponent).toNat) else (mantissa * Nat.pow 2 exponent.toNat, 1)

/-- The integer that a finite double is, if it is one. -/
def toInt? (x : Binary64) : Option Int :=
  match x.parts with
  | .finite s m e =>
    let (n, d) := ratio m e
    if n % d = 0 then some (if s then -(n / d : Int) else (n / d : Int)) else none
  | _ => none

end Binary64
end UnitCache
