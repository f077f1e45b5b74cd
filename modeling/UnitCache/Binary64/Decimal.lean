import UnitCache.Binary64.Basic

namespace UnitCache.Binary64

/-- A positive decimal in scientific form: `d.ddd · 10 ^ exponent`, the digits as one number. -/
structure Scientific where
  digits : Nat
  /-- How many digits there are. -/
  count : Nat
  exponent : Int
  deriving DecidableEq, Repr

/-- `num / den · 10 ^ k` as a quotient. -/
def scaleTen (num den : Nat) (k : Int) : Nat × Nat :=
  if k < 0 then (num, den * Nat.pow 10 (-k).toNat) else (num * Nat.pow 10 k.toNat, den)

/-- Whether `10 ^ k ≤ num / den`. -/
def reaches (num den : Nat) (k : Int) : Bool :=
  let (n, d) := scaleTen num den (-k)
  d ≤ n

/-- The greatest exponent at or above `k`, at most `steps` away, that `num / den` reaches. -/
def climb (num den : Nat) (k : Int) : Nat → Int
  | 0 => k
  | steps + 1 => if reaches num den (k + 1) then climb num den (k + 1) steps else k

/-- The exponent of the first decimal digit of a positive quotient. -/
def leading (num den : Nat) : Int :=
  climb num den (((num.log2 : Int) - den.log2 - 2) * 30103 / 100000 - 1) 8

/-- `num / den` to so many significant digits, a half to the even neighbour. -/
def significant (num den count : Nat) : Scientific :=
  let k := leading num den
  let (n, d) := scaleTen num den (count - 1 - k)
  let q := roundHalfEven n d
  if q = Nat.pow 10 count then ⟨Nat.pow 10 (count - 1), count, k + 1⟩ else ⟨q, count, k⟩

/-- The decimal digits of a number, with zeros in front up to the given width. -/
def padDigits (width n : Nat) : List Char :=
  let ds := Nat.toDigits 10 n
  List.replicate (width - ds.length) '0' ++ ds

def Scientific.chars (s : Scientific) : List Char := padDigits s.count s.digits

/-- `num / den` with so many places after the point, a half to the even neighbour. -/
def fixedChars (num den places : Nat) : List Char :=
  let q := roundHalfEven (num * Nat.pow 10 places) den
  let ds := padDigits (places + 1) q
  let (whole, frac) := ds.splitAt (ds.length - places)
  if places = 0 then whole else whole ++ '.' :: frac

/-- The reals that round to a double lie between the halfway points to its neighbours, which count
when the mantissa is even. All three are given in units of a quarter of the last bit. -/
structure Interval where
  low : Nat
  high : Nat
  closed : Bool

def interval (mantissa : Nat) (exponent : Int) : Interval :=
  let low := if mantissa = Nat.pow 2 52 ∧ -1074 < exponent then 4 * mantissa - 1 else 4 * mantissa - 2
  ⟨low, 4 * mantissa + 2, mantissa % 2 = 0⟩

/-- Whether the quotient `num / den` lies in the interval of a double with this exponent. -/
def Interval.holds (i : Interval) (exponent : Int) (num den : Nat) : Bool :=
  let (n, d) := scaleDown (4 * num) den exponent
  if i.closed then d * i.low ≤ n && n ≤ d * i.high else d * i.low < n && n < d * i.high

/-- The nearer of the two neighbours with so many digits that reads back as the double. -/
def candidate (mantissa : Nat) (exponent : Int) (num den : Nat) (k : Int) (count : Nat) :
    Option Scientific :=
  let shift : Int := count - 1 - k
  let (n, d) := scaleTen num den shift
  let q := n / d
  let i := interval mantissa exponent
  let fits (c : Nat) : Bool :=
    let (a, b) := scaleTen c 1 (-shift)
    i.holds exponent a b
  let pick (c : Nat) : Scientific :=
    if c = Nat.pow 10 count then ⟨Nat.pow 10 (count - 1), count, k + 1⟩ else ⟨c, count, k⟩
  let r := n - q * d
  match fits q, fits (q + 1) with
  | true, true => some (pick (if 2 * r < d ∨ (2 * r = d ∧ q % 2 = 0) then q else q + 1))
  | true, false => some (pick q)
  | false, true => some (pick (q + 1))
  | false, false => none

/-- Tries ever more digits, beginning with `count`. -/
def shortestFrom (mantissa : Nat) (exponent : Int) (num den : Nat) (k : Int) (count : Nat) :
    Nat → Scientific
  | 0 => significant num den 17
  | tries + 1 =>
    match candidate mantissa exponent num den k count with
    | some s => s
    | none => shortestFrom mantissa exponent num den k (count + 1) tries

/-- The fewest digits that read back as the double, and of those the nearest to it. -/
def shortest (mantissa : Nat) (exponent : Int) : Scientific :=
  let (num, den) := ratio mantissa exponent
  shortestFrom mantissa exponent num den (leading num den) 1 17

end UnitCache.Binary64
