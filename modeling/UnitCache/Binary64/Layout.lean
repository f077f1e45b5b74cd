import UnitCache.Binary64.Decimal

namespace UnitCache.Binary64

/-- Digits with the point put after the digit of exponent zero; a fraction only if there is one. -/
def positional (digits : List Char) (exponent : Int) : List Char × List Char :=
  if exponent < 0 then (['0'], List.replicate ((-exponent).toNat - 1) '0' ++ digits)
  else
    let n := exponent.toNat + 1
    (digits.take n ++ List.replicate (n - digits.length) '0', digits.drop n)

def signed (negative : Bool) (cs : List Char) : String :=
  String.ofList (if negative then '-' :: cs else cs)

/-- The fewest digits, never with an exponent, and a point only before a fraction. -/
def plain (x : Binary64) : String :=
  match x.parts with
  | .nan _ => "NaN"
  | .infinite s => signed s "inf".toList
  | .finite s m e =>
    if m = 0 then signed s ['0']
    else
      let d := shortest m e
      let (whole, frac) := positional d.chars d.exponent
      signed s (if frac.isEmpty then whole else whole ++ '.' :: frac)

/-- `d.ddd` of the digits alone, without a point after a single one. -/
def mantissaChars : List Char → List Char
  | [] => []
  | [d] => [d]
  | d :: ds => d :: '.' :: ds

/-- A number of a JSON text: positional with at least one place from `1e-5` up to `1e16`, with an
exponent that always has a sign outside of it. Only finite numbers have one. -/
def json? (x : Binary64) : Option String :=
  match x.parts with
  | .finite s m e =>
    if m = 0 then some (signed s "0.0".toList)
    else
      let d := shortest m e
      if -5 ≤ d.exponent ∧ d.exponent ≤ 15 then
        let (whole, frac) := positional d.chars d.exponent
        some (signed s (whole ++ '.' :: (if frac.isEmpty then ['0'] else frac)))
      else
        let sign := if d.exponent < 0 then '-' else '+'
        some (signed s (mantissaChars d.chars ++ 'e' :: sign :: Nat.toDigits 10 d.exponent.natAbs))
  | _ => none

def dropTrailingZeros (cs : List Char) : List Char := (cs.reverse.dropWhile (· = '0')).reverse

/-- An exponent with its sign and at least two digits. -/
def exponentChars (e : Int) : List Char :=
  'e' :: (if e < 0 then '-' else '+') :: padDigits 2 e.natAbs

/-- Rounded to `count` significant digits: positional unless the exponent is below -4 or has no
digit left for the units. Trailing zeros go unless `keepZeros`. -/
def generalChars (num den count : Nat) (keepZeros : Bool) : List Char :=
  let trim (cs : List Char) := if keepZeros then cs else dropTrailingZeros cs
  if num = 0 then
    let zeros := trim (List.replicate (count - 1) '0')
    '0' :: (if zeros.isEmpty then [] else '.' :: zeros)
  else
    let s := significant num den count
    if s.exponent < -4 ∨ (count : Int) ≤ s.exponent then
      let ds := s.chars
      mantissaChars (ds.take 1 ++ trim (ds.drop 1)) ++ exponentChars s.exponent
    else
      let (whole, frac) := positional s.chars s.exponent
      let frac := trim frac
      if frac.isEmpty then whole else whole ++ '.' :: frac

/-- `count` significant digits without trailing zeros, the sign of every value shown. -/
def general (count : Nat) (x : Binary64) : String :=
  match x.parts with
  | .nan s => signed s "nan".toList
  | .infinite s => signed s "inf".toList
  | .finite s m e =>
    let (num, den) := ratio m e
    signed s (generalChars num den count false)

end UnitCache.Binary64
