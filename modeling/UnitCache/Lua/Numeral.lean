import UnitCache.Binary64.Layout
import UnitCache.Lua.Lexeme

namespace UnitCache.Lua

inductive Number where
  | int (i : Int64)
  | float (x : Binary64)
  deriving DecidableEq, Repr

def isHexDigit (b : UInt8) : Bool :=
  isDigit b || (byte 'a' ≤ b && b ≤ byte 'f') || (byte 'A' ≤ b && b ≤ byte 'F')

def hexValue (b : UInt8) : Nat :=
  if isDigit b then b.toNat - 48 else if b.toNat < 97 then b.toNat - 55 else b.toNat - 87

def isSpace (b : UInt8) : Bool := b = 32 || (9 ≤ b && b ≤ 13)

namespace Number

def digitsValue (base : Nat) (ds : Bytes) : Nat := ds.foldl (fun n b => base * n + hexValue b) 0

/-- A sign in front, if there is one. -/
def splitSign : Bytes → Bool × Bytes
  | b :: bs => if b = byte '-' then (true, bs) else if b = byte '+' then (false, bs) else (false, b :: bs)
  | [] => (false, [])

/-- The digits after `0x`. -/
def hexDigits? : Bytes → Option Bytes
  | z :: x :: ds => if z = byte '0' && (x = byte 'x' || x = byte 'X') then some ds else none
  | _ => none

def int? (bs : Bytes) : Option Int64 :=
  let (neg, ds) := splitSign bs
  let make (n : Int) : Int64 := Int64.ofInt (if neg then -n else n)
  match hexDigits? ds with
  | some hs => if hs ≠ [] && hs.all isHexDigit then some (make (digitsValue 16 hs)) else none
  | none =>
    if ds ≠ [] && ds.all isDigit then
      let n := digitsValue 10 ds
      if n < Nat.pow 2 63 + neg.toNat then some (make n) else none
    else none

/-- An exponent after its mark: nothing at all, or a number with or without a sign. -/
def exponent? (lower upper : Char) : Bytes → Option Int
  | [] => some 0
  | m :: bs =>
    if m = byte lower || m = byte upper then
      let (neg, ds) := splitSign bs
      if ds ≠ [] && ds.all isDigit then
        let n : Int := min (digitsValue 10 ds) 1000000
        some (if neg then -n else n)
      else none
    else none

/-- The digits before and after a point, and what follows them. -/
def splitPoint (digit : UInt8 → Bool) (bs : Bytes) : Bytes × Bytes × Bytes :=
  let whole := bs.takeWhile digit
  match bs.dropWhile digit with
  | b :: rest =>
    if b = byte '.' then (whole, rest.takeWhile digit, rest.dropWhile digit)
    else (whole, [], b :: rest)
  | [] => (whole, [], [])

/-- `digits · 2 ^ e`, far outside the range of doubles like at its edge. -/
def scaledByTwo (neg : Bool) (digits : Nat) (e : Int) : Binary64 :=
  if digits = 0 then Binary64.zero.withSign neg
  else if e + digits.log2 < -1200 then Binary64.zero.withSign neg
  else if 1200 < e + digits.log2 then .infinity neg
  else if e < 0 then .ofRatio neg digits (Nat.pow 2 (-e).toNat)
  else .ofRatio neg (digits * Nat.pow 2 e.toNat) 1

def float? (bs : Bytes) : Option Binary64 :=
  let (neg, ds) := splitSign bs
  match hexDigits? ds with
  | some hs => do
    let (whole, frac, rest) := splitPoint isHexDigit hs
    if whole ++ frac = [] then none
    let e ← exponent? 'p' 'P' rest
    return scaledByTwo neg (digitsValue 16 (whole ++ frac)) (e - 4 * frac.length)
  | none => do
    let (whole, frac, rest) := splitPoint isDigit ds
    if whole ++ frac = [] then none
    let e ← exponent? 'e' 'E' rest
    return .ofDecimal neg (digitsValue 10 (whole ++ frac)) (e - frac.length)

def trimSpace (bs : Bytes) : Bytes :=
  ((bs.dropWhile isSpace).reverse.dropWhile isSpace).reverse

/-- The number that a text is, with space around it or not. -/
def ofText? (bs : Bytes) : Option Number :=
  let bs := trimSpace bs
  match int? bs with
  | some i => some (.int i)
  | none => (float? bs).map .float

def asciiBytes (s : String) : Bytes := Utf8.encode s

/-- The text of a float: fourteen digits, and `.0` if it would look like an integer. -/
def floatText (x : Binary64) : String :=
  let s := x.general 14
  if s.toList.all (fun c => c.isDigit || c = '-') then s ++ ".0" else s

def text : Number → String
  | .int i => toString i.toInt
  | .float x => floatText x

end Number
end UnitCache.Lua
