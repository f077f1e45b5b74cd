import UnitCache.Binary64.Layout
import UnitCache.Lua.Numeral

namespace UnitCache.Lua

structure Directive where
  /-- Everything after the percent sign. -/
  source : Bytes
  flags : Bytes
  width : Nat
  precision : Option Nat
  conversion : UInt8
  deriving Repr

namespace Directive

def flagBytes : Bytes := Number.asciiBytes "-+ #0"

def has (d : Directive) (flag : Char) : Bool := d.flags.contains (byte flag)

/-- At most two digits, and what follows them. -/
def twoDigits (bs : Bytes) : Bytes × Bytes :=
  let ds := (bs.take 2).takeWhile isDigit
  (ds, bs.drop ds.length)

/-- The bytes of a directive after its percent sign. -/
def sourceOf (bs : Bytes) : Bytes :=
  let inner := bs.takeWhile fun b => flagBytes.contains b || isDigit b || b = byte '.'
  bs.take (inner.length + 1)

/-- Reads a directive that may have only some flags, and a precision or none. -/
def read? (source allowed : Bytes) (withPrecision : Bool) : Option Directive :=
  let flags := source.takeWhile allowed.contains
  let (width, rest) := twoDigits (source.drop flags.length)
  let (precision, rest) :=
    match rest with
    | p :: more =>
      if p = byte '.' && withPrecision then
        let (ds, rest) := twoDigits more
        (some (Number.digitsValue 10 ds), rest)
      else (none, rest)
    | [] => (none, [])
  match rest with
  | [c] =>
    if isLetter c then some ⟨source, flags, Number.digitsValue 10 width, precision, c⟩ else none
  | _ => none

def spaces (n : Nat) : Bytes := List.replicate n 32

def zeros (n : Nat) : Bytes := List.replicate n (byte '0')

/-- A text at the width of the directive. -/
def pad (d : Directive) (bs : Bytes) : Bytes :=
  let gap := d.width - bs.length
  if d.has '-' then bs ++ spaces gap else spaces gap ++ bs

/-- A number from its sign, what stands before its digits, and the digits, at the width. -/
def padNumber (d : Directive) (sign mark digits : Bytes) (zeroFill : Bool) : Bytes :=
  let gap := d.width - (sign.length + mark.length + digits.length)
  if zeroFill && d.has '0' && !d.has '-' then sign ++ mark ++ zeros gap ++ digits
  else d.pad (sign ++ mark ++ digits)

def signOf (d : Directive) (negative : Bool) : Bytes :=
  if negative then [byte '-']
  else if d.has '+' then [byte '+']
  else if d.has ' ' then [32]
  else []

def chars (cs : List Char) : Bytes := Number.asciiBytes (String.ofList cs)

def upper (bs : Bytes) : Bytes := bs.map fun b => if byte 'a' ≤ b && b ≤ byte 'z' then b - 32 else b

/-- Digits with as many zeros in front as the precision wants. A zero has none at precision zero. -/
def digitsOf (d : Directive) (base n : Nat) : Bytes :=
  let ds := if n = 0 && d.precision = some 0 then [] else chars (Nat.toDigits base n)
  zeros (d.precision.getD 1 - ds.length) ++ ds

/-- A signed integer. -/
def signed (d : Directive) (i : Int) : Bytes :=
  d.padNumber (d.signOf (i < 0)) [] (d.digitsOf 10 i.natAbs) d.precision.isNone

/-- An integer as a word without sign. -/
def unsigned (d : Directive) (base : Nat) (i : Int) : Bytes :=
  let n := (i % Nat.pow 2 64).toNat
  let ds := d.digitsOf base n
  let mark : Bytes :=
    if !d.has '#' || n = 0 then []
    else if base = 16 then Number.asciiBytes "0x"
    else []
  let ds := if d.has '#' && base = 8 && ds.head? ≠ some (byte '0') then byte '0' :: ds else ds
  let text := d.padNumber [] mark ds d.precision.isNone
  if d.conversion = byte 'X' then upper text else text

/-- With an exponent of at least two digits. -/
def scientific (num den places : Nat) (point : Bool) : List Char :=
  let s : Binary64.Scientific :=
    if num = 0 then ⟨0, places + 1, 0⟩ else Binary64.significant num den (places + 1)
  let ds := s.chars
  ds.take 1 ++ (if places = 0 && !point then [] else '.' :: ds.drop 1) ++
    Binary64.exponentChars s.exponent

def fixed (num den places : Nat) (point : Bool) : List Char :=
  Binary64.fixedChars num den places ++ (if places = 0 && point then ['.'] else [])

def general (num den count : Nat) (point : Bool) : List Char :=
  let cs := Binary64.generalChars num den (max count 1) point
  if point && !cs.contains '.' then
    let whole := cs.takeWhile (· ≠ 'e')
    whole ++ '.' :: cs.drop whole.length
  else cs

/-- Hexadecimal digits of a fraction of so many bits, without zeros at the end. -/
def fractionDigits (m : Nat) : List Char :=
  let ds := Nat.toDigits 16 m
  Binary64.dropTrailingZeros (List.replicate (13 - ds.length) '0' ++ ds)

/-- A hexadecimal float after its `0x`. -/
def hexadecimal (mantissa : Nat) (exponent : Int) (precision : Option Nat) (point : Bool) : List Char :=
  let normal := Nat.pow 2 52 ≤ mantissa
  let e : Int := if mantissa = 0 then 0 else exponent + 52
  let (whole, frac) : Nat × List Char :=
    match precision with
    | none => (if normal then 1 else 0, fractionDigits (mantissa % Nat.pow 2 52))
    | some p =>
      if 13 ≤ p then
        (if normal then 1 else 0, fractionDigits (mantissa % Nat.pow 2 52) ++
          List.replicate (p - (fractionDigits (mantissa % Nat.pow 2 52)).length) '0')
      else
        let q := Binary64.roundHalfEven mantissa (Nat.pow 2 (52 - 4 * p))
        let ds := Nat.toDigits 16 (q % Nat.pow 16 p)
        (q / Nat.pow 16 p, if p = 0 then [] else List.replicate (p - ds.length) '0' ++ ds)
  Nat.toDigits 16 whole ++ (if frac.isEmpty && !point then [] else '.' :: frac) ++
    'p' :: (if e < 0 then '-' else '+') :: Nat.toDigits 10 e.natAbs

def lowerOf (c : UInt8) : UInt8 := if byte 'A' ≤ c && c ≤ byte 'Z' then c + 32 else c

/-- A float in the notation of the conversion. -/
def float (d : Directive) (x : Binary64) : Bytes :=
  let kind := lowerOf d.conversion
  let text :=
    match x.parts with
    | .nan s => d.padNumber (d.signOf s) [] (Number.asciiBytes "nan") false
    | .infinite s => d.padNumber (d.signOf s) [] (Number.asciiBytes "inf") false
    | .finite s m e =>
      let (num, den) := Binary64.ratio m e
      let places := d.precision.getD 6
      let point := d.has '#'
      let sign := d.signOf s
      if kind = byte 'a' then
        d.padNumber sign (Number.asciiBytes "0x") (chars (hexadecimal m e d.precision point)) true
      else if kind = byte 'e' then
        d.padNumber sign [] (chars (scientific num den places point)) true
      else if kind = byte 'f' then d.padNumber sign [] (chars (fixed num den places point)) true
      else d.padNumber sign [] (chars (general num den places point)) true
  if d.conversion = kind then text else upper text

/-- A text, cut at the precision. -/
def text (d : Directive) (bs : Bytes) : Bytes :=
  d.pad (match d.precision with
    | some p => bs.take p
    | none => bs)

end Directive
end UnitCache.Lua
