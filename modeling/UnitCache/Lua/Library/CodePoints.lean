import UnitCache.Lua.Lexer
import UnitCache.Lua.Library.Arguments
import UnitCache.Lua.Library.Strings

namespace UnitCache.Lua.CodePoints

open Routine

def isTail (b : UInt8) : Bool := 0x80 ≤ b && b ≤ 0xBF

/-- How many bytes follow the first one, by how many of its upper bits are set. -/
def tailCount? (b : UInt8) : Option Nat :=
  if b < 0x80 then some 0
  else if b < 0xC0 then none
  else if b < 0xE0 then some 1
  else if b < 0xF0 then some 2
  else if b < 0xF8 then some 3
  else if b < 0xFC then some 4
  else if b < 0xFE then some 5
  else none

/-- The least code point that needs so many further bytes. -/
def least (tails : Nat) : Nat := [0, 0x80, 0x800, 0x10000, 0x200000, 0x4000000].getD tails 0

/-- The code point at the front of a text and how many bytes it takes. -/
def decode? (lax : Bool) : Bytes → Option (Nat × Nat)
  | [] => none
  | b :: bs => do
    let n ← tailCount? b
    let tail := bs.take n
    if tail.length < n || !tail.all isTail then none
    let lead := if n = 0 then b.toNat else b.toNat % Nat.pow 2 (6 - n)
    let code := tail.foldl (fun c t => 64 * c + t.toNat % 64) lead
    if code < least n then none
    if !lax && (0x10FFFF < code || (0xD800 ≤ code && code ≤ 0xDFFF)) then none
    return (code, n + 1)

/-- A position that may count from the end. -/
def position (i : Int) (length : Nat) : Int :=
  if 0 ≤ i then i else if (length : Int) < -i then 0 else length + i + 1

def char (a : Arguments) : Routine (List Value) := do
  let mut out : Bytes := []
  for i in List.range a.count do
    let n ← a.int (i + 1)
    a.check (0 ≤ n && n ≤ 0x7FFFFFFF) (i + 1) "value out of range"
    out := out ++ Lexer.codePointBytes n.toNat
  return [.string out]

def codesFrom (lax : Bool) (bs : Bytes) (i last : Int) : Nat → Routine (List Value)
  | 0 => return []
  | steps + 1 => do
    if last < i then return []
    match decode? lax (bs.drop (i - 1).toNat) with
    | none => fail "invalid UTF-8 code"
    | some (c, n) => return .nat c :: (← codesFrom lax bs (i + n) last steps)

def codePoint (a : Arguments) : Routine (List Value) := do
  let s ← a.bytes 1
  let i := position (← a.intOr 2 1) s.length
  let j := position (← a.intOr 3 i) s.length
  a.check (1 ≤ i) 2 "out of bounds"
  a.check (j ≤ s.length) 3 "out of bounds"
  codesFrom (a.get 4).isTrue s i j (s.length + 1)

def countFrom (lax : Bool) (bs : Bytes) (i last : Int) (count : Nat) : Nat → List Value
  | 0 => [.nat count]
  | steps + 1 =>
    if last < i then [.nat count]
    else
      match decode? lax (bs.drop (i - 1).toNat) with
      | none => [.nil, .int i]
      | some (_, n) => countFrom lax bs (i + n) last (count + 1) steps

def length (a : Arguments) : Routine (List Value) := do
  let s ← a.bytes 1
  let i := position (← a.intOr 2 1) s.length
  let j := position (← a.intOr 3 (-1)) s.length
  a.check (1 ≤ i && i ≤ s.length + 1) 2 "initial position out of bounds"
  a.check (j ≤ s.length) 3 "final position out of bounds"
  return countFrom (a.get 4).isTrue s i j 0 (s.length + 1)

/-- Goes back over further bytes. -/
def back (bs : Bytes) : Nat → Nat
  | 0 => 0
  | i + 1 => if ((bs[i + 1]?).map isTail).getD false then back bs i else i + 1

/-- Goes on over further bytes. -/
def onward (bs : Bytes) (i : Nat) : Nat → Nat
  | 0 => i
  | steps + 1 => if ((bs[i]?).map isTail).getD false then onward bs (i + 1) steps else i

def isTailAt (bs : Bytes) (i : Nat) : Bool := ((bs[i]?).map isTail).getD false

/-- The place so many characters before one. -/
def backward (bs : Bytes) : Nat → Nat → Option Nat
  | 0, i => some i
  | n + 1, i => if i = 0 then none else backward bs n (back bs (i - 1))

def forward (bs : Bytes) : Nat → Nat → Option Nat
  | 0, i => some i
  | n + 1, i => if bs.length ≤ i then none else forward bs n (onward bs (i + 1) bs.length)

def offset (a : Arguments) : Routine (List Value) := do
  let s ← a.bytes 1
  let n ← a.int 2
  let start := position (← a.intOr 3 (if 0 < n then 1 else s.length + 1)) s.length
  a.check (1 ≤ start && start ≤ s.length + 1) 3 "position out of bounds"
  let i := (start - 1).toNat
  if n = 0 then return [.nat (back s i + 1)]
  if isTailAt s i then fail "initial position is a continuation byte"
  let found := if n < 0 then backward s (-n).toNat i else forward s (n - 1).toNat i
  match found with
  | some i => return [.nat (i + 1)]
  | none => return [.nil]

def codes (a : Arguments) : Routine (List Value) := do
  let s ← a.bytes 1
  a.check (!isTailAt s 0) 1 "invalid UTF-8 code"
  return [← newFunction (.native "codes.next" [.bool (a.get 2).isTrue]), .string s, .int 0]

def codesNext (a : Arguments) : Routine (List Value) := do
  let s ← a.bytes 1
  let i := (← a.int 2).toNat
  let start := onward s i s.length
  if s.length ≤ start then return []
  match decode? (Value.first a.captured).isTrue (s.drop start) with
  | some (c, n) =>
    if isTailAt s (start + n) then fail "invalid UTF-8 code"
    return [.nat (start + 1), .nat c]
  | none => fail "invalid UTF-8 code"

def functions : List (String × Native) :=
  [("char", char), ("codepoint", codePoint), ("codes", codes), ("len", length), ("offset", offset)]

def hidden : List (String × Native) := [("codes.next", codesNext)]

/-- The pattern of one character. -/
def pattern : Value :=
  .string (byte '[' :: 0 :: byte '-' :: 0x7F :: 0xC2 :: byte '-' :: 0xFD :: byte ']' :: byte '[' ::
    0x80 :: byte '-' :: 0xBF :: byte ']' :: [byte '*'])

end UnitCache.Lua.CodePoints
