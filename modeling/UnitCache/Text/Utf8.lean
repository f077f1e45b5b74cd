namespace UnitCache

/-- The content of a file, a stream or an artifact. -/
abbrev Bytes := List UInt8

namespace Utf8

/-- The UTF-8 form of a text. -/
def encode (s : String) : Bytes := s.toList.flatMap String.utf8EncodeChar

/-- What stands at the front of a byte sequence. -/
inductive Piece where
  /-- A whole character. -/
  | char (c : Char)
  /-- So many bytes that no well-formed character starts with. -/
  | broken (width : Nat)
  /-- The sequence ends inside a character, whose bytes so far are this many. -/
  | cut (width : Nat)
  deriving DecidableEq, Repr

def isTail (b : UInt8) : Bool := 0x80 ≤ b && b ≤ 0xBF

/-- The second byte allowed after the first byte of a three-byte character. -/
def isSecondOfThree (a b : UInt8) : Bool :=
  if a = 0xE0 then 0xA0 ≤ b && b ≤ 0xBF
  else if a = 0xED then 0x80 ≤ b && b ≤ 0x9F
  else isTail b

/-- The second byte allowed after the first byte of a four-byte character. -/
def isSecondOfFour (a b : UInt8) : Bool :=
  if a = 0xF0 then 0x90 ≤ b && b ≤ 0xBF
  else if a = 0xF4 then 0x80 ≤ b && b ≤ 0x8F
  else isTail b

def low (b : UInt8) (bits : Nat) : Nat := b.toNat % Nat.pow 2 bits

/-- A byte sequence cut into characters and broken parts. -/
def pieces : Bytes → List Piece
  | [] => []
  | a :: r =>
    if a < 0x80 then .char (Char.ofNat a.toNat) :: pieces r
    else if 0xC2 ≤ a && a ≤ 0xDF then
      match r with
      | [] => [.cut 1]
      | b :: r₁ =>
        if isTail b then .char (Char.ofNat (low a 5 * 64 + low b 6)) :: pieces r₁
        else .broken 1 :: pieces (b :: r₁)
    else if 0xE0 ≤ a && a ≤ 0xEF then
      match r with
      | [] => [.cut 1]
      | b :: r₁ =>
        if isSecondOfThree a b then
          match r₁ with
          | [] => [.cut 2]
          | c :: r₂ =>
            if isTail c then
              .char (Char.ofNat ((low a 4 * 64 + low b 6) * 64 + low c 6)) :: pieces r₂
            else .broken 2 :: pieces (c :: r₂)
        else .broken 1 :: pieces (b :: r₁)
    else if 0xF0 ≤ a && a ≤ 0xF4 then
      match r with
      | [] => [.cut 1]
      | b :: r₁ =>
        if isSecondOfFour a b then
          match r₁ with
          | [] => [.cut 2]
          | c :: r₂ =>
            if isTail c then
              match r₂ with
              | [] => [.cut 3]
              | d :: r₃ =>
                if isTail d then
                  .char (Char.ofNat (((low a 3 * 64 + low b 6) * 64 + low c 6) * 64 + low d 6)) ::
                    pieces r₃
                else .broken 3 :: pieces (d :: r₃)
            else .broken 2 :: pieces (c :: r₂)
        else .broken 1 :: pieces (b :: r₁)
    else .broken 1 :: pieces r

/-- How bytes fail to be UTF-8: the index of the first bad part and its width, which is unknown
when the bytes end inside a character. -/
structure Fault where
  index : Nat
  width : Option Nat
  deriving DecidableEq, Repr

def Fault.message (f : Fault) : String :=
  match f.width with
  | some n => s!"invalid utf-8 sequence of {n} bytes from index {f.index}"
  | none => s!"incomplete utf-8 byte sequence from index {f.index}"

/-- Joins characters up to the first broken piece, counting bytes. -/
def joinPieces (index : Nat) : List Piece → Except Fault (List Char)
  | [] => .ok []
  | .char c :: ps => (joinPieces (index + c.utf8Size) ps).map (c :: ·)
  | .broken n :: _ => .error ⟨index, some n⟩
  | .cut _ :: _ => .error ⟨index, none⟩

/-- Reads UTF-8, or says where it stops being so. -/
def decode (bs : Bytes) : Except Fault String := (joinPieces 0 (pieces bs)).map String.ofList

def Piece.show : Piece → Char
  | .char c => c
  | _ => '\uFFFD'

/-- Reads any bytes, with a replacement character for each broken part. -/
def decodeLossy (bs : Bytes) : String := String.ofList ((pieces bs).map Piece.show)

end Utf8
end UnitCache
