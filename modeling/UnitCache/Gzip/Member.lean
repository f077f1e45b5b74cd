import UnitCache.Fault
import UnitCache.Gzip.Checksum
import UnitCache.Gzip.Inflate

namespace UnitCache

/-- Bytes that come one after the other, and what stops them if not their end. -/
structure ByteStream where
  content : Bytes
  fault : Option Fault := none
  deriving DecidableEq, Repr

namespace ByteStream

def ofBytes (bs : Bytes) : ByteStream := ⟨bs, none⟩

/-- All bytes, or the fault that comes before the end. -/
def readAll (s : ByteStream) : Except Fault Bytes :=
  match s.fault with
  | none => .ok s.content
  | some f => .error f

end ByteStream

namespace Gzip

/-- A number in bytes, the lowest first. -/
def littleEndian (bs : Bytes) : Nat := bs.foldr (fun b n => b.toNat + 256 * n) 0

/-- So many bytes from the front, if there are as many. -/
def take? (n : Nat) (bs : Bytes) : Option (Bytes × Bytes) :=
  if n ≤ bs.length then some (bs.splitAt n) else none

/-- What follows the first zero byte. -/
def afterZero? : Bytes → Option Bytes
  | [] => none
  | b :: bs => if b = 0 then some bs else afterZero? bs

def hasFlag (flags : UInt8) (bit : Nat) : Bool := flags.toNat.testBit bit

/-- What follows the header. `short` is the fault of bytes that end inside it. -/
def body (short : Fault) (bs : Bytes) : Except Fault Bytes := do
  let need {α : Type} : Option α → Except Fault α
    | some a => .ok a
    | none => .error short
  let (fixed, rest) ← need (take? 10 bs)
  let flags := fixed[3]?.getD 0
  if fixed.take 3 ≠ [0x1F, 0x8B, 8] || flags &&& 0xE0 ≠ 0 then throw .gzipHeader
  let mut rest := rest
  if hasFlag flags 2 then
    let (size, r) ← need (take? 2 rest)
    let (_, r) ← need (take? (littleEndian size) r)
    rest := r
  if hasFlag flags 3 then
    rest ← need (afterZero? rest)
  if hasFlag flags 4 then
    rest ← need (afterZero? rest)
  if hasFlag flags 1 then
    let (sum, r) ← need (take? 2 rest)
    let header := bs.take (bs.length - rest.length)
    if littleEndian sum ≠ (Checksum.crc32 header).toNat % 65536 then throw .gzipChecksum
    rest := r
  return rest

/-- Unpacks the first member of a gzip stream; what follows it is left alone. Corrupt bytes take all
that was packed with them; bytes that end too early leave what came before. -/
def unpack (s : ByteStream) : ByteStream :=
  let short := s.fault.getD .unexpectedEnd
  match body short s.content with
  | .error f => ⟨[], some f⟩
  | .ok packed =>
    let u := Inflate.unpack packed
    match u.rest with
    | .error .corrupt => ⟨[], some .deflateCorrupt⟩
    | .error .incomplete => ⟨u.content, some (s.fault.getD .deflateIncomplete)⟩
    | .ok n =>
      match take? 8 (packed.drop (packed.length - n)) with
      | none => ⟨u.content, some short⟩
      | some (trailer, _) =>
        let (sum, size) := trailer.splitAt 4
        if littleEndian sum = (Checksum.crc32 u.content).toNat ∧
            littleEndian size = u.content.length % Nat.pow 2 32 then ⟨u.content, none⟩
        else ⟨u.content, some .gzipChecksum⟩

end Gzip
end UnitCache
