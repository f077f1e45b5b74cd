import UnitCache.Text.Utf8

namespace UnitCache.Checksum

def polynomial : UInt32 := 0xEDB88320

/-- One step for each bit: a bit shifted out brings the polynomial in. -/
def shift : Nat → UInt32 → UInt32
  | 0, c => c
  | n + 1, c => shift n (if c &&& 1 = 1 then (c >>> 1) ^^^ polynomial else c >>> 1)

def update (c : UInt32) (b : UInt8) : UInt32 := shift 8 (c ^^^ b.toUInt32)

def crc32 (bs : Bytes) : UInt32 := bs.foldl update 0xFFFFFFFF ^^^ 0xFFFFFFFF

end UnitCache.Checksum
