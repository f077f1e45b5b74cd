import UnitCache.Error
import UnitCache.Gzip.Member
import UnitCache.Zip.EntryName

namespace UnitCache.Zip

structure Member where
  name : String
  encrypted : Bool
  method : Nat
  checksum : Nat
  packedSize : Nat
  /-- Where its own header stands. -/
  header : Nat
  deriving DecidableEq, Repr

/-- A number of so many bytes at a position. Beyond the end there are zeros. -/
def number (bs : Bytes) (position width : Nat) : Nat :=
  Gzip.littleEndian ((bs.drop position).take width)

def hasSignature (bs : Bytes) (position signature : Nat) : Bool :=
  position + 4 ≤ bs.length && number bs position 4 = signature

def endSignature : Nat := 0x06054B50

def memberSignature : Nat := 0x02014B50

def headerSignature : Nat := 0x04034B50

/-- The method of entries that hide their method behind a password. -/
def hiddenMethod : Nat := 99

/-- One record of the directory, and where the next one begins. -/
def member? (bs : Bytes) (shift position : Nat) : Option (Member × Nat) :=
  let name := number bs (position + 28) 2
  let extra := number bs (position + 30) 2
  let next := position + 46 + name + extra + number bs (position + 32) 2
  let flags := number bs (position + 8) 2
  let m : Member :=
    { name := entryName (flags.testBit 11) ((bs.drop (position + 46)).take name)
      encrypted := flags.testBit 0
      method := number bs (position + 10) 2
      checksum := number bs (position + 16) 4
      packedSize := number bs (position + 20) 4
      header := number bs (position + 42) 4 + shift }
  if hasSignature bs position memberSignature && next ≤ bs.length && m.method ≠ hiddenMethod then
    some (m, next)
  else none

def members? (bs : Bytes) (shift : Nat) : Nat → Nat → Option (List Member)
  | 0, _ => some []
  | n + 1, position => do
    let (m, next) ← member? bs shift position
    return m :: (← members? bs shift n next)

/-- The first record at or after a position and before another. -/
def firstMember? (bs : Bytes) (start stop : Nat) : Option Nat :=
  ((List.range (stop - start)).map (· + start)).find? (fun p => hasSignature bs p memberSignature)

/-- The directory that the end record at a position tells of. -/
def directoryAt? (bs : Bytes) (position : Nat) : Option (List Member) :=
  let count := number bs (position + 8) 2
  let start := number bs (position + 16) 4
  if bs.length < position + 22 + number bs (position + 20) 2 then none
  else if count = 0 then some []
  else if position ≤ start || number bs (position + 4) 2 ≠ number bs (position + 6) 2 then none
  else do
    let first ← firstMember? bs start position
    members? bs (first - start) count first

/-- The members of an archive without records of the 64-bit format, which may stand behind other bytes
and before other ones. Of several end records the last one that makes sense counts. -/
def members (bs : Bytes) : Except ArchiveFault (List Member) :=
  let ends := (List.range bs.length).reverse.filter
    (fun p => p + 22 ≤ bs.length && hasSignature bs p endSignature)
  match ends.findSome? (directoryAt? bs) with
  | some ms => .ok ms
  | none => .error (.invalid "Could not find EOCD")

/-- The member of a name; of several the last one. -/
def find? (ms : List Member) (name : String) : Option Member := ms.reverse.find? (fun m => m.name = name)

/-- Why a member cannot be read: the archive is at fault, or the member's content. -/
inductive Refusal where
  | archive (fault : ArchiveFault)
  | content (fault : Fault)
  deriving DecidableEq, Repr

/-- The bytes that a member is packed into. -/
def packed (bs : Bytes) (m : Member) : Except Refusal Bytes :=
  if bs.length < m.header + 30 then .error (.archive (.io (.other "failed to fill whole buffer")))
  else if !hasSignature bs m.header headerSignature then
    .error (.archive (.invalid "Invalid local file header"))
  else
    let skipped := 30 + number bs (m.header + 26) 2 + number bs (m.header + 28) 2
    .ok ((bs.drop (m.header + skipped)).take m.packedSize)

/-- Unpacks what is stored or deflated and refuses any other method. What is proved of lookups holds
whatever methods there are. -/
def unpack (method : Nat) (bs : Bytes) : Except Refusal Bytes :=
  if method = 0 then .ok bs
  else if method = 8 then
    let u := Inflate.unpack bs
    match u.rest with
    | .ok _ => .ok u.content
    | .error .incomplete => .error (.content .deflateIncomplete)
    | .error .corrupt => .error (.content .deflateCorrupt)
  else .error (.archive (.unsupported "Compression method not supported"))

/-- The content of a member, given the bytes of its archive. -/
def content (bs : Bytes) (m : Member) : Except Refusal Bytes := do
  if m.encrypted then throw (.archive (.unsupported "Password required to decrypt file"))
  let out ← unpack m.method (← packed bs m)
  if (Checksum.crc32 out).toNat ≠ m.checksum then throw (.content .entryChecksum)
  return out

end UnitCache.Zip
