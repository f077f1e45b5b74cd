import UnitCache.Text.Utf8

namespace UnitCache.Inflate

abbrev Bits := List Bool

def bitsOfByte (b : UInt8) : Bits := (List.range 8).map (fun i => b.toNat.testBit i)

def bitsOf (bs : Bytes) : Bits := bs.flatMap bitsOfByte

/-- Why unpacking stops before the end. -/
inductive Broken where
  /-- There are no bits left. -/
  | incomplete
  /-- The bits mean nothing. -/
  | corrupt
  deriving DecidableEq, Repr

/-- A number of so many bits, the lowest first. -/
def number : Nat → Bits → Except Broken (Nat × Bits)
  | 0, bits => .ok (0, bits)
  | _ + 1, [] => .error .incomplete
  | n + 1, b :: bits => do
    let (k, bits) ← number n bits
    return (b.toNat + 2 * k, bits)

/-- A prefix code: how many words each length has, from one bit on, and the symbols in the order of
their words. -/
structure Code where
  counts : List Nat
  symbols : Array Nat
  deriving Repr

def maxLength : Nat := 15

/-- How much of the space of words is left over by words of these counts, in words of the last
length; nothing if there are too many. -/
def spare (room : Nat) : List Nat → Option Nat
  | [] => some room
  | c :: cs => if 2 * room < c then none else spare (2 * room - c) cs

/-- The code that gives symbol `i` a word of `lengths[i]` bits, or none at all for zero. -/
def Code.ofLengths (lengths : List Nat) : Code :=
  let symbolsOf (n : Nat) : List Nat :=
    (lengths.zipIdx.filter (fun x => x.1 = n)).map (·.2)
  let lens := (List.range maxLength).map (· + 1)
  ⟨lens.map (fun n => lengths.count n), (lens.flatMap symbolsOf).toArray⟩

/-- Whether the words use up the whole space. A single word of one bit need not, nor no word. -/
def Code.isComplete (c : Code) : Bool := spare 1 c.counts = some 0

def Code.isAllowed (c : Code) : Bool :=
  c.isComplete || (spare 1 c.counts).isSome && c.counts.tail.all (· = 0)

/-- Walks down the code: `word` are the bits so far, `first` the first word of their length and
`index` its symbol. -/
def Code.walk (symbols : Array Nat) (word first index : Nat) : List Nat → Bits → Except Broken (Nat × Bits)
  | [], _ => .error .corrupt
  | _ :: _, [] => .error .incomplete
  | c :: cs, b :: bits =>
    let word := 2 * word + b.toNat
    let first := 2 * first
    if word < first + c then
      match symbols[index + (word - first)]? with
      | some s => .ok (s, bits)
      | none => .error .corrupt
    else walk symbols word (first + c) (index + c) cs bits

def Code.read (c : Code) (bits : Bits) : Except Broken (Nat × Bits) :=
  Code.walk c.symbols 0 0 0 c.counts bits

/-- The least value and the number of further bits of each symbol for a length. -/
def lengthTable : List (Nat × Nat) :=
  [(3, 0), (4, 0), (5, 0), (6, 0), (7, 0), (8, 0), (9, 0), (10, 0), (11, 1), (13, 1), (15, 1),
    (17, 1), (19, 2), (23, 2), (27, 2), (31, 2), (35, 3), (43, 3), (51, 3), (59, 3), (67, 4),
    (83, 4), (99, 4), (115, 4), (131, 5), (163, 5), (195, 5), (227, 5), (258, 0)]

/-- The same for a distance. -/
def distanceTable : List (Nat × Nat) :=
  [(1, 0), (2, 0), (3, 0), (4, 0), (5, 1), (7, 1), (9, 2), (13, 2), (17, 3), (25, 3), (33, 4),
    (49, 4), (65, 5), (97, 5), (129, 6), (193, 6), (257, 7), (385, 7), (513, 8), (769, 8),
    (1025, 9), (1537, 9), (2049, 10), (3073, 10), (4097, 11), (6145, 11), (8193, 12), (12289, 12),
    (16385, 13), (24577, 13)]

def valueOf (table : List (Nat × Nat)) (symbol : Nat) (bits : Bits) : Except Broken (Nat × Bits) :=
  match table[symbol]? with
  | none => .error .corrupt
  | some (least, extra) => do
    let (k, bits) ← number extra bits
    return (least + k, bits)

/-- Repeats what was unpacked `distance` bytes ago. -/
def copy (distance : Nat) : Nat → Bytes → Option Bytes
  | 0, out => some out
  | n + 1, out =>
    match out[distance - 1]? with
    | some b => copy distance n (b :: out)
    | none => none

/-- The unpacked bytes so far, back to front, and how it went on. -/
abbrev Partial := Bytes × Except Broken Bits

/-- The length and the distance that follow a symbol for a length. -/
def reference (distances : Code) (symbol : Nat) (bits : Bits) : Except Broken (Nat × Nat × Bits) := do
  let (n, bits) ← valueOf lengthTable (symbol - 257) bits
  let (s, bits) ← distances.read bits
  let (d, bits) ← valueOf distanceTable s bits
  return (n, d, bits)

/-- The symbols of a block up to its end. Each takes a bit at least, so that as many steps as there
are bits are enough. -/
def block (literals distances : Code) : Nat → Bits → Bytes → Partial
  | 0, _, out => (out, .error .incomplete)
  | steps + 1, bits, out =>
    match literals.read bits with
    | .error e => (out, .error e)
    | .ok (s, bits) =>
      if s < 256 then block literals distances steps bits (UInt8.ofNat s :: out)
      else if s = 256 then (out, .ok bits)
      else
        match reference distances s bits with
        | .error e => (out, .error e)
        | .ok (n, d, bits) =>
          match copy d n out with
          | some out => block literals distances steps bits out
          | none => (out, .error .corrupt)

/-- A block that is not packed: its length, the length with all bits turned, and the bytes. -/
def stored (bits : Bits) (out : Bytes) : Partial :=
  let bits := bits.drop (bits.length % 8)
  let header := do
    let (n, bits) ← number 16 bits
    let (m, bits) ← number 16 bits
    if n + m = 65535 then return (n, bits) else throw Broken.corrupt
  match header with
  | .error e => (out, .error e)
  | .ok (n, bits) => bytes n bits out
where
  bytes : Nat → Bits → Bytes → Partial
    | 0, bits, out => (out, .ok bits)
    | n + 1, bits, out =>
      match number 8 bits with
      | .ok (b, bits) => bytes n bits (UInt8.ofNat b :: out)
      | .error e => (out, .error e)

def fixedLiterals : Code :=
  .ofLengths (List.replicate 144 8 ++ List.replicate 112 9 ++ List.replicate 24 7 ++
    List.replicate 8 8)

def fixedDistances : Code := .ofLengths (List.replicate 30 5)

/-- The order in which the lengths of the code for lengths are given. -/
def lengthOrder : List Nat := [16, 17, 18, 0, 8, 7, 9, 6, 10, 5, 11, 4, 12, 3, 13, 2, 14, 1, 15]

/-- So many numbers of three bits. -/
def triples : Nat → Bits → Except Broken (List Nat × Bits)
  | 0, bits => .ok ([], bits)
  | n + 1, bits => do
    let (k, bits) ← number 3 bits
    let (ks, bits) ← triples n bits
    return (k :: ks, bits)

/-- Lengths written with a code of their own, with marks for repetitions; back to front. -/
def lengths (code : Code) (wanted : Nat) : Nat → Bits → List Nat → Except Broken (List Nat × Bits)
  | 0, _, _ => .error .incomplete
  | steps + 1, bits, acc =>
    if acc.length = wanted then .ok (acc, bits)
    else if wanted < acc.length then .error .corrupt
    else do
      let (s, bits) ← code.read bits
      if s < 16 then lengths code wanted steps bits (s :: acc)
      else
        let (base, extra, value) :=
          if s = 16 then (3, 2, acc.head?) else if s = 17 then (3, 3, some 0) else (11, 7, some 0)
        let (k, bits) ← number extra bits
        match value with
        | none => throw .corrupt
        | some v => lengths code wanted steps bits (List.replicate (base + k) v ++ acc)

/-- The two codes that a block gives itself. -/
def ownCodes (bits : Bits) : Except Broken (Code × Code × Bits) := do
  let (nl, bits) ← number 5 bits
  let (nd, bits) ← number 5 bits
  let (nc, bits) ← number 4 bits
  let nl := nl + 257
  let nd := nd + 1
  if 286 < nl || 30 < nd then throw .corrupt
  let (ks, bits) ← triples (nc + 4) bits
  let given := lengthOrder.zip ks
  let code := Code.ofLengths ((List.range 19).map (fun i => (given.lookup i).getD 0))
  if !code.isComplete then throw .corrupt
  let (ls, bits) ← lengths code (nl + nd) (bits.length + 1) bits []
  let (literals, distances) := ls.reverse.splitAt nl
  if literals[256]?.getD 0 = 0 then throw .corrupt
  let literals := Code.ofLengths literals
  let distances := Code.ofLengths distances
  if !literals.isAllowed || !distances.isAllowed then throw .corrupt
  return (literals, distances, bits)

/-- All blocks up to the last one. -/
def blocks : Nat → Bits → Bytes → Partial
  | 0, _, out => (out, .error .incomplete)
  | steps + 1, bits, out =>
    match number 1 bits >>= fun (final, bits) => (number 2 bits).map (fun x => (final, x.1, x.2)) with
    | .error e => (out, .error e)
    | .ok (final, kind, bits) =>
      let (out, r) :=
        match kind with
        | 0 => stored bits out
        | 1 => block fixedLiterals fixedDistances bits.length bits out
        | 2 =>
          match ownCodes bits with
          | .error e => (out, .error e)
          | .ok (literals, distances, bits) => block literals distances bits.length bits out
        | _ => (out, .error .corrupt)
      match r with
      | .error e => (out, .error e)
      | .ok bits => if final = 1 then (out, .ok bits) else blocks steps bits out

/-- What packed bytes unpack to, and the bytes after them, which begin at a whole byte. -/
structure Unpacked where
  content : Bytes
  rest : Except Broken Nat

/-- Unpacks from the front. The number of bytes that are left over is given. -/
def unpack (bs : Bytes) : Unpacked :=
  let bits := bitsOf bs
  let (out, r) := blocks (bits.length + 1) bits []
  ⟨out.reverse, r.map (fun bits => bits.length / 8)⟩

end UnitCache.Inflate
