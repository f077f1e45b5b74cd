import UnitCache.Lua.Value
/-!
Lua tables: values of integer keys from one upward in an array, all others under their keys in order
of insertion. Keys move to the array when the others are full and more than half of it would be
used. What is found under a key does not depend on where it is kept, but the length of a table with
gaps does.
-/
namespace UnitCache.Lua

structure Table where
  array : Array Value := #[]
  /-- Keys outside of the array. One whose value is nil keeps its place. -/
  fields : Array (Value × Value) := #[]
  /-- How many fields there can be before keys are moved. -/
  capacity : Nat := 0
  metatable : Option Nat := none
  deriving Inhabited

namespace Table

/-- The place of a key in the array, counted from zero. -/
def place? (t : Table) (k : Value) : Option Nat :=
  match k with
  | .number (.int i) =>
    let i := i.toInt
    if 1 ≤ i && i ≤ t.array.size then some (i.toNat - 1) else none
  | _ => none

def fieldIndex? (t : Table) (k : Value) : Option Nat := t.fields.findIdx? (fun f => f.1 = k)

/-- What is under a key, nil if nothing is. -/
def get (t : Table) (key : Value) : Value :=
  let k := key.asKey
  match t.place? k with
  | some i => t.array[i]?.getD .nil
  | none =>
    match t.fields.find? (fun f => f.1 = k) with
    | some f => f.2
    | none => .nil

def getNat (t : Table) (i : Nat) : Value := t.get (.nat i)

def getText (t : Table) (s : String) : Value := t.get (.text s)

/-- The smallest power of two at or above a number; for zero it is zero. -/
def roundUp (n : Nat) : Nat :=
  if n ≤ 1 then n else Nat.pow 2 ((n - 1).log2 + 1)

/-- The positive integer that a key is. -/
def index? : Value → Option Nat
  | .number (.int i) => if 0 < i.toInt then some i.toInt.toNat else none
  | _ => none

/-- The largest power of two so that more than half of the keys up to it are present. -/
def bestSize (keys : List Nat) (limit : Nat) : Nat → Nat → Nat → Nat
  | 0, _, best => best
  | steps + 1, size, best =>
    if limit ≤ size / 2 then best
    else
      let used := keys.countP (fun k => k ≤ size)
      bestSize keys limit steps (2 * size) (if size / 2 < used then size else best)

/-- Puts a value under a key that is not in the array, in a field if there is no such place. -/
def place (t : Table) (k v : Value) : Table :=
  match t.place? k with
  | some i => { t with array := t.array.setIfInBounds i v }
  | none => { t with fields := t.fields.push (k, v) }

/-- Divides all entries anew between an array of the given size and fields. -/
def resize (t : Table) (size capacity : Nat) : Table :=
  let kept := t.array.take size
  let moved := ((t.array.toList.drop size).zipIdx (size + 1)).map (fun (v, i) => (Value.nat i, v))
  let entries := (t.fields.toList ++ moved).filter (fun f => f.2 ≠ .nil)
  let base : Table :=
    { t with
      array := kept ++ Array.replicate (size - kept.size) .nil
      fields := #[]
      capacity }
  entries.foldl (fun t f => t.place f.1 f.2) base

/-- Makes room for one more key. -/
def makeRoom (t : Table) (k : Value) : Table :=
  let present := t.fields.toList.filter (fun f => f.2 ≠ .nil)
  let inArray := (t.array.toList.zipIdx 1).filterMap (fun (v, i) => if v = .nil then none else some i)
  let indices := inArray ++ present.filterMap (fun f => index? f.1) ++ (index? k).toList
  let size := bestSize indices indices.length 64 1 0
  let total := inArray.length + present.length + 1
  let inside := indices.countP (fun i => i ≤ size)
  t.resize size (roundUp (total - inside))

/-- Puts a value under a key. The key is not nil, and not a float that is no number. -/
def set (t : Table) (key v : Value) : Table :=
  let k := key.asKey
  match t.place? k with
  | some i => { t with array := t.array.setIfInBounds i v }
  | none =>
    match t.fieldIndex? k with
    | some i => { t with fields := t.fields.setIfInBounds i (k, v) }
    | none =>
      if v = .nil then t
      else if t.fields.size < t.capacity then { t with fields := t.fields.push (k, v) }
      else (t.makeRoom k).place k v

def setNat (t : Table) (i : Nat) (v : Value) : Table := t.set (.nat i) v

def setText (t : Table) (s : String) (v : Value) : Table := t.set (.text s) v

/-- A new table with so many items in its array. -/
def ofItems (items : List Value) (capacity : Nat) : Table :=
  { array := items.toArray, capacity := roundUp capacity }

/-- A new table with values under names. -/
def ofFields (fs : List (String × Value)) : Table :=
  { fields := (fs.map (fun (n, v) => (Value.text n, v))).toArray, capacity := roundUp fs.length }

/-- A border between `low`, where something is, and `high`, where nothing is. -/
def borderBetween (present : Nat → Bool) : Nat → Nat → Nat → Nat
  | 0, low, _ => low
  | steps + 1, low, high =>
    if high - low ≤ 1 then low
    else
      let m := (low + high) / 2
      if present m then borderBetween present steps m high
      else borderBetween present steps low m

/-- Doubles an index until nothing is there, and then looks for a border below. -/
def borderAbove (present : Nat → Bool) : Nat → Nat → Nat
  | 0, low => low
  | steps + 1, low =>
    if present (2 * low) then borderAbove present steps (2 * low)
    else borderBetween present 64 low (2 * low)

/-- A border of the table: an index with a value, or zero, before one without. -/
def length (t : Table) : Nat :=
  let present (i : Nat) : Bool := t.getNat i ≠ .nil
  let n := t.array.size
  if 0 < n && !present n then
    if present (n - 1) then n - 1 else borderBetween present 64 0 n
  else if !present (n + 1) then n
  else borderAbove present 63 (max n 1)

/-- All entries: the array first, then the fields. -/
def entries (t : Table) : List (Value × Value) :=
  let items := (t.array.toList.zipIdx 1).map fun p => (Value.nat p.2, p.1)
  (items ++ t.fields.toList).filter fun f => f.2 ≠ .nil

/-- The first entry at or after a place among the fields. -/
def fromField (fs : Array (Value × Value)) (i : Nat) : Option (Value × Value) :=
  if h : i < fs.size then
    if fs[i].2 ≠ .nil then some fs[i] else fromField fs (i + 1)
  else none
termination_by fs.size - i

/-- The first entry at or after a place in the array, or else the first one of the fields. -/
def fromPlace (t : Table) (i : Nat) : Option (Value × Value) :=
  if h : i < t.array.size then
    if t.array[i] ≠ .nil then some (.nat (i + 1), t.array[i]) else t.fromPlace (i + 1)
  else fromField t.fields 0
termination_by t.array.size - i

/-- The entry after a key, or the first one after nil. There is no answer for a key that is not in
the table. -/
def next? (t : Table) (key : Value) : Option (Option (Value × Value)) :=
  let k := key.asKey
  if k = .nil then some (t.fromPlace 0)
  else
    match t.place? k with
    | some i => some (t.fromPlace (i + 1))
    | none => (t.fieldIndex? k).map fun i => fromField t.fields (i + 1)

end Table
end UnitCache.Lua
