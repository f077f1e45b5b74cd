import UnitCache.Lua.Library.Arguments

namespace UnitCache.Lua.Tables

open Routine

def element (t : Value) (i : Int) : Routine Value := Operation.index t (.int i) none

def put (t : Value) (i : Int) (v : Value) : Routine Unit := Operation.setIndex t (.int i) v none

/-- An argument that is a table or works like one, as far as the metamethods say. -/
def tableLike (a : Arguments) (i : Nat) (events : List String) : Routine Value := do
  let v := a.get i
  match v with
  | .table _ => return v
  | _ =>
    let handlers ← askAll fun w => events.map (w.metafield v)
    if handlers.contains .nil then a.refuseType i "table" else return v

/-- The length of a value, which has to be an integer. -/
def lengthOf (t : Value) : Routine Int := do
  match ← Operation.length t none with
  | .number n =>
    match n.toInt? with
    | some i => return i.toInt
    | none => fail "object length is not an integer"
  | _ => fail "object length is not an integer"

def counted (a : Arguments) (events : List String) : Routine (Value × Int) := do
  let t ← tableLike a 1 (events ++ ["__len"])
  return (t, ← lengthOf t)

def concatFrom (t : Value) (sep : Bytes) (i last : Int) : Nat → Routine Bytes
  | 0 => return []
  | steps + 1 => do
    let v ← element t i
    match v.toText? with
    | none =>
      failBytes (Utf8.encode "invalid value (at index " ++ Utf8.encode (toString i) ++
        Utf8.encode ") in table for 'concat'")
    | some s =>
      if i = last then return s else return s ++ sep ++ (← concatFrom t sep (i + 1) last steps)

def concat (a : Arguments) : Routine (List Value) := do
  let (t, n) ← counted a ["__index"]
  let sep ← a.bytesOr 2 []
  let i ← a.intOr 3 1
  let last ← a.intOr 4 n
  if last < i then return [.string []]
  return [.string (← concatFrom t sep i last (last - i + 1).toNat)]

/-- Moves elements one place up, the last one first. -/
def shiftUp (t : Value) (low : Int) : Nat → Routine Unit
  | 0 => return
  | n + 1 => do
    put t (low + n + 1) (← element t (low + n))
    shiftUp t low n

def insert (a : Arguments) : Routine (List Value) := do
  let (t, n) ← counted a ["__index", "__newindex"]
  match a.count with
  | 2 =>
    put t (n + 1) (a.get 2)
    return []
  | 3 =>
    let i ← a.int 2
    a.check (1 ≤ i && i ≤ n + 1) 2 "position out of bounds"
    shiftUp t i (n + 1 - i).toNat
    put t i (a.get 3)
    return []
  | _ => fail "wrong number of arguments to 'insert'"

/-- Moves elements one place down, the first one first. -/
def shiftDown (t : Value) (i : Int) : Nat → Routine Unit
  | 0 => return
  | n + 1 => do
    put t i (← element t (i + 1))
    shiftDown t (i + 1) n

def remove (a : Arguments) : Routine (List Value) := do
  let (t, n) ← counted a ["__index", "__newindex"]
  let i ← a.intOr 2 n
  if a.count ≠ 1 then a.check (n = i || (1 ≤ i && i ≤ n + 1)) 2 "position out of bounds"
  let v ← element t i
  shiftDown t i (n - i).toNat
  put t (max i n) .nil
  return [v]

def copyUp (source target : Value) (i j : Int) : Nat → Routine Unit
  | 0 => return
  | n + 1 => do
    put target j (← element source i)
    copyUp source target (i + 1) (j + 1) n

def copyDown (source target : Value) (i j : Int) : Nat → Routine Unit
  | 0 => return
  | n + 1 => do
    put target (j + n) (← element source (i + n))
    copyDown source target i j n

def move (a : Arguments) : Routine (List Value) := do
  let first ← a.int 2
  let last ← a.int 3
  let j ← a.int 4
  let i := if a.get 5 = .nil then 1 else 5
  let source ← tableLike a 1 ["__index"]
  let target ← tableLike a i ["__newindex"]
  if first ≤ last then
    a.check (0 < first || last < Nat.pow 2 63 - 1 + first) 3 "too many elements to move"
    let n := (last - first + 1).toNat
    a.check (j ≤ Nat.pow 2 63 - 1 - n + 1) 4 "destination wrap around"
    if last < j || j ≤ first || (i ≠ 1 && source ≠ target) then copyUp source target first j n
    else copyDown source target first j n
  return [target]

def pack (a : Arguments) : Routine (List Value) := do
  return [← newTable ((Table.ofItems a.values 1).setText "n" (.nat a.count))]

def elements (t : Value) (i : Int) : Nat → Routine (List Value)
  | 0 => return []
  | n + 1 => do
    let v ← element t i
    return v :: (← elements t (i + 1) n)

def unpack (a : Arguments) : Routine (List Value) := do
  let t := a.get 1
  let i ← a.intOr 2 1
  let last ← if a.get 3 = .nil then lengthOf t else a.int 3
  if last < i then return []
  if 1000000 ≤ last - i then fail "too many results to unpack"
  elements t i (last - i + 1).toNat

/-- Whether one value comes before another one, by a function or by the order of Lua. -/
def before (order : Value) (x y : Value) : Routine Bool := do
  match order with
  | .nil => Operation.less x y
  | f => return (← callFirst f [x, y] none).isTrue

def badOrder {α : Type} : Routine α := fail "invalid order function for sorting"

/-- The first place after `i` whose element does not come before the pivot. -/
def scanUp (t order pivot : Value) (i bound : Int) : Nat → Routine (Int × Value)
  | 0 => badOrder
  | steps + 1 => do
    let i := i + 1
    let v ← element t i
    if ← before order v pivot then
      if i = bound then badOrder else scanUp t order pivot i bound steps
    else return (i, v)

/-- The last place before `j` whose element does not come after the pivot. -/
def scanDown (t order pivot : Value) (j i : Int) : Nat → Routine (Int × Value)
  | 0 => badOrder
  | steps + 1 => do
    let j := j - 1
    let v ← element t j
    if ← before order pivot v then
      if j < i then badOrder else scanDown t order pivot j i steps
    else return (j, v)

/-- Divides a range around the pivot, which is its last but one element, and gives the pivot's
place. -/
def divide (t order pivot : Value) (up i j : Int) (width : Nat) : Nat → Routine Int
  | 0 => badOrder
  | steps + 1 => do
    let (i, x) ← scanUp t order pivot i (up - 1) width
    let (j, y) ← scanDown t order pivot j i width
    if j < i then
      let last ← element t (up - 1)
      put t (up - 1) x
      put t i last
      return i
    else
      put t i y
      put t j x
      divide t order pivot up i j width steps

/-- Puts the elements at two places into order. -/
def orderTwo (t order : Value) (low high : Int) : Routine Unit := do
  let x ← element t low
  let y ← element t high
  if ← before order y x then
    put t low y
    put t high x

/-- Sorts a range: the median of three elements divides it into two, which are sorted then. -/
def sortRange (t order : Value) : Nat → Int → Int → Routine Unit
  | 0, _, _ => return
  | steps + 1, low, up => do
    if up ≤ low then return
    orderTwo t order low up
    if up - low = 1 then return
    let mid := (low + up) / 2
    let x ← element t mid
    let y ← element t low
    if ← before order x y then
      put t mid y
      put t low x
    else orderTwo t order mid up
    if up - low = 2 then return
    let pivot ← element t mid
    put t mid (← element t (up - 1))
    put t (up - 1) pivot
    let width := (up - low + 2).toNat
    let p ← divide t order pivot up low (up - 1) width width
    if p - low < up - p then
      sortRange t order steps low (p - 1)
      sortRange t order steps (p + 1) up
    else
      sortRange t order steps (p + 1) up
      sortRange t order steps low (p - 1)

def sort (a : Arguments) : Routine (List Value) := do
  let (t, n) ← counted a ["__index", "__newindex"]
  if 1 < n then
    a.check (n < Nat.pow 2 31 - 1) 1 "array too big"
    if a.get 2 ≠ .nil then
      let _ ← a.functionValue 2
    sortRange t (a.get 2) (n + 1).toNat 1 n
  return []

def functions : List (String × Native) :=
  [("concat", concat), ("insert", insert), ("move", move), ("pack", pack), ("remove", remove),
    ("sort", sort), ("unpack", unpack)]

end UnitCache.Lua.Tables
