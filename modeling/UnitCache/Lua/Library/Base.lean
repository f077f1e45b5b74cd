import UnitCache.Lua.Chunk
import UnitCache.Lua.Library.Arguments

namespace UnitCache.Lua.Base

open Routine

def print (a : Arguments) : Routine (List Value) := do
  let mut texts : List Bytes := []
  for v in a.values do
    texts := texts ++ [← Operation.text v]
  let line := (List.intersperse [byte '\t'] texts).flatten ++ [byte '\n']
  change fun w => (w.write line).flush
  return []

def type (a : Arguments) : Routine (List Value) := do
  return [.text (← a.some 1).typeName]

def toString (a : Arguments) : Routine (List Value) := do
  return [.string (← Operation.text (← a.some 1))]

def digit? (base : Nat) (b : UInt8) : Option Nat :=
  let v :=
    if isDigit b then b.toNat - 48
    else if byte 'a' ≤ b && b ≤ byte 'z' then b.toNat - 87
    else if byte 'A' ≤ b && b ≤ byte 'Z' then b.toNat - 55
    else base
  if v < base then some v else none

/-- The number that a text is in a base. -/
def inBase? (base : Nat) (s : Bytes) : Option Int :=
  let (neg, ds) :=
    match Number.trimSpace s with
    | b :: bs => if b = byte '-' then (true, bs) else (false, b :: bs)
    | [] => (false, [])
  match ds.mapM (digit? base) with
  | some (d :: more) =>
    let n : Int := ((d :: more).foldl (fun n d => base * n + d) 0 : Nat)
    some (if neg then -n else n)
  | _ => none

def toNumber (a : Arguments) : Routine (List Value) := do
  if a.get 2 = .nil then
    match (← a.some 1).toNumber? with
    | some n => return [.number n]
    | none => return [.nil]
  else
    let base ← a.int 2
    match a.get 1 with
    | .string s =>
      a.check (2 ≤ base && base ≤ 36) 2 "base out of range"
      match inBase? base.toNat s with
      | some i => return [.int i]
      | none => return [.nil]
    | _ => a.refuseType 1 "string"

def next (a : Arguments) : Routine (List Value) := do
  let t ← a.table 1
  let entry ← askAll fun w =>
    match (w.table t).next? (a.get 2) with
    | none => []
    | some none => [.nil]
    | some (some (k, v)) => [k, v]
  if entry.isEmpty then failWith "invalid key to 'next'" else return entry

def pairs (a : Arguments) : Routine (List Value) := do
  let v ← a.some 1
  match ← metafield v "__pairs" with
  | .nil => return [← sharedFunction "next", v, .nil]
  | h => return Value.adjust 3 (← callAll h [v])

def ipairs (a : Arguments) : Routine (List Value) := do
  let v ← a.some 1
  return [← sharedFunction "ipairs.next", v, .int 0]

def ipairsNext (a : Arguments) : Routine (List Value) := do
  let i := Int64.ofInt ((← a.int 2) + 1)
  let k : Value := .number (.int i)
  match ← Operation.index (a.get 1) k none with
  | .nil => return [.nil]
  | v => return [k, v]

def rawGet (a : Arguments) : Routine (List Value) := do
  let t ← a.table 1
  let k ← a.some 2
  return [← ask fun w => (w.table t).get k]

def rawSet (a : Arguments) : Routine (List Value) := do
  let t ← a.table 1
  let k ← a.some 2
  let v ← a.some 3
  Operation.rawSet t k v
  return [.table t]

def rawEqual (a : Arguments) : Routine (List Value) := do
  let x ← a.some 1
  let y ← a.some 2
  return [.bool (x.same y)]

def rawLength (a : Arguments) : Routine (List Value) := do
  match a.get 1 with
  | .table t => return [← ask fun w => .nat (w.table t).length]
  | .string s => return [.nat s.length]
  | _ => a.refuseType 1 "table or string"

def select (a : Arguments) : Routine (List Value) := do
  let rest := a.after 1
  match a.get 1 with
  | .string (b :: _) => if b = byte '#' then return [.nat rest.length] else choose rest
  | _ => choose rest
where
  choose (rest : List Value) : Routine (List Value) := do
    let i ← a.int 1
    let i : Int := if i < 0 then rest.length + 1 + i else i
    a.check (1 ≤ i) 1 "index out of range"
    return rest.drop (i.toNat - 1)

def getMetatable (a : Arguments) : Routine (List Value) := do
  let v ← a.some 1
  match ← metafield v "__metatable" with
  | .nil =>
    return [← ask fun w =>
      match w.metatable? v with
      | some m => .table m
      | none => .nil]
  | shown => return [shown]

def setMetatable (a : Arguments) : Routine (List Value) := do
  let t ← a.table 1
  let m ←
    match a.get? 2 with
    | some .nil => pure none
    | some (.table m) => pure (some m)
    | _ => a.refuseType 2 "nil or table"
  if (← metafield (.table t) "__metatable") ≠ .nil then fail "cannot change a protected metatable"
  change (·.alterTable t fun t => { t with metatable := m })
  return [.table t]

/-- Raises a value. Where it is a text, the place of the caller at the level comes first. -/
def raiseAt (v : Value) (level : Int) : Routine (List Value) :=
  match v with
  | .string s =>
    if 0 < level then .place level.toNat fun here => .raise (.string (here ++ s)) else .raise v
  | _ => .raise v

def error (a : Arguments) : Routine (List Value) := do
  raiseAt (a.get 1) (← a.intOr 2 1)

def assert (a : Arguments) : Routine (List Value) := do
  if (← a.some 1).isTrue then return a.values
  else raiseAt ((a.get? 2).getD (.text "assertion failed!")) 1

def outcome (ok : Bool) (vs : List Value) : Routine (List Value) := return .bool ok :: vs

def protectedCall (a : Arguments) : Routine (List Value) :=
  match a.values with
  | [] => .raise (.text "not enough arguments to pcall")
  | f :: args => .attempt f args none outcome

def handledCall (a : Arguments) : Routine (List Value) :=
  match a.values with
  | f :: h :: args => .attempt f args (some h) outcome
  | _ => .raise (.text "not enough arguments to xpcall")

def collectGarbage (a : Arguments) : Routine (List Value) := do
  match Utf8.decodeLossy (← a.bytesOr 1 (Utf8.encode "collect")) with
  | "count" => return [.float (.ofNat 24)]
  | "step" | "isrunning" => return [.bool true]
  | "incremental" | "generational" => return [.text "incremental"]
  | "collect" | "stop" | "restart" | "setpause" | "setstepmul" => return [.int 0]
  | other => a.refuseText 1 ("invalid option '" ++ other ++ "'")

/-- The function that a chunk is, with a table of globals, or why it is none. -/
def compile (name source : Bytes) (mode : Bytes) (globals : Value) :
    Routine (Except String Value) := do
  let refused (kind : String) : Except String Value :=
    .error ("attempt to load a " ++ kind ++ " chunk (mode is '" ++ Utf8.decodeLossy mode ++ "')")
  let isBinary := source.head? = some 0x1B
  if isBinary && !mode.contains (byte 'b') then return refused "binary"
  if !isBinary && !mode.contains (byte 't') then return refused "text"
  let chunk : Except String Chunk :=
    if isBinary then (Chunk.decode source).mapError (Chunk.refusal name) else .ok ⟨name, source⟩
  match chunk with
  | .error message => return .error message
  | .ok c =>
    match parse c.source with
    | .error (.malformed f) => return .error (c.faultText f)
    | .error .tooDeep => return .error "C stack overflow"
    | .ok f =>
      return .ok (← make fun w =>
        let (cell, w) := w.newCell globals
        let (address, w) := w.newFunction (.code f [cell] c.shown)
        (.function address, w))

def globalTable : Routine Value := ask fun w => .table w.globals

/-- All pieces that a function gives, until it gives nothing. -/
def readPieces (f : Value) (acc : Bytes) : Nat → Routine Bytes
  | 0 => return acc
  | steps + 1 => do
    match Value.first (← callAll f []) with
    | .nil => return acc
    | v =>
      match v.toText? with
      | some [] => return acc
      | some s => readPieces f (acc ++ s) steps
      | none => .raise (.text "reader function must return a string")

def loaded (r : Except String Value) : Routine (List Value) :=
  match r with
  | .ok f => return [f]
  | .error message => return [.nil, .text message]

def load (a : Arguments) : Routine (List Value) := do
  let mode ← a.bytesOr 3 (Utf8.encode "bt")
  let globals ←
    match a.get? 4 with
    | some v => pure v
    | none => globalTable
  match (a.get 1).toText? with
  | some s => loaded (← compile (← a.bytesOr 2 s) s mode globals)
  | none =>
    let f ← a.functionValue 1
    let name ← a.bytesOr 2 (Utf8.encode "=(load)")
    let source ← readPieces f [] (Nat.pow 10 9)
    loaded (← compile name source mode globals)

/-- The text of a Lua file without a first line that begins with `#`. -/
def withoutFirstComment (bs : Bytes) : Bytes :=
  let bs := if [0xEF, 0xBB, 0xBF].isPrefixOf bs then bs.drop 3 else bs
  if bs.head? = some (byte '#') then bs.dropWhile (· ≠ byte '\n') else bs

/-- The content of a file, with why it cannot be read if so. -/
def readFile (name : Bytes) : Routine (Except String Bytes) := do
  let path := Path.ofString (Utf8.decodeLossy name)
  let answer ← askAll fun w =>
    match w.disk.read path with
    | .ok bs => [.string bs]
    | .error f => [.text f.message, .nil]
  match answer with
  | [.string bs] => return .ok bs
  | .string message :: _ =>
    let reason := (Utf8.decodeLossy message).toList
    let plain := String.ofList (reason.takeWhile (· ≠ '('))
    return .error ("cannot open " ++ path.text ++ ": " ++ plain.trimAsciiEnd.toString)
  | _ => return .error ("cannot open " ++ path.text)

/-- The function that a file holds. -/
def compileFile (name mode : Bytes) (globals : Value) : Routine (Except String Value) := do
  match ← readFile name with
  | .error message => return .error message
  | .ok bs => compile (byte '@' :: name) (withoutFirstComment bs) mode globals

def loadFile (a : Arguments) : Routine (List Value) := do
  let name ← a.bytes 1
  let mode ← a.bytesOr 2 (Utf8.encode "bt")
  let globals ←
    match a.get? 3 with
    | some v => pure v
    | none => globalTable
  loaded (← compileFile name mode globals)

def doFile (a : Arguments) : Routine (List Value) := do
  match ← compileFile (← a.bytes 1) (Utf8.encode "bt") (← globalTable) with
  | .ok f => callAll f []
  | .error message => .raise (.text message)

def warn (a : Arguments) : Routine (List Value) := do
  let _ ← a.bytes 1
  return []

/-- The functions by name. -/
def functions : List (String × Native) :=
  [("assert", assert), ("collectgarbage", collectGarbage), ("dofile", doFile), ("error", error),
    ("getmetatable", getMetatable), ("ipairs", ipairs), ("load", load), ("loadfile", loadFile),
    ("next", next), ("pairs", pairs), ("pcall", protectedCall), ("print", print),
    ("rawequal", rawEqual), ("rawget", rawGet), ("rawlen", rawLength), ("rawset", rawSet),
    ("select", select), ("setmetatable", setMetatable), ("tonumber", toNumber),
    ("tostring", toString), ("type", type), ("warn", warn), ("xpcall", handledCall)]

def hidden : List (String × Native) := [("ipairs.next", ipairsNext)]

end UnitCache.Lua.Base
