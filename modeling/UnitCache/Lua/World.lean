import UnitCache.Disk.Files
import UnitCache.Lua.Random
import UnitCache.Lua.Table

namespace UnitCache.Lua

/-- A function with what it was made of. -/
inductive Callable where
  /-- Lua code with the cells of the variables around it, the innermost first, and the short name of
  its chunk. -/
  | code (f : Function) (env : List Nat) (chunk : Bytes)
  /-- A library function with values of its own. -/
  | native (name : String) (captured : List Value)

instance : Inhabited Callable := ⟨.native "" []⟩

inductive ThreadStatus where
  | suspended
  | running
  /-- It waits for a thread that it resumed. -/
  | normal
  | dead
  deriving DecidableEq, Repr, Inhabited

namespace ThreadStatus

def label : ThreadStatus → String
  | .suspended => "suspended"
  | .running => "running"
  | .normal => "normal"
  | .dead => "dead"

end ThreadStatus

structure World where
  tables : Array Table := #[]
  functions : Array Callable := #[]
  cells : Array Value := #[]
  /-- The main thread is the first one. -/
  threads : Array ThreadStatus := #[.running]
  current : Nat := 0
  /-- The table of globals. -/
  globals : Nat := 0
  /-- The table of loaded modules. -/
  loaded : Nat := 0
  /-- The table of loaders for modules that are not loaded yet. -/
  preload : Nat := 0
  /-- The metatable of all strings. -/
  stringMetatable : Option Nat := none
  /-- The metatable of all files. -/
  fileMetatable : Option Nat := none
  random : Random := .seeded 0 0
  disk : Disk
  /-- What was written to the standard output, the latest part first. -/
  written : List Bytes := []
  /-- What is to be written there with the next line that is printed, or at the end. -/
  buffered : List Bytes := []
  /-- What was written to the standard error, the latest part first. -/
  reported : List Bytes := []

namespace World

def output (w : World) : Bytes := w.written.reverse.flatten

/-- What is written at the end. -/
def unwritten (w : World) : Bytes := w.buffered.reverse.flatten

def errorOutput (w : World) : Bytes := w.reported.reverse.flatten

def write (bs : Bytes) (w : World) : World := { w with buffered := bs :: w.buffered }

def report (bs : Bytes) (w : World) : World := { w with reported := bs :: w.reported }

/-- Writes what was held back. -/
def flush (w : World) : World := { w with written := w.buffered ++ w.written, buffered := [] }

def table (w : World) (a : Nat) : Table := w.tables[a]?.getD {}

def newTable (t : Table) (w : World) : Nat × World :=
  (w.tables.size, { w with tables := w.tables.push t })

/-- Changes a table in place. -/
def alterTable (a : Nat) (f : Table → Table) (w : World) : World :=
  { w with tables := w.tables.modify a f }

def newFunction (c : Callable) (w : World) : Nat × World :=
  (w.functions.size, { w with functions := w.functions.push c })

/-- The library function of a name, which is made if there is none. -/
def sharedFunction (name : String) (w : World) : Nat × World :=
  let isIt : Callable → Bool
    | .native n captured => n = name && captured.isEmpty
    | .code .. => false
  match w.functions.findIdx? isIt with
  | some a => (a, w)
  | none => w.newFunction (.native name [])

def newCell (v : Value) (w : World) : Nat × World :=
  (w.cells.size, { w with cells := w.cells.push v })

/-- New cells for values, the last one first, in front of others. -/
def newCells (env : List Nat) (w : World) : List Value → List Nat × World
  | [] => (env, w)
  | v :: vs =>
    let (a, w) := w.newCell v
    newCells (a :: env) w vs

def cell (w : World) (a : Nat) : Value := w.cells[a]?.getD .nil

def setCell (a : Nat) (v : Value) (w : World) : World :=
  { w with cells := w.cells.setIfInBounds a v }

def metatable? (w : World) : Value → Option Nat
  | .table a => (w.table a).metatable
  | .string _ => w.stringMetatable
  | .file _ => w.fileMetatable
  | _ => none

/-- A field of the metatable of a value, nil if there is none. -/
def metafield (w : World) (v : Value) (name : String) : Value :=
  match w.metatable? v with
  | some m => (w.table m).getText name
  | none => .nil

/-- The name of the type of a value, which its metatable may give. -/
def typeName (w : World) (v : Value) : Bytes :=
  match v with
  | .table _ | .file _ =>
    match w.metafield v "__name" with
    | .string n => n
    | _ => Utf8.encode v.typeName
  | _ => Utf8.encode v.typeName

end World
end UnitCache.Lua
