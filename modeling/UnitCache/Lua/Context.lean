import UnitCache.Context
import UnitCache.Lua.Library

namespace UnitCache.Lua

/-- A unit that was resolved: its name and the value of its module. -/
structure Loaded where
  name : String
  value : Value

namespace Context

/-- A machine with the standard library. -/
def fresh : Machine := { world := Standard.world {} }

/-- The text of an error value, up to a zero byte. -/
def errorText (m : Machine) (e : Value) : String :=
  let text :=
    match Machine.carryFrom Standard.library m (do return [.string (← Operation.text e)]) with
    | (.finished [.string s], _) => s
    | _ => Operation.plainText e (m.world.typeName e)
  Utf8.decodeLossy (text.takeWhile (· ≠ 0))

def failure (m : Machine) (e : Value) : Error := .lua (.runtime (errorText m e) true)

/-- The values or the error that a run ends with. -/
def outcome : Outcome × Machine → Except Error (List Value) × Machine
  | (.finished vs, m) => (.ok vs, m)
  | (.failed e, m) => (.error (failure m e), m)

/-- Does something from outside of all Lua code. -/
def perform (r : Routine (List Value)) (m : Machine) : Except Error (List Value) × Machine :=
  outcome (Machine.carryFrom Standard.library m r)

/-- Whether a value is a table that is read without metamethods. -/
def plainTable? (w : World) : Value → Option Nat
  | .table a => if (w.table a).metatable.isNone then some a else none
  | _ => none

/-- The value under a key. -/
def field (v : Value) (key : String) (m : Machine) : Except Error Value × Machine :=
  match plainTable? m.world v with
  | some a => (.ok ((m.world.table a).getText key), m)
  | none =>
    let (r, m) := perform (do return [← Operation.index v (.text key) none]) m
    (r.map Value.first, m)

def setField (v : Value) (key : String) (x : Value) (m : Machine) : Except Error Unit × Machine :=
  match plainTable? m.world v with
  | some a => (.ok (), { m with world := m.world.alterTable a (·.setText key x) })
  | none =>
    let (r, m) := perform (do Operation.setIndex v (.text key) x none; return []) m
    (r.map fun _ => (), m)

/-- The name of a value's type, which tells integers from other numbers. -/
def kindName : Value → String
  | .number (.int _) => "integer"
  | v => v.typeName

def wanted (v : Value) (what : String) : Error := .lua (.conversion (kindName v) what)

/-- Goes on with a value that was found. -/
def andThen {α β : Type} (r : Except Error α × Machine) (f : α → Machine → Except Error β × Machine) :
    Except Error β × Machine :=
  match r with
  | (.ok a, m) => f a m
  | (.error e, m) => (.error e, m)

/-- The table in a field. -/
def tableField (v : Value) (key : String) (m : Machine) : Except Error Value × Machine :=
  andThen (field v key m) fun x m =>
    match x with
    | .table a => (.ok (.table a), m)
    | x => (.error (wanted x "table"), m)

def globals (m : Machine) : Value := .table m.world.globals

/-- A table in the package table. -/
def packageTable (key : String) (m : Machine) : Except Error Value × Machine :=
  andThen (tableField (globals m) "package" m) fun package m => tableField package key m

def isDefinedIn (key : String) (m : Machine) (name : String) : Bool :=
  match (andThen (packageTable key m) fun t m => field t name m).1 with
  | .ok v => v ≠ .nil
  | .error _ => false

/-- Whether a unit is injected or loaded. -/
def isDefined (m : Machine) (name : String) : Bool :=
  isDefinedIn "preload" m name || isDefinedIn "loaded" m name

/-- The chunk of an artifact, which is not run yet. -/
def load (name : String) (bytes : Bytes) : Except Error (Chunk × Function) :=
  let chunkName := byte '=' :: Utf8.encode name
  match chunkName.findIdx? (· = 0) with
  | some i =>
    .error (.lua (.runtime
      ("invalid name: nul byte found in provided data at position: " ++ toString i) false))
  | none =>
    if bytes.head? ≠ some 0x1B then
      .error (.lua (.malformed "attempt to load a text chunk (mode is 'b')"))
    else
      match Chunk.decode bytes with
      | .error reason => .error (.lua (.malformed (Chunk.refusal chunkName reason)))
      | .ok c =>
        match parse c.source with
        | .ok f => .ok (c, f)
        | .error _ => .error (.lua (.malformed (Chunk.refusal chunkName Chunk.truncated)))

/-- The function of a chunk, with the globals. -/
def install (c : Chunk) (f : Function) (m : Machine) : Value × Machine :=
  let (cell, w) := m.world.newCell (globals m)
  let (a, w) := w.newFunction (.code f [cell] c.shown)
  (.function a, { m with world := w })

/-- Registers an artifact as the loader of a module, unless there is one. -/
def inject (name : String) (bytes : Bytes) (m : Machine) : Except Error Unit × Machine :=
  if isDefined m name then (.error (.duplicateUnit name), m)
  else
    match load name bytes with
    | .error e => (.error e, m)
    | .ok (c, f) =>
      let (loader, m) := install c f m
      andThen (packageTable "preload" m) fun t m => setField t name loader m

/-- Calls a value that has to be a function. -/
def callFunction (f : Value) (args : List Value) (m : Machine) : Except Error (List Value) × Machine :=
  match f with
  | .function _ => outcome (Machine.callFrom Standard.library m f args)
  | f => (.error (wanted f "function"), m)

/-- Requires a unit that is defined, which runs it the first time. -/
def resolve (name : String) (m : Machine) : Except Error Loaded × Machine :=
  if !isDefined m name then (.error (.unitNotFound name [] []), m)
  else
    andThen (field (globals m) "require" m) fun require m =>
      andThen (callFunction require [.text name] m) fun vs m => (.ok ⟨name, Value.first vs⟩, m)

/-- Calls an exported function of a unit. A unit that is a function itself is called if no name is
given. -/
def callUnit (u : Loaded) (name : String) (args : List Value) (m : Machine) :
    Except Error (List Value) × Machine :=
  let refused : Error :=
    .lua (.runtime ("unit '" ++ u.name ++ "' returned a " ++ kindName u.value ++
      ", which has no function '" ++ name ++ "'") false)
  match u.value with
  | .table _ => andThen (field u.value name m) fun f m => callFunction f args m
  | .function f => if name = "" then callFunction (.function f) args m else (.error refused, m)
  | _ => (.error refused, m)

/-- How Lua machines are execution contexts. What a unit does to files is done to the disk. -/
def kind : ContextKind Machine Loaded where
  isDefined := isDefined
  inject := inject
  resolve name s :=
    let (disk, m) := s
    let (r, m) := resolve name { m with world := { m.world with disk } }
    (r, m.world.disk, m)

end Context
end UnitCache.Lua
