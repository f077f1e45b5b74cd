import UnitCache.Lua.Library.Base

namespace UnitCache.Lua.Modules

open Routine

def path : String :=
  "/usr/local/share/lua/5.4/?.lua;/usr/local/share/lua/5.4/?/init.lua;/usr/local/lib/lua/5.4/?.lua;" ++
    "/usr/local/lib/lua/5.4/?/init.lua;./?.lua;./?/init.lua"

def nativePath : String := "/usr/local/lib/lua/5.4/?.so;/usr/local/lib/lua/5.4/loadall.so;./?.so"

/-- The separators and marks that paths use. -/
def config : String := "/\n;\n?\n!\n-\n"

/-- A text in which each part is replaced by another. -/
def substitute (part other : Bytes) : Nat → Bytes → Bytes
  | 0, bs => bs
  | steps + 1, bs =>
    if part ≠ [] && part.isPrefixOf bs then other ++ substitute part other steps (bs.drop part.length)
    else
      match bs with
      | [] => []
      | b :: bs => b :: substitute part other steps bs

def replaceAll (part other bs : Bytes) : Bytes := substitute part other (bs.length + 1) bs

/-- The files that the templates of a path give for a name. -/
def candidates (name path sep other : Bytes) : List Bytes :=
  let name := if sep.isEmpty then name else replaceAll sep other name
  (cutAt (byte ';') path).map (replaceAll [byte '?'] name)

def missing (files : List Bytes) : Bytes :=
  (List.intersperse (Utf8.encode "\n\t") (files.map fun f =>
    Utf8.encode "no file '" ++ f ++ Utf8.encode "'")).flatten

/-- The first file that is there. -/
def search (files : List Bytes) : Routine (Option Bytes) := do
  let found ← ask fun w =>
    match files.find? (fun f => w.disk.exists? (.ofString (Utf8.decodeLossy f))) with
    | some f => .string f
    | none => .nil
  match found with
  | .string f => return some f
  | _ => return none

def searchPath (a : Arguments) : Routine (List Value) := do
  let name ← a.bytes 1
  let path ← a.bytes 2
  let sep ← a.bytesOr 3 [byte '.']
  let other ← a.bytesOr 4 [byte '/']
  let files := candidates name path sep other
  match ← search files with
  | some f => return [.string f]
  | none => return [.nil, .string (missing files)]

/-- The files that a field of the package table gives for a name. -/
def packageFiles (a : Arguments) (field : String) (name : Bytes) : Routine (List Bytes) := do
  match (← Operation.index (Value.first a.captured) (.text field) none).toText? with
  | some path => return candidates name path [byte '.'] [byte '/']
  | none => fail ("'package." ++ field ++ "' must be a string")

def searchPreload (a : Arguments) : Routine (List Value) := do
  let name ← a.bytes 1
  match ← Operation.index (← ask fun w => .table w.preload) (.string name) none with
  | .nil =>
    return [.string (Utf8.encode "no field package.preload['" ++ name ++ Utf8.encode "']")]
  | loader => return [loader, .text ":preload:"]

def loadProblem {α : Type} (name file why : Bytes) : Routine α :=
  failBytes (Utf8.encode "error loading module '" ++ name ++ Utf8.encode "' from file '" ++ file ++
    Utf8.encode "':\n\t" ++ why)

def searchSource (a : Arguments) : Routine (List Value) := do
  let name ← a.bytes 1
  let files ← packageFiles a "path" name
  match ← search files with
  | none => return [.string (missing files)]
  | some file =>
    match ← Base.compileFile file (Utf8.encode "bt") (← Base.globalTable) with
    | .ok f => return [f, .string file]
    | .error message => loadProblem name file (Utf8.encode message)

/-- Native libraries are never loaded. -/
def searchNative (root : Bool) (a : Arguments) : Routine (List Value) := do
  let name ← a.bytes 1
  if root && !name.contains (byte '.') then return []
  let files ← packageFiles a "cpath" (if root then name.takeWhile (· ≠ byte '.') else name)
  match ← search files with
  | none => return [.string (missing files)]
  | some file => loadProblem name file (file ++ Utf8.encode ": file too short")

def loadLibrary (a : Arguments) : Routine (List Value) := do
  let file ← a.bytes 1
  let _ ← a.bytes 2
  return [.nil, .string (file ++ Utf8.encode ": cannot open shared object file: " ++
    Utf8.encode "No such file or directory"), .text "open"]

/-- The loader that the first of the searchers finds, with what it says of it. -/
def findLoader (searchers : Nat) (name : Bytes) (said : List Bytes) (i : Nat) :
    Nat → Routine (Value × Value)
  | 0 => notFound
  | steps + 1 => do
    match ← ask fun w => (w.table searchers).getNat i with
    | .nil => notFound
    | s =>
      let answer := Value.adjust 2 (← callAll s [.string name])
      match answer with
      | [.function f, extra] => return (.function f, extra)
      | v :: _ =>
        match v.toText? with
        | some t => findLoader searchers name (said ++ [t]) (i + 1) steps
        | none => findLoader searchers name said (i + 1) steps
      | [] => notFound
where
  notFound : Routine (Value × Value) :=
    failBytes (Utf8.encode "module '" ++ name ++ Utf8.encode "' not found:" ++
      (said.map fun t => Utf8.encode "\n\t" ++ t).flatten)

/-- Gives what is loaded under a name, and loads it first if nothing is. -/
def require (a : Arguments) : Routine (List Value) := do
  let name ← a.bytes 1
  let key : Value := .string name
  let modules ← ask fun w => .table w.loaded
  let known ← Operation.index modules key none
  if known.isTrue then return [known]
  match ← Operation.index (Value.first a.captured) (.text "searchers") none with
  | .table searchers =>
    let (loader, extra) ← findLoader searchers name [] 1 1000000
    let result ← callFirst loader [key, extra] none
    if result ≠ .nil then Operation.setIndex modules key result none
    match ← Operation.index modules key none with
    | .nil =>
      Operation.setIndex modules key (.bool true) none
      return [.bool true, extra]
    | v => return [v, extra]
  | _ => fail "'package.searchers' must be a table"

/-- The searchers in the order in which they are asked. -/
def searchers : List (String × Native) :=
  [("search.preload", searchPreload), ("search.source", searchSource),
    ("search.native", searchNative false), ("search.root", searchNative true)]

def functions : List (String × Native) := [("loadlib", loadLibrary), ("searchpath", searchPath)]

end UnitCache.Lua.Modules
