import UnitCache.Lua.Library.CodePoints
import UnitCache.Lua.Library.Files
import UnitCache.Lua.Library.Maths
import UnitCache.Lua.Library.Modules
import UnitCache.Lua.Library.Tables
import UnitCache.Lua.Library.Threads
import UnitCache.Lua.Machine

namespace UnitCache.Lua

namespace Standard

/-- A module with what is in it. -/
structure Module where
  name : String
  functions : List (String × Native)
  constants : List (String × Value) := []

def modules : List Module :=
  [⟨"coroutine", Threads.functions, []⟩,
    ⟨"table", Tables.functions, []⟩,
    ⟨"io", Files.functions, Files.constants⟩,
    ⟨"os", Files.systemFunctions, []⟩,
    ⟨"string", Strings.functions ++
      [("pack", Files.unavailable), ("packsize", Files.unavailable), ("unpack", Files.unavailable)],
      []⟩,
    ⟨"math", Maths.functions, Maths.constants⟩,
    ⟨"utf8", CodePoints.functions, [("charpattern", CodePoints.pattern)]⟩]

/-- Functions under the name of their module. -/
def qualified (module : String) (fs : List (String × Native)) : List (String × Native) :=
  fs.map fun (n, f) => (module ++ "." ++ n, f)

/-- All library functions, by the name that stands for them in the world. -/
def natives : List (String × Native) :=
  Base.functions ++ [("require", Modules.require)] ++ modules.flatMap (fun m => qualified m.name m.functions) ++
    qualified "package" (Modules.functions ++ Modules.searchers) ++
    qualified "metamethod" Strings.metamethods ++ qualified "file" (Files.methods ++ Files.metamethods) ++
    Base.hidden ++ Strings.hidden ++ Threads.hidden ++ CodePoints.hidden ++ Files.hidden

def library : Library := fun name captured args =>
  match natives.lookup name with
  | some f => f ⟨name, args, captured⟩
  | none => .fail "no such library function"

/-- New function values, each with values of its own. -/
def addFunctions (captured : List Value) (w : World) :
    List (String × String) → List (String × Value) × World
  | [] => ([], w)
  | (field, name) :: rest =>
    let (a, w) := w.newFunction (.native name captured)
    let (fs, w) := addFunctions captured w rest
    ((field, .function a) :: fs, w)

/-- The fields of functions, with the names that stand for them. -/
def named (module : String) (fs : List (String × Native)) : List (String × String) :=
  fs.map fun (n, _) => (n, module ++ "." ++ n)

def addTable (fs : List (String × Value)) (w : World) : Nat × World := w.newTable (.ofFields fs)

def addModule (m : Module) (w : World) : (String × Value) × World :=
  let (fs, w) := addFunctions [] w (named m.name m.functions)
  let (a, w) := addTable (fs ++ m.constants) w
  ((m.name, .table a), w)

def addModules (w : World) : List Module → List (String × Value) × World
  | [] => ([], w)
  | m :: ms =>
    let (field, w) := addModule m w
    let (fields, w) := addModules w ms
    (field :: fields, w)

/-- The package table, which is filled after the functions that refer to it were made. -/
def addPackage (loaded preload : Nat) (w : World) : Nat × World :=
  let (package, w) := w.newTable {}
  let own := [Value.table package]
  let (searchers, w) := addFunctions own w (named "package" Modules.searchers)
  let (list, w) := w.newTable (.ofItems (searchers.map Prod.snd) 0)
  let (fs, w) := addFunctions own w (named "package" Modules.functions)
  let fields : List (String × Value) :=
    fs ++ [("loaded", .table loaded), ("preload", .table preload), ("searchers", .table list),
      ("path", .text Modules.path), ("cpath", .text Modules.nativePath),
      ("config", .text Modules.config)]
  (package, w.alterTable package fun _ => .ofFields fields)

/-- The world with all libraries. -/
def world (disk : Disk) : World :=
  let w : World := { disk }
  let (loaded, w) := w.newTable {}
  let (preload, w) := w.newTable {}
  let (globals, w) := w.newTable {}
  let (package, w) := addPackage loaded preload w
  let (modules, w) := addModules w modules
  let modules := ("package", .table package) :: modules
  let (base, w) := addFunctions [] w (Base.functions.map fun (n, _) => (n, n))
  let (require, w) := w.newFunction (.native "require" [.table package])
  let all : List (String × Value) :=
    base ++ [("require", .function require), ("_VERSION", .text "Lua 5.4"), ("_G", .table globals)] ++
      modules
  let w := w.alterTable globals fun _ => .ofFields all
  let w := w.alterTable loaded fun _ => .ofFields (("_G", .table globals) :: modules)
  let string := (modules.lookup "string").getD .nil
  let (handlers, w) := addFunctions [] w (named "metamethod" Strings.metamethods)
  let (stringMetatable, w) := addTable (("__index", string) :: handlers) w
  let (methods, w) := addFunctions [] w (named "file" Files.methods)
  let (methodTable, w) := addTable methods w
  let (handlers, w) := addFunctions [] w (named "file" Files.metamethods)
  let (fileMetatable, w) :=
    addTable ([("__index", .table methodTable), ("__name", .text "FILE*")] ++ handlers) w
  { w with
    globals, loaded, preload
    stringMetatable := some stringMetatable
    fileMetatable := some fileMetatable }

end Standard
end UnitCache.Lua
