import UnitCache.Host
import UnitCache.UnitName

namespace UnitCache

inductive UnitSource where
  | memory (text : String)
  /-- A staged file, read when the unit is compiled. -/
  | file (path : Path)
  deriving DecidableEq, Repr

structure NamedUnit where
  name : String
  source : UnitSource
  valid : UnitName.isValid name = true
  deriving DecidableEq, Repr

namespace NamedUnit

def new (name : String) (source : UnitSource) : Except Error NamedUnit :=
  if h : UnitName.isValid name = true then .ok ⟨name, source, h⟩
  else .error (.invalidUnitName name)

def ofText (name text : String) : Except Error NamedUnit := new name (.memory text)

def ofFile (name : String) (path : Path) : Except Error NamedUnit := new name (.file path)

/-- The address of the unit, which compilers name it by in their messages. -/
def uri (u : NamedUnit) : String :=
  match u.source with
  | .memory _ => "string:///" ++ UnitName.resource u.name ++ ".lua"
  | .file path => path.text

def path? (u : NamedUnit) : Option Path :=
  match u.source with
  | .memory _ => none
  | .file path => some path

/-- The source text, as it is on the disk now if it is in a file. -/
def readText (u : NamedUnit) (d : Disk) : Except Error String :=
  match u.source with
  | .memory text => .ok text
  | .file path => (d.readText path).mapError (.io path)

end NamedUnit
end UnitCache
