import UnitCache.Diagnostic
import UnitCache.Fault
import UnitCache.Path.Basic
import UnitCache.Text.Quoted

namespace UnitCache

/-- Failures of the Lua interpreter and of conversions from its values. -/
inductive LuaError where
  /-- An error raised by running code. A traced one was raised inside a call. -/
  | runtime (text : String) (traced : Bool)
  | malformed (text : String)
  /-- A value of one type where another was wanted. -/
  | conversion (source target : String)
  deriving DecidableEq, Repr

def LuaError.message : LuaError → String
  | .runtime text _ => "runtime error: " ++ text
  | .malformed text => "syntax error: " ++ text
  | .conversion source target => "error converting Lua " ++ source ++ " to " ++ target

/-- Why an archive is refused. -/
inductive ArchiveFault where
  | invalid (reason : String)
  | unsupported (reason : String)
  | io (fault : Fault)
  deriving DecidableEq, Repr

def ArchiveFault.message : ArchiveFault → String
  | .invalid reason => "invalid Zip archive: " ++ reason
  | .unsupported reason => "unsupported Zip archive: " ++ reason
  | .io fault => "i/o error: " ++ fault.message

inductive Error where
  /-- A location that no way of reading finds. -/
  | resourceNotFound (location : String)
  /-- A unit that its compile did not produce, or that a context does not define. -/
  | unitNotFound (name : String) (diagnostics : List Diagnostic) (produced : List String)
  | io (path : Path) (fault : Fault)
  | configuration (text : String)
  /-- A configuration file that cannot be understood. -/
  | badConfiguration (path : Path)
  | invalidUnitName (name : String)
  | duplicateUnit (name : String)
  | archive (path : Path) (fault : ArchiveFault)
  | lua (error : LuaError)
  deriving DecidableEq, Repr

namespace Error

/-- Why a unit is missing: its errors, or else what was produced in its place. -/
def describeMissing (diagnostics : List Diagnostic) (produced : List String) : String :=
  let errors := (diagnostics.filter Diagnostic.isError).map Diagnostic.text
  if !errors.isEmpty then "compilation failed: " ++ "; ".intercalate errors
  else if produced.isEmpty then "no artifacts produced"
  else "produced " ++ ", ".intercalate produced

def message : Error → String
  | .resourceNotFound location => "Resource not found: " ++ location
  | .unitNotFound name ds produced =>
    "Unit not found: " ++ name ++ " (" ++ describeMissing ds produced ++ ")"
  | .io path fault => "IO error on '" ++ path.text ++ "': " ++ fault.message
  | .configuration text => "Configuration error: " ++ text
  | .badConfiguration path => "Configuration error: " ++ path.text
  | .invalidUnitName name => "Invalid unit name: " ++ Quoted.encode name
  | .duplicateUnit name => "Unit already defined in execution context: " ++ name
  | .archive path fault =>
    "Failed to read classpath archive '" ++ path.text ++ "': " ++ fault.message
  | .lua error => "Lua error: " ++ error.message

/-- A missing unit whose source has errors, rather than one compiled under other names. -/
def hasCompileErrors : Error → Bool
  | .unitNotFound _ ds _ => hasErrors ds
  | _ => false

end Error
end UnitCache
