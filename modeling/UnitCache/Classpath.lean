import UnitCache.Host
import UnitCache.UnitName
import UnitCache.Zip.Archive

namespace UnitCache

/-- The source of a module and where it was found. -/
structure ModuleSource where
  name : String
  origin : String
  text : String
  deriving DecidableEq, Repr

inductive ClasspathEntry where
  | directory (path : Path)
  /-- An archive that is held open, with the directory that it had when it was opened. -/
  | archive (path : Path) (file : FileId) (members : List Zip.Member)
  deriving Repr

structure Classpath where
  entries : List ClasspathEntry
  /-- Where outputs are written. -/
  outputRoot : Option Path
  closed : Bool := false
  deriving Repr

namespace Classpath

def isArchiveName (p : Path) : Bool :=
  match p.extension? with
  | some ext => ext.map Char.toLower = "zip".toList
  | none => false

/-- Opens what stands at a path, if it can hold modules. -/
def openEntry (p : Path) : Action (Option ClasspathEntry) := do
  let d := (← get).disk
  if d.isDirectory p then return some (.directory p)
  else if d.isFile p && isArchiveName p then
    match ← Action.reading p (·.openAt p) with
    | .directory => throw (.archive p (.io .isDirectory))
    | .file id content =>
      match Zip.members content with
      | .ok ms => return some (.archive p id ms)
      | .error f => throw (.archive p f)
  else
    if d.exists? p then
      Action.report
        ⟨.warn, "Ignoring classpath entry " ++ p.text ++ ": not a directory or zip archive", []⟩
    return none

/-- Opens all entries in order. A path where nothing is stands for no entry. -/
def openAll : List Path → Action (List ClasspathEntry)
  | [] => return []
  | p :: ps => do
    match ← openEntry p with
    | some e => return e :: (← openAll ps)
    | none => openAll ps

def new (paths : List Path) (outputRoot : Option Path) : Action Classpath := do
  return { entries := ← openAll paths, outputRoot }

def ClasspathEntry.isArchive : ClasspathEntry → Bool
  | .archive .. => true
  | .directory _ => false

def openArchives (c : Classpath) : Nat := c.entries.countP ClasspathEntry.isArchive

/-- The files that may hold a module, the first choice first. -/
def candidates (name : String) : List String :=
  let base := UnitName.resource name
  [base ++ ".lua", base ++ "/init.lua"]

/-- What an entry has under the name of a file. -/
def inEntry (d : Disk) (name candidate : String) :
    ClasspathEntry → Except Error (Option ModuleSource)
  | .directory root =>
    let p := root.join (.ofString candidate)
    if d.isFile p then
      match d.readText p with
      | .ok text => .ok (some ⟨name, p.text, text⟩)
      | .error f => .error (.io p f)
    else .ok none
  | .archive p file members =>
    match Zip.find? members candidate with
    | none => .ok none
    | some m =>
      match Zip.content ((d.contentOf? file).getD []) m with
      | .error (.archive f) => .error (.archive p f)
      | .error (.content f) => .error (.io p f)
      | .ok bs =>
        match Disk.textOf bs with
        | .ok text => .ok (some ⟨name, p.text ++ "!" ++ candidate, text⟩)
        | .error f => .error (.io p f)

/-- The first thing that is there, or the first failure before it. -/
def firstFound {α : Type} : List (Except Error (Option α)) → Except Error (Option α)
  | [] => .ok none
  | .ok none :: rs => firstFound rs
  | r :: _ => r

/-- The module of a name. A name that is not valid is not searched for. -/
def find (c : Classpath) (d : Disk) (name : String) : Except Error (Option ModuleSource) :=
  if c.closed then .error (.configuration "module resolver is closed")
  else if !UnitName.isValid name then .ok none
  else
    firstFound
      (c.entries.flatMap (fun e => (candidates name).map (fun f => inEntry d name f e)))

/-- Writes an output below the output root. -/
def write (c : Classpath) (name : String) (bytes : Bytes) : Action Unit := do
  match c.outputRoot with
  | none => throw (.configuration "no output directory configured")
  | some root =>
    let p := UnitName.path root name UnitName.binaryExtension
    match p.parent? with
    | some dir => Action.makeDirectories dir (.io dir)
    | none => pure ()
    Action.changing p (·.write p bytes)

/-- Lets go of all entries. Closing twice is closing once. -/
def close (c : Classpath) : Classpath :=
  if c.closed then c else { c with entries := [], closed := true }

end Classpath
end UnitCache
