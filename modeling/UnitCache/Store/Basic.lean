import UnitCache.Host
import UnitCache.Store.Resource
import UnitCache.UnitName
/-!
The store of sources and artifacts. A location is read by the first way that finds it: as inline
content, as a resource, as a file, or as a packed file beside it. A file is written only if it
changes, and its former content is kept beside it.
-/
namespace UnitCache

structure Store where
  /-- Asked in this order. -/
  providers : List ResourceProvider := []
  deriving Repr

namespace Store

/-- The content that a location starting with `=` holds itself. -/
def inline? (location : String) : Option String :=
  match location.toList with
  | '=' :: cs => some (String.ofList cs)
  | _ => none

def isPacked (location : String) : Bool := ".gz".toList.isSuffixOf location.toList

/-- The first resource of a name among providers. -/
def resource? (d : Disk) (name : String) :
    List ResourceProvider → Except Error (Option ByteStream)
  | [] => .ok none
  | p :: ps =>
    match p.find? d name with
    | .error f => .error (.io (.ofString name) f)
    | .ok (some s) => .ok (some s)
    | .ok none => resource? d name ps

/-- The file at a location, or the packed file beside it. -/
def fileStream (d : Disk) (location : String) : Except Error ByteStream :=
  match d.openAt (.ofString location) with
  | .ok o => .ok (ResourceProvider.streamOf o)
  | .error .notFound =>
    let packed := location ++ ".gz"
    match d.openAt (.ofString packed) with
    | .ok o => .ok (Gzip.unpack (ResourceProvider.streamOf o))
    | .error .notFound => .error (.resourceNotFound location)
    | .error f => .error (.io (.ofString packed) f)
  | .error f => .error (.io (.ofString location) f)

/-- The stream of a location, as found. -/
def stream (s : Store) (d : Disk) (location : String) : Except Error ByteStream :=
  if location = "" then .error (.configuration "the location cannot be empty")
  else
    match inline? location with
    | some text => .ok (.ofBytes (Utf8.encode text))
    | none => do
      match ← resource? d location s.providers with
      | some r => return r
      | none =>
        match ← resource? d ("/" ++ location) s.providers with
        | some r => return r
        | none => fileStream d location

/-- The bytes of a location. They are unpacked once more if its name says that they are packed. -/
def readBytes (s : Store) (d : Disk) (location : String) : Except Error Bytes := do
  let found ← s.stream d location
  let found := if isPacked location then Gzip.unpack found else found
  match found.readAll with
  | .ok bs => return bs
  | .error f => throw (.io (.ofString location) f)

/-- The text of a location. Inline content is taken as it is. -/
def readText (s : Store) (d : Disk) (location : String) : Except Error String :=
  match inline? location with
  | some text => .ok text
  | none => do
    let bs ← s.readBytes d location
    match Utf8.decode bs with
    | .ok text => return text
    | .error f => throw (.io (.ofString location) (.badText f))

/-- The directory that a file is written to. -/
def directoryOf (p : Path) : Path :=
  match p.parent? with
  | some q => if q.isEmpty then ⟨['.']⟩ else q
  | none => ⟨['.']⟩

/-- After a write that failed: takes away what it may have left, and puts the backup back. -/
def undoWrite (p : Path) (fault : Fault) (backup : Option Path) : Action Unit := do
  Action.report ⟨.error, "Unable to write " ++ p.text ++ ": " ++ fault.message, []⟩
  match (← get).disk.remove p with
  | .ok d => Action.setDisk d
  | .error .notFound => pure ()
  | .error f =>
    Action.report ⟨.error, "Unable to remove partial " ++ p.text ++ ": " ++ f.message, []⟩
  match backup with
  | none => pure ()
  | some b =>
    match (← get).disk.rename b p with
    | .ok d => Action.setDisk d
    | .error f =>
      Action.report
        ⟨.error, "Unable to restore " ++ p.text ++ " from " ++ b.text ++ ": " ++ f.message, []⟩

/-- Puts new content where the old one, if any, is out of the way. -/
def putContent (p : Path) (content : Bytes) (backup : Option Path) : Action Bool := do
  match (← get).disk.write p content with
  | .ok d => Action.setDisk d; return true
  | .error f => undoWrite p f backup; throw (.io p f)

/-- Gives a file its content unless it has it already; tells whether the file changed. The content
that is replaced moves to the backup of the file. -/
def writeBytes (p : Path) (content : Bytes) : Action Bool := do
  let dir := directoryOf p
  if !(← Action.ask (·.isDirectory dir)) then
    Action.makeDirectories dir
      (fun f => .configuration ("unable to create directory " ++ dir.text ++ ": " ++ f.message))
  if ← Action.ask (·.exists? p) then
    let old ← Action.reading p (·.read p)
    if old = content then return false
    let b := UnitName.backup p
    Action.changing b (·.rename p b)
    putContent p content (some b)
  else putContent p content none

def writeText (p : Path) (text : String) : Action Bool := writeBytes p (Utf8.encode text)

end Store
end UnitCache
