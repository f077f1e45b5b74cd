import UnitCache.Disk.Walk

namespace UnitCache.Disk

/-- What opening a path for reading gives. A directory can be opened, but not read. -/
inductive Opened where
  | file (id : FileId) (content : Bytes)
  | directory
  deriving DecidableEq, Repr

def openAt (d : Disk) (p : Path) : Except Fault Opened :=
  match d.stat p with
  | .error e => .error e
  | .ok (_, .file id content) => .ok (.file id content)
  | .ok (_, .directory) => .ok .directory
  | .ok (_, .link _) => .error .tooManyLinks

def Opened.read : Opened → Except Fault Bytes
  | .file _ content => .ok content
  | .directory => .error .isDirectory

def read (d : Disk) (p : Path) : Except Fault Bytes := d.openAt p >>= Opened.read

/-- Bytes as text. -/
def textOf (bs : Bytes) : Except Fault String :=
  match Utf8.decode bs with
  | .ok s => .ok s
  | .error _ => .error .notText

def readText (d : Disk) (p : Path) : Except Fault String := d.read p >>= textOf

/-- Gives a file its content, making the file if there is none. -/
def write (d : Disk) (p : Path) (content : Bytes) : Except Fault Disk :=
  match d.find .writable p with
  | .error e => .error e
  | .ok ⟨_, some .directory⟩ => .error .isDirectory
  | .ok ⟨place, _⟩ => .ok (d.setContent place content)

def makeDirectory (d : Disk) (p : Path) : Except Fault Disk :=
  match d.find .name p with
  | .error e => .error e
  | .ok ⟨_, some _⟩ => .error .exists
  | .ok ⟨place, none⟩ => .ok (d.set place .directory)

/-- Makes the first of some paths, each of which is the parent of the one before it, after those
that it needs. -/
def makeFirst (d : Disk) : List Path → Disk × Except Fault Unit
  | [] => (d, .ok ())
  | p :: parents =>
    if p.isEmpty then (d, .ok ())
    else
      match d.makeDirectory p with
      | .ok d => (d, .ok ())
      | .error .notFound =>
        match makeFirst d parents with
        | (d, .error e) => (d, .error e)
        | (d, .ok ()) =>
          match d.makeDirectory p with
          | .ok d => (d, .ok ())
          | .error e => (d, if d.isDirectory p then .ok () else .error e)
      | .error e => (d, if d.isDirectory p then .ok () else .error e)

/-- Makes a directory and all its missing parents. -/
def makeDirectories (d : Disk) (p : Path) : Disk × Except Fault Unit := d.makeFirst p.ancestors

/-- Gives a file or link another name. What had that name before loses it. -/
def rename (d : Disk) (p q : Path) : Except Fault Disk :=
  match d.find .name p, d.find .name q with
  | .error e, _ => .error e
  | _, .error e => .error e
  | .ok ⟨_, none⟩, _ => .error .notFound
  | .ok ⟨_, some .directory⟩, _ => .error .isDirectory
  | _, .ok ⟨_, some .directory⟩ => .error .isDirectory
  | .ok ⟨source, some e⟩, .ok ⟨target, _⟩ =>
    if source = target then .ok d
    else
      let d := d.release target
      .ok ({ d with entries := d.entries.filter (fun x => x.1 ≠ source) }.set target e)

/-- Takes a file or link away. -/
def remove (d : Disk) (p : Path) : Except Fault Disk :=
  match d.find .name p with
  | .error e => .error e
  | .ok ⟨_, none⟩ => .error .notFound
  | .ok ⟨_, some .directory⟩ => .error .isDirectory
  | .ok ⟨place, some _⟩ => if endsInSlash p then .error .notDirectory else .ok (d.erase place)

/-- Takes away whatever stands at a path, with all that is below it. -/
def removeAll (d : Disk) (p : Path) : Except Fault Disk :=
  match d.find .name p with
  | .error e => .error e
  | .ok ⟨_, none⟩ => .error .notFound
  | .ok ⟨place, some _⟩ =>
    let gone := d.entries.filter (fun x => place.isPrefixOf x.1)
    let d := gone.foldl (fun d x => d.release x.1) d
    .ok { d with entries := d.entries.filter (fun x => !place.isPrefixOf x.1) }

def makeLink (d : Disk) (p target : Path) : Except Fault Disk :=
  match d.find .name p with
  | .error e => .error e
  | .ok ⟨_, some _⟩ => .error .exists
  | .ok ⟨place, none⟩ => .ok (d.set place (.link target))

/-- All that stands below a place, with the names on the way to it. -/
def below (d : Disk) (place : Place) : List (Place × Entry) :=
  d.entries.filterMap fun x =>
    if place.isPrefixOf x.1 ∧ x.1 ≠ place then some (x.1.drop place.length, x.2) else none

end UnitCache.Disk
