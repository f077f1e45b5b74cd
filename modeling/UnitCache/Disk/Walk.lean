import UnitCache.Disk.Basic

namespace UnitCache.Disk

/-- The longest name, in bytes. -/
def maxName : Nat := 255

/-- A path must be shorter than this, in bytes. -/
def maxPath : Nat := 4096

/-- How many links one walk may follow. -/
def maxLinks : Nat := 40

def width (cs : List Char) : Nat := (cs.map Char.utf8Size).foldl (· + ·) 0

/-- What is wanted of the last name. -/
inductive Last where
  /-- What it stands for: a link is followed. -/
  | target
  /-- A file to be written, through a link if there is one, and made if there is none. -/
  | writable
  /-- The name itself, link or not. -/
  | name
  deriving DecidableEq

/-- Where a walk ends. All directories on the way to it exist. -/
structure Spot where
  place : Place
  entry : Option Entry
  deriving DecidableEq, Repr

def endsInSlash (p : Path) : Bool := p.chars.getLast? = some '/'

/-- The names of a path; empty ones are skipped. -/
def names (p : Path) : List Name := (cutAt '/' p.chars).filter (· ≠ [])

/-- Follows names from a directory. `slash` says that a slash follows the last one, which then has
to be a directory. -/
def walk (d : Disk) (last : Last) (links : Nat) (here : Place) (slash : Bool) :
    List Name → Except Fault Spot
  | [] => .ok ⟨here, d.look? here⟩
  | n :: rest =>
    if n = ['.'] then walk d last links here slash rest
    else if n = ['.', '.'] then walk d last links here.dropLast slash rest
    else if rest = [] ∧ slash ∧ last = .writable then .error .isDirectory
    else if maxName < width n then .error .nameTooLong
    else
      let place := here ++ [n]
      match d.look? place with
      | none => if rest = [] then .ok ⟨place, none⟩ else .error .notFound
      | some .directory => walk d last links place slash rest
      | some (.file id content) =>
        if rest = [] ∧ (!slash ∨ last = .name) then .ok ⟨place, some (.file id content)⟩
        else .error .notDirectory
      | some (.link target) =>
        if rest = [] ∧ last = .name then .ok ⟨place, some (.link target)⟩
        else
          match links with
          | 0 => .error .tooManyLinks
          | links + 1 =>
            walk d last links (if target.isAbsolute then [] else here)
              (slash || (rest = [] && endsInSlash target)) (names target ++ rest)
termination_by ns => (links, ns.length)

/-- Follows a path from the root or the working directory. -/
def find (d : Disk) (last : Last) (p : Path) : Except Fault Spot :=
  if p.chars.contains '\x00' then .error .nulInPath
  else if p.isEmpty then .error .notFound
  else if maxPath ≤ width p.chars then .error .nameTooLong
  else walk d last maxLinks (if p.isAbsolute then [] else d.cwd) (endsInSlash p) (names p)

/-- What a path stands for, through links. -/
def stat (d : Disk) (p : Path) : Except Fault (Place × Entry) :=
  match d.find .target p with
  | .error e => .error e
  | .ok ⟨_, none⟩ => .error .notFound
  | .ok ⟨place, some e⟩ => .ok (place, e)

def exists? (d : Disk) (p : Path) : Bool := (d.stat p).toBool

def isDirectory (d : Disk) (p : Path) : Bool :=
  match d.stat p with
  | .ok (_, .directory) => true
  | _ => false

def isFile (d : Disk) (p : Path) : Bool :=
  match d.stat p with
  | .ok (_, .file _ _) => true
  | _ => false

/-- A place as a path from the root. -/
def pathOf (place : Place) : Path := ⟨'/' :: pasteWith '/' place⟩

/-- The path from the root without links, `.` and `..` of something that exists. -/
def canonical (d : Disk) (p : Path) : Except Fault Path := (d.stat p).map (fun x => pathOf x.1)

end UnitCache.Disk
