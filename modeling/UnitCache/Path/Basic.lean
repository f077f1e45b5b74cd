import UnitCache.Text.Pieces
/-!
Paths as text. A path is kept as it was written; its components are read off it. Empty pieces and
pieces `.` name nothing, except a `.` that a relative path starts with.
-/
namespace UnitCache

structure Path where
  chars : List Char
  deriving DecidableEq, Repr, Inhabited

namespace Path

def ofString (s : String) : Path := ⟨s.toList⟩

def text (p : Path) : String := String.ofList p.chars

def isEmpty (p : Path) : Bool := p.chars.isEmpty

def isAbsolute (p : Path) : Bool := p.chars.head? = some '/'

inductive Component where
  | root
  | here
  | up
  | name (n : List Char)
  deriving DecidableEq, Repr

/-- The pieces after the root of an absolute path, or all pieces of a relative one. -/
def body (p : Path) : List (List Char) :=
  if p.isAbsolute then cutAt '/' p.chars.tail else cutAt '/' p.chars

def ofBody (absolute : Bool) (ps : List (List Char)) : Path :=
  ⟨if absolute then '/' :: pasteWith '/' ps else pasteWith '/' ps⟩

/-- A piece that names nothing where it stands. -/
def isNoise (piece : List Char) : Bool := piece = [] || piece = ['.']

def Component.ofPiece (piece : List Char) : Option Component :=
  if isNoise piece then none
  else if piece = ['.', '.'] then some .up
  else some (.name piece)

def components (p : Path) : List Component :=
  if p.isAbsolute then .root :: p.body.filterMap Component.ofPiece
  else
    match p.body with
    | ['.'] :: ps => .here :: ps.filterMap Component.ofPiece
    | ps => ps.filterMap Component.ofPiece

/-- Paths name the same thing lexically when their components agree. -/
def same (p q : Path) : Bool := p.components = q.components

/-- Takes pieces without a name off the end of a body, which is given back to front. -/
def dropNoise (absolute : Bool) : List (List Char) → List (List Char)
  | [] => []
  | [p] => if p = [] || (absolute && p = ['.']) then [] else [p]
  | p :: q :: ps => if isNoise p then dropNoise absolute (q :: ps) else p :: q :: ps

/-- The body back to front, its last component in front. -/
def reversedBody (p : Path) : List (List Char) := dropNoise p.isAbsolute p.body.reverse

/-- The path without its last component; the root and the empty path have none. -/
def parent? (p : Path) : Option Path :=
  match p.reversedBody with
  | [] => none
  | _ :: ps => some (ofBody p.isAbsolute (dropNoise p.isAbsolute ps).reverse)

def fileName? (p : Path) : Option (List Char) :=
  match p.reversedBody with
  | [] => none
  | n :: _ => if n = ['.'] || n = ['.', '.'] then none else some n

/-- A file name cut at its last dot; a dot in front starts no extension. -/
def splitExtension (n : List Char) : List Char × Option (List Char) :=
  match n.reverse.span (· ≠ '.') with
  | (ext, _ :: c :: before) => ((c :: before).reverse, some ext.reverse)
  | _ => (n, none)

def extension? (p : Path) : Option (List Char) := p.fileName?.bind (fun n => (splitExtension n).2)

/-- `q` below `p`; an absolute `q` stands for itself. -/
def join (p q : Path) : Path :=
  if q.isAbsolute then q
  else if p.chars = [] ∨ p.chars.getLast? = some '/' then ⟨p.chars ++ q.chars⟩
  else ⟨p.chars ++ '/' :: q.chars⟩

/-- The path with its last name replaced, or with a name added if it ends in none. -/
def withFileName (p : Path) (n : List Char) : Path :=
  match p.fileName?, p.parent? with
  | some _, some q => q.join ⟨n⟩
  | _, _ => p.join ⟨n⟩

/-- The path with the extension of its last name replaced. An empty extension takes it away. -/
def setExtension (p : Path) (ext : List Char) : Path :=
  match p.fileName?, p.reversedBody with
  | some n, _ :: ps =>
    let stem := (splitExtension n).1
    let q := ofBody p.isAbsolute (stem :: ps).reverse
    if ext = [] then q else ⟨q.chars ++ '.' :: ext⟩
  | _, _ => p

def Component.path : Component → Path
  | .root => ⟨['/']⟩
  | .here => ⟨['.']⟩
  | .up => ⟨['.', '.']⟩
  | .name n => ⟨n⟩

/-- The path from the root, given the working directory, without looking at any file. Exactly two
leading slashes are kept, and so is a trailing one. -/
def absolute? (cwd p : Path) : Option Path :=
  if p.isEmpty then none
  else
    let cs := p.components
    let cs := if cs.head? = some .here then cs.tail else cs
    let two := p.chars.take 2 = ['/', '/'] && p.chars[2]? ≠ some '/'
    let start : Path := if p.isAbsolute then ⟨if two then ['/', '/'] else []⟩ else cwd
    let cs := if two then cs.tail else cs
    let q := cs.foldl (fun q c => q.join c.path) start
    some (if p.chars.getLast? = some '/' then q.join ⟨[]⟩ else q)

theorem length_dropNoise_le (absolute : Bool) (ps : List (List Char)) :
    (dropNoise absolute ps).length ≤ ps.length := by
  fun_induction dropNoise absolute ps <;> simp_all
  omega

/-- The path after all ancestors that its components allow, itself first. -/
def ancestorsOf (absolute : Bool) (ps : List (List Char)) : List Path :=
  match _h : dropNoise absolute ps with
  | [] => [ofBody absolute []]
  | q :: qs => ofBody absolute (q :: qs).reverse :: ancestorsOf absolute qs
termination_by ps.length
decreasing_by
  have := length_dropNoise_le absolute ps
  rw [_h] at this
  simp at this
  omega

/-- The path as written and then each path with one component fewer. -/
def ancestors (p : Path) : List Path := p :: (ancestorsOf p.isAbsolute p.body.reverse).tail

end Path
end UnitCache
