import UnitCache.Path.Basic

namespace UnitCache.UnitName

/-- Extension of staged sources. -/
def sourceExtension : List Char := "lua".toList

/-- Extension of compiled artifacts. -/
def binaryExtension : List Char := "luac".toList

/-- Added to the file name of the content that a write replaces. -/
def backupSuffix : List Char := ".bak".toList

def segments (name : String) : List (List Char) := cutAt '.' name.toList

/-- A segment that is one plain file name. -/
def isPlain (segment : List Char) : Bool :=
  !segment.contains '/' && !segment.contains '\\' &&
    Path.components ⟨segment⟩ = [.name segment]

/-- Names whose segments all stay below a root once the dots become separators. -/
def isValid (name : String) : Bool := (segments name).all isPlain

/-- The file of a unit: `pkg.sub.Foo` is `root/pkg/sub/Foo.ext`. -/
def path (root : Path) (name : String) (ext : List Char) : Path :=
  ((segments name).foldl (fun p s => p.join ⟨s⟩) root).setExtension ext

/-- The name with slashes in place of dots. -/
def resource (name : String) : String := String.ofList (pasteWith '/' (segments name))

/-- Where the former content of a file is kept, beside it. -/
def backup (p : Path) : Path := p.withFileName ((p.fileName?.getD []) ++ backupSuffix)

end UnitCache.UnitName
