import UnitCache.Disk.Files
import UnitCache.Gzip.Member

namespace UnitCache

inductive ResourceProvider where
  /-- Files below some roots; the first root that has the file wins. -/
  | directories (roots : List Path)
  /-- Content under its exact name. -/
  | embedded (entries : List (String × Bytes))
  deriving Repr

namespace ResourceProvider

/-- Names that stay below the root they are looked up in. -/
def isPlainName (p : Path) : Bool :=
  !p.isEmpty && p.components.all fun
    | .name _ => true
    | _ => false

/-- What reading an opened file gives. -/
def streamOf : Disk.Opened → ByteStream
  | .file _ content => .ofBytes content
  | .directory => ⟨[], some .isDirectory⟩

/-- The stream of a name, none if it is not known; a fault if it is there but cannot be opened. -/
def find? (d : Disk) (name : String) : ResourceProvider → Except Fault (Option ByteStream)
  | .directories roots =>
    let p := Path.ofString name
    if !isPlainName p then .ok none
    else
      match roots.find? (fun r => d.isFile (r.join p)) with
      | none => .ok none
      | some r => (d.openAt (r.join p)).map (fun o => some (streamOf o))
  | .embedded entries => .ok ((entries.lookup name).map .ofBytes)

end ResourceProvider
end UnitCache
