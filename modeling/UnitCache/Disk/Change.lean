import UnitCache.Disk.Files

namespace UnitCache.Disk

inductive Change where
  | remove (p : Path)
  | makeDirectory (p : Path)
  | write (p : Path) (content : Bytes)
  deriving DecidableEq, Repr

/-- What makes an entry stand at a place. A link is replaced by the file that it stands for. -/
def appearance (d : Disk) (place : Place) : Entry → Option Change
  | .directory => some (.makeDirectory (pathOf place))
  | .file _ content => some (.write (pathOf place) content)
  | .link _ => (d.read (pathOf place)).toOption.map (.write (pathOf place))

/-- Whether something looks the same to someone who opens it. -/
def sameEntry : Entry → Entry → Bool
  | .file _ a, .file _ b => a = b
  | a, b => a = b

/-- The changes from one tree to another: first what is gone, then what came, in the order in which
it came. -/
def changes (old new : Disk) : List Change :=
  let gone := old.entries.filter fun x => (new.look? x.1).isNone
  let came := new.entries.filter fun x => !((old.look? x.1).any (sameEntry x.2))
  gone.map (fun x => .remove (pathOf x.1)) ++
    came.reverse.filterMap (fun x => appearance new x.1 x.2)

end UnitCache.Disk
