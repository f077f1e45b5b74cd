import UnitCache.Disk.Files
import UnitCache.Error

namespace UnitCache

structure Host where
  disk : Disk
  log : List LogRecord := []

/-- Something to do on a host that may fail. -/
abbrev Action (α : Type) := ExceptT Error (StateM Host) α

namespace Action

def report (r : LogRecord) : Action Unit := modify fun h => { h with log := h.log ++ [r] }

/-- A question about the file tree. -/
def ask {α : Type} (f : Disk → α) : Action α := do return f (← get).disk

/-- The value of an attempt, or the error that its fault stands for. -/
def orFail {α : Type} (blame : Fault → Error) : Except Fault α → Action α
  | .ok a => return a
  | .error e => throw (blame e)

def setDisk (d : Disk) : Action Unit := modify fun h => { h with disk := d }

/-- Reads from the file tree. -/
def reading {α : Type} (p : Path) (f : Disk → Except Fault α) : Action α := do
  orFail (.io p) (f (← get).disk)

/-- Changes the file tree, or leaves it as it is and fails. -/
def changing (p : Path) (f : Disk → Except Fault Disk) : Action Unit := do
  setDisk (← orFail (.io p) (f (← get).disk))

/-- Makes a directory with its parents. -/
def makeDirectories (p : Path) (blame : Fault → Error) : Action Unit := do
  let (d, r) := (← get).disk.makeDirectories p
  setDisk d
  orFail blame r

end Action
end UnitCache
