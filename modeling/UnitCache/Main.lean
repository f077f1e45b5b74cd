import UnitCache.Cli.Sources
import UnitCache.Disk.Change

namespace UnitCache.Main

open Cli

def environment : IO Environment := do
  let names := [Config.sourceRootVariable, Config.artifactRootVariable, Config.classpathVariable]
  names.filterMapM fun n => do return (← IO.getEnv n).map (fun v => (n, v))

/-- The content of a file, and nothing for a directory. -/
def content (p : Path) : IO (Option Bytes) := do
  try return some (← IO.FS.readBinFile p.text).toList
  catch
    | .inappropriateType .. => return none
    | e => throw e

/-- What stands at a path. What cannot be opened counts as missing. -/
def examine (p : Path) : IO (Option Sources.Found) := do
  try
    let real ← IO.FS.realPath p.text
    return some ⟨p, .ofString (toString real), ← content p⟩
  catch _ => return none

def fetch (d : Disk) (p : Path) : IO Disk := do
  match ← examine p with
  | some f => return Sources.place d f
  | none => return d

/-- Fetches all that is wanted, and what is wanted because of that. -/
partial def gather (wanted : Disk → List Path) (known : List Path) (d : Disk) : IO Disk := do
  let new := ((wanted d).flatMap fun p => p.ancestors.reverse).eraseDups.filter fun p =>
    !known.contains p
  if new.isEmpty then return d
  gather wanted (new ++ known) (← new.foldlM fetch d)

def apply : Disk.Change → IO Unit
  | .remove p => IO.FS.removeFile p.text
  | .makeDirectory p => IO.FS.createDirAll p.text
  | .write p content => IO.FS.writeBinFile p.text (ByteArray.mk content.toArray)

def send (s : IO.FS.Stream) (content : Bytes) : IO Unit := do
  s.write (ByteArray.mk content.toArray)
  s.flush

def run (args : List String) : IO UInt32 := do
  let env ← environment
  let here := Path.ofString (toString (← IO.FS.realPath "."))
  let cwd := Disk.names here
  let start := (({} : Disk).makeDirectories here).1
  let disk ← gather (Sources.wanted env args) [] { start with cwd }
  let t := execute env args { disk }
  (Disk.changes disk t.host.disk).forM apply
  send (← IO.getStdout) t.output
  send (← IO.getStderr) t.errors
  return UInt32.ofNat t.code

end UnitCache.Main

def main (args : List String) : IO UInt32 := UnitCache.Main.run args
