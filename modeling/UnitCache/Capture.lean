import UnitCache.NameMap
import UnitCache.Toolchain.Basic

namespace UnitCache

/-- Compiled bytes under the names of units. -/
abbrev Artifacts := NameMap Bytes

structure Capture where
  classpath : Classpath
  outputs : Artifacts := .empty

namespace Capture

def find (c : Capture) (d : Disk) (name : String) : Except Error (Option ModuleSource) :=
  c.classpath.find d name

def write (c : Capture) (name : String) (bytes : Bytes) : Capture :=
  { c with outputs := c.outputs.insert name bytes }

def clear (c : Capture) : Capture := { c with outputs := .empty }

def close (c : Capture) : Capture := { c with classpath := c.classpath.close }

/-- A capture answers a compiler on a file tree that stays as it is. -/
def manager (d : Disk) : Dialogue.Manager Capture where
  find name := do return (← get).find d name
  write name bytes := do
    modify (·.write name bytes)
    return .ok ()
  close := do
    modify Capture.close
    return .ok ()

/-- More than the number of modules that can be found one from the other: each name is written out
in a text on the classpath or in the first text. -/
def reach (c : Capture) (d : Disk) (text : Except Error String) : Nat :=
  let own := match text with
    | .ok s => s.utf8ByteSize
    | .error _ => 0
  let files := d.entries.map fun
    | (_, .file _ content) => content.length
    | _ => 0
  let inArchives := c.classpath.entries.map fun
    | .archive _ file members =>
      (members.map (fun m =>
        match Zip.content ((d.contentOf? file).getD []) m with
        | .ok bs => bs.length
        | .error _ => 0)).foldl (· + ·) 0
    | .directory _ => 0
  own + files.foldl (· + ·) 0 + inArchives.foldl (· + ·) 0 + 1

/-- What compiling a unit asks for on a file tree. -/
def dialogue (t : Toolchain) (unit : NamedUnit) (d : Disk) (c : Capture) :
    Dialogue (List Diagnostic) :=
  let text := unit.readText d
  t.compile unit text (c.reach d text)

end Capture
end UnitCache
