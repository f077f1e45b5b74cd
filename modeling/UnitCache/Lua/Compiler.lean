import UnitCache.Lua.Chunk
import UnitCache.Lua.Location
import UnitCache.Lua.Requires
import UnitCache.Toolchain.Basic
/-!
Compiling Lua. A unit is compiled with all modules that it requires by literal names and that are
found, each once and after those that it requires. Nothing is written if a source has an error.
-/
namespace UnitCache.Lua

/-- Modules that are always there. -/
def builtinModules : List String :=
  ["_G", "package", "coroutine", "table", "io", "os", "string", "math", "utf8"]

/-- A compile on its way. -/
structure Session where
  visited : List String := []
  /-- Compiled chunks in the order in which they were finished. -/
  outputs : List (String × Bytes) := []
  diagnostics : List Diagnostic := []

abbrev Compile := StateT Session Dialogue

namespace Compile

/-- The chunk of a text found at a place, or what is wrong with it. -/
def chunk (origin text : String) : Except String Chunk :=
  let name := Utf8.encode ("@" ++ origin)
  let c : Chunk := ⟨name, Utf8.encode text⟩
  match name.findIdx? (· = 0) with
  | some i =>
    .error ("runtime error: invalid name: nul byte found in provided data at position: " ++ toString i)
  | none =>
    if Chunk.isBinary c.source then
      match Chunk.decode c.source with
      | .ok inner => .ok inner
      | .error reason => .error (Chunk.refusal name reason)
    else if c.source.head? = some 0x1B then
      .error "attempt to load a binary chunk (mode is 't')"
    else
      match parse c.source with
      | .ok _ => .ok c
      | .error (.malformed f) => .error (c.faultText f)
      | .error .tooDeep => .error "runtime error: C stack overflow"

def report (d : Diagnostic) : Compile Unit :=
  modify fun s => { s with diagnostics := s.diagnostics ++ [d] }

def dynamicRequire : String :=
  "require without a literal module name cannot be checked at compile time"

/-- Deals with one requirement of a unit. What is neither visited nor always there is looked up, and
compiled if it is found. -/
def demand (compile : (name origin text : String) → Compile Unit) (name : String)
    (r : Requirement) : Compile Unit := do
  match r.target with
  | .dynamic => report ⟨.warning, name, some r.line, dynamicRequire⟩
  | .literal wanted =>
    if (← get).visited.contains wanted || builtinModules.contains wanted then return
    match ← (Dialogue.lookUp wanted : Dialogue _) with
    | .ok (some m) => compile wanted m.origin m.text
    | .ok none =>
      report ⟨.error, name, some r.line, "module '" ++ wanted ++ "' not found on classpath"⟩
    | .error e =>
      report ⟨.error, name, some r.line,
        "cannot resolve module '" ++ wanted ++ "': " ++ e.message⟩

/-- Compiles a text with all that it requires and that was not visited before. -/
def text : (reach : Nat) → (name origin text : String) → Compile Unit
  | 0, _, _, _ => return
  | reach + 1, name, origin, source => do
    modify fun s => { s with visited := name :: s.visited }
    match chunk origin source with
    | .error message =>
      let (line, message) := Location.split message
      report ⟨.error, name, line, message⟩
    | .ok c =>
      (requirements (Utf8.encode source)).forM (demand (text reach) name)
      modify fun s => { s with outputs := s.outputs ++ [(name, c.encode)] }

/-- Compiles a unit with all that it requires. Nothing is written yet. -/
def analyse (unit : NamedUnit) (source : String) (reach : Nat) : Dialogue Session := do
  let ((), s) ← (text reach unit.name unit.uri source).run {}
  return s

/-- Writes compiled chunks, going on after failures. -/
def writeAll : List (String × Bytes) → Dialogue (List Diagnostic)
  | [] => return []
  | (name, bytes) :: rest => do
    let failures ←
      match ← Dialogue.output name bytes with
      | .ok () => pure []
      | .error e => pure [⟨.error, name, none, "cannot write output: " ++ e.message⟩]
    return failures ++ (← writeAll rest)

end Compile

/-- The Lua compiler, which can always be had. -/
def compiler : Toolchain where
  acquire := .ok ()
  compile unit text reach :=
    match text with
    | .error e => .done [⟨.error, unit.name, none, e.message⟩]
    | .ok text => do
      let s ← Compile.analyse unit text reach
      if hasErrors s.diagnostics then return s.diagnostics
      else return s.diagnostics ++ (← Compile.writeAll s.outputs)

end UnitCache.Lua
