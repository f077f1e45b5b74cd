import UnitCache.ByteSize
import UnitCache.Cache
import UnitCache.Cli.Arguments
import UnitCache.Cli.LuaValue
import UnitCache.Lua.Compiler
import UnitCache.Lua.Context

namespace UnitCache.Cli

open Lua (Machine Loaded)

/-- What a command leaves behind. -/
structure Transcript where
  code : Nat := 0
  output : Bytes := []
  errors : Bytes := []
  host : Host

namespace Transcript

def print (line : String) (t : Transcript) : Transcript :=
  { t with output := t.output ++ Utf8.encode (line ++ "\n") }

def warn (line : String) (t : Transcript) : Transcript :=
  { t with errors := t.errors ++ Utf8.encode (line ++ "\n") }

/-- Ends with an error. -/
def fail (message : String) (t : Transcript) : Transcript := { (t.warn ("✗ " ++ message)) with code := 1 }

end Transcript

/-- What lies behind an error, which is told after it. Where a call was traced, the trace stands
there instead. -/
def causes : Error → List String
  | .io _ f => [f.message]
  | .archive _ (.io f) => [(ArchiveFault.io f).message, f.message]
  | .archive _ f => [f.message]
  | .lua (.runtime _ true) => []
  | .lua e => [e.message]
  | _ => []

/-- An error with what was being done and what lies behind it. -/
def explain (doing : String) (e : Error) : String :=
  ": ".intercalate (doing :: e.message :: causes e)

/-- The configuration of an invocation: a file, the environment on top of it, and the settings on
top of both. -/
def configure (env : Environment) (i : Invocation) (d : Disk) : Except Error Config := do
  let base ←
    match i.value? .config with
    | some file => Config.load d (.ofString file)
    | none => .ok {}
  let c := base.withEnvironment env
  let c := match i.value? .sourceRoot with
    | some p => c.withSourceRoot (.ofString p)
    | none => c
  let c := match i.value? .artifactRoot with
    | some p => c.withArtifactRoot (.ofString p)
    | none => c
  return (i.values .classpath).foldl (fun c p => c.withClasspathEntry (.ofString p)) c

def diagnosticJson (d : Diagnostic) : Json :=
  .object [("severity", .string d.severity.label), ("unit", .string d.unit),
    ("line", Json.ofOption .nat d.line), ("message", .string d.message)]

/-- What came of a compile, as JSON. -/
def compileJson (name : String) (r : CompileResult) : Json :=
  .object [("unit", .string name), ("success", .bool (r.contains name)),
    ("artifacts", .array (r.artifacts.entries.map fun (n, bytes) =>
      .object [("name", .string n), ("size", .nat bytes.length)])),
    ("diagnostics", .array (r.diagnostics.map diagnosticJson))]

def showDiagnostic (t : Transcript) (d : Diagnostic) : Transcript :=
  t.warn ((if d.isError then "✗ " else "⚠ ") ++ d.text)

/-- What came of a compile, as lines. -/
def compileLines (name : String) (r : CompileResult) (t : Transcript) : Transcript :=
  let t := r.diagnostics.foldl showDiagnostic t
  if r.contains name then
    r.artifacts.entries.foldl (fun t (n, bytes) => t.print ("  " ++ n ++ ": " ++ ByteSize.format bytes.length))
      (t.print ("✓ Compiled " ++ name))
  else t

def compile (i : Invocation) (cache : Cache) (h : Host) : Transcript :=
  match cache.store.readText h.disk i.location with
  | .error e => Transcript.fail (explain ("Failed to read source: " ++ i.location) e) { host := h }
  | .ok text =>
    let w : Workbench Unit := ⟨h, cache, ()⟩
    match (Cache.compileSource Lua.compiler i.name text).run w with
    | (.error e, w) => Transcript.fail (explain ("Failed to compile " ++ i.name) e) { host := w.host }
    | (.ok r, w) =>
      let t : Transcript := { host := w.host }
      let t := if i.isJson then t.print (compileJson i.name r).pretty else compileLines i.name r t
      if r.contains i.name then t
      else
        let errors := (r.diagnostics.filter Diagnostic.isError).length
        t.fail ("Compilation of " ++ i.name ++ " failed with " ++ toString errors ++ " error(s)")

/-- What the command prints, between what the code wrote before and what it held back. -/
def finish (m : Machine) (h : Host) (f : Transcript → Transcript) : Transcript :=
  let w := m.world
  let t := f { output := w.output, errors := w.errorOutput, host := { h with disk := w.disk } }
  { t with output := t.output ++ w.unwritten }

/-- The value to show: that of a unit, or the first one that a function of it gives. -/
def runValue (u : Loaded) (call : Option String) (args : List String) (m : Machine) :
    Except Error Lua.Value × Machine :=
  match call with
  | none => (.ok u.value, m)
  | some f =>
    let (r, m) := Lua.Context.callUnit u f (args.map argumentValue) m
    (r.map Lua.Value.first, m)

def run (i : Invocation) (call : Option String) (args : List String) (cache : Cache) (h : Host) :
    Transcript :=
  let w : Workbench Machine := ⟨h, cache, Lua.Context.fresh⟩
  match (Cache.loadFrom Lua.compiler Lua.Context.kind i.name i.location).run w with
  | (.error e, w) =>
    let m := { w.context with world := { w.context.world with disk := w.host.disk } }
    finish m w.host (·.fail (explain ("Failed to load " ++ i.name) e))
  | (.ok u, w) =>
    let m := { w.context with world := { w.context.world with disk := w.host.disk } }
    match runValue u call args m with
    | (.error e, m) =>
      finish m w.host (·.fail (explain ("Failed to call " ++ i.name ++ "." ++ call.getD "") e))
    | (.ok v, m) =>
      finish m w.host (·.print (if i.isJson then (valueJson m.world v).pretty else describe v))

def invoke (env : Environment) (i : Invocation) (h : Host) : Transcript :=
  match configure env i h.disk with
  | .error e =>
    Transcript.fail (explain ("Failed to load config: " ++ (i.value? .config).getD "") e) { host := h }
  | .ok config =>
    match (Cache.new Lua.compiler config).run h with
    | (.error e, h) => Transcript.fail (explain "Failed to initialize compilation cache" e) { host := h }
    | (.ok cache, h) =>
      match i.command with
      | .compile => compile i cache h
      | .run call args => run i call args cache h

def version : String := "hotchunk 0.3.0"

def help : String :=
  "Usage: hotchunk [OPTIONS] <COMMAND>\n\nCommands:\n" ++
    "  compile <NAME> <LOCATION>\n  run [--call FUNCTION] <NAME> <LOCATION> [ARGS]...\n\nOptions:\n" ++
    "  -v, --verbose\n  -o, --output <text|json>\n      --config <FILE>\n" ++
    "      --source-root <DIR>\n      --artifact-root <DIR>\n      --classpath <PATH>\n" ++
    "  -h, --help\n  -V, --version"

/-- Carries out a command line. -/
def execute (env : Environment) (args : List String) (h : Host) : Transcript :=
  match Invocation.parse args with
  | .ok i => invoke env i h
  | .error .version => Transcript.print version { host := h }
  | .error .help => Transcript.print help { host := h }
  | .error .usage => { (Transcript.warn help { host := h }) with code := 2 }

end UnitCache.Cli
