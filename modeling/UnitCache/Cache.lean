import UnitCache.Config
import UnitCache.Context
import UnitCache.Registry
import UnitCache.Store.Basic
/-!
The compilation cache: sources are staged, compiled, persisted and loaded into execution contexts.
A load compiles first and then installs all that is captured; in a cache that had nothing captured
before, that is what its own compile produced.
-/
namespace UnitCache

/-- What a compile produced, with everything else that was captured since the last clearing. -/
structure CompileResult where
  unit : String
  artifacts : Artifacts
  diagnostics : List Diagnostic

namespace CompileResult

def contains (r : CompileResult) (name : String) : Bool := r.artifacts.contains name

def names (r : CompileResult) : List String := r.artifacts.names

def hasErrors (r : CompileResult) : Bool := UnitCache.hasErrors r.diagnostics

/-- The error that the unit itself is not among the artifacts. -/
def missing (r : CompileResult) : Error := .unitNotFound r.unit r.diagnostics r.names

end CompileResult

structure Cache where
  registry : Registry
  store : Store
  sourceRoot : Option Path
  artifactRoot : Option Path

/-- A cache at work on a host, beside an execution context. -/
structure Workbench (κ : Type) where
  host : Host
  cache : Cache
  context : κ

/-- Something to do on a workbench that may fail. What was done before a failure stays done. -/
abbrev Task (κ α : Type) := ExceptT Error (StateM (Workbench κ)) α

namespace Task

variable {κ α : Type}

/-- Does something on the host alone. -/
def act (a : Action α) : Task κ α := fun w =>
  let (r, host) := a.run w.host
  (r, { w with host })

/-- Does something with the registry. -/
def withRegistry (f : Registry.Work α) : Task κ α := fun w =>
  let (r, s) := f.run ⟨w.host, w.cache.registry⟩
  (r, { w with host := s.host, cache := { w.cache with registry := s.registry } })

/-- The outcome of a task, be it a failure. -/
def outcome (t : Task κ α) : Task κ (Except Error α) := fun w =>
  let (r, w) := t w
  (.ok r, w)

end Task

namespace Cache

/-- A cache as configured. Locations are looked up as resources if there are roots for them. -/
def new (t : Toolchain) (c : Config) : Action Cache := do
  let registry ← Registry.new t c.classpath
  let providers := if c.resourceRoots.isEmpty then [] else [.directories c.resourceRoots]
  return { registry, store := { providers }, sourceRoot := c.sourceRoot, artifactRoot := c.artifactRoot }

variable {κ η : Type}

/-- The unit to compile. With a source root its text is staged there first. -/
def stage (c : Cache) (name text : String) : Action NamedUnit := do
  match c.sourceRoot with
  | none => MonadExcept.ofExcept (NamedUnit.ofText name text)
  | some root =>
    let p := UnitName.path root name UnitName.sourceExtension
    let unit ← MonadExcept.ofExcept (NamedUnit.ofFile name p)
    let _ ← Store.writeText p text
    return unit

/-- Compiles a text under a name. Captured outputs add up until they are cleared. -/
def compileSource (t : Toolchain) (name text : String) : Task κ CompileResult := do
  let unit ← Task.act ((← get).cache.stage name text)
  let diagnostics ← Task.withRegistry (Registry.Work.compile t unit)
  return ⟨name, (← get).cache.registry.capture.outputs, diagnostics⟩

def clear : Task κ Unit :=
  modify fun w => { w with cache := { w.cache with registry := w.cache.registry.clear } }

/-- Where artifacts are persisted: the artifact root, if it is a directory. -/
def persistenceRoot? (c : Cache) (d : Disk) : Option Path :=
  c.artifactRoot.filter (fun p => d.isDirectory p)

/-- Writes an artifact below a root if it changed. -/
def persist (root : Path) (name : String) (bytes : Bytes) : Task κ Unit := Task.act do
  if ← Store.writeBytes (UnitName.path root name UnitName.binaryExtension) bytes then
    Action.report ⟨.info, "Updated " ++ name ++ " in " ++ root.text, []⟩

def inject (k : ContextKind κ η) (name : String) (bytes : Bytes) : Task κ Unit := fun w =>
  let (r, context) := k.inject name bytes w.context
  (r, { w with context })

/-- Injects what the context does not define yet. -/
def injectMissing (k : ContextKind κ η) : List (String × Bytes) → Task κ Unit
  | [] => return
  | (name, bytes) :: rest => do
    if !k.isDefined (← get).context name then inject k name bytes
    injectMissing k rest

/-- Does `keep` with each artifact, if there is a place to persist them. -/
def keepAll (keep : Path → String → Bytes → Task κ Unit) (as : List (String × Bytes)) :
    Task κ Unit := do
  let w ← get
  match w.cache.persistenceRoot? w.host.disk with
  | none => return
  | some root => as.forM (fun a => keep root a.1 a.2)

/-- Persists what came of a compile and injects it, the unit itself first. -/
def deliver (keep : Path → String → Bytes → Task κ Unit) (k : ContextKind κ η)
    (r : CompileResult) : Task κ Unit :=
  match r.artifacts.get? r.unit with
  | none => throw r.missing
  | some bytes => do
    keepAll keep r.artifacts.entries
    inject k r.unit bytes
    injectMissing k (r.artifacts.entries.filter (fun a => a.1 ≠ r.unit))

def resolve (k : ContextKind κ η) (name : String) : Task κ η := fun w =>
  let (r, disk, context) := k.resolve name (w.host.disk, w.context)
  (r, { w with host := { w.host with disk }, context })

/-- Loads a unit into the context; `keep` persists an artifact. However this ends, nothing stays
captured. -/
def loadWith (keep : Path → String → Bytes → Task κ Unit) (t : Toolchain) (k : ContextKind κ η)
    (name text : String) : Task κ η := do
  let installed ← Task.outcome (compileSource t name text >>= deliver keep k)
  clear
  MonadExcept.ofExcept installed
  resolve k name

def load (t : Toolchain) (k : ContextKind κ η) (name text : String) : Task κ η :=
  loadWith persist t k name text

/-- Loads the text at a location. -/
def loadFrom (t : Toolchain) (k : ContextKind κ η) (name location : String) : Task κ η := do
  let w ← get
  let text ← MonadExcept.ofExcept (w.cache.store.readText w.host.disk location)
  load t k name text

def growClasspath (t : Toolchain) (p : Path) : Task κ Bool :=
  Task.withRegistry (Registry.Work.grow t p)

def reset (t : Toolchain) : Task κ Unit := Task.withRegistry (Registry.Work.reset t)

def close : Task κ Unit :=
  modify fun w => { w with cache := { w.cache with registry := w.cache.registry.close } }

end Cache
end UnitCache
