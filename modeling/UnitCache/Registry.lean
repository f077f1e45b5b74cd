import UnitCache.Capture

namespace UnitCache

structure Registry where
  classpath : List Path
  capture : Capture
  /-- How many rebuilds there have been. -/
  generation : Nat := 0

namespace Registry

/-- The path from the root of something, through links where it exists. -/
def canonical (d : Disk) (p : Path) : Except Fault Path :=
  match d.canonical p with
  | .ok q => .ok q
  | .error f =>
    match Path.absolute? (Disk.pathOf d.cwd) p with
    | some q => .ok q
    | none => .error f

/-- A fresh capture for a classpath. -/
def build (t : Toolchain) (paths : List Path) : Action Capture := do
  match t.acquire with
  | .error e => throw e
  | .ok () => return { classpath := ← Classpath.new paths none }

def new (t : Toolchain) (paths : List Path) : Action Registry := do
  let paths ← Action.ask (fun d =>
    paths.map (fun p =>
      match canonical d p with
      | .ok q => q
      | .error _ => p))
  return { classpath := paths, capture := ← build t paths }

/-- Rebuilds, which clears the outputs. -/
def reset (t : Toolchain) (r : Registry) : Action Registry := do
  let fresh ← build t r.classpath
  return { r with capture := fresh, generation := r.generation + 1 }

/-- Compiles a unit into the capture and reports what was found. -/
def compile (t : Toolchain) (unit : NamedUnit) (r : Registry) :
    Action (List Diagnostic × Registry) := do
  let d ← Action.ask id
  let (ds, capture) := ((r.capture.dialogue t unit d).run (Capture.manager d)).run r.capture
  ds.forM (fun x => Action.report x.record)
  return (ds, { r with capture })

def clear (r : Registry) : Registry := { r with capture := r.capture.clear }

def close (r : Registry) : Registry := { r with capture := r.capture.close }

/-- A registry at work on a host. -/
structure Site where
  host : Host
  registry : Registry

/-- Something to do with a registry that may fail. What was done before a failure stays done. -/
abbrev Work (α : Type) := ExceptT Error (StateM Site) α

namespace Work

variable {α : Type}

/-- Does something on the host alone. -/
def act (a : Action α) : Work α := fun s =>
  let (r, host) := a.run s.host
  (r, { s with host })

def alter (f : Registry → Registry) : Work Unit :=
  modify fun s => { s with registry := f s.registry }

def reset (t : Toolchain) : Work Unit := do
  let fresh ← act (Registry.reset t (← get).registry)
  alter fun _ => fresh

/-- Puts a path on the classpath, unless nothing is there, and rebuilds. A path that is on it
already changes nothing. When the rebuild fails the path is taken off again. -/
def grow (t : Toolchain) (p : Path) : Work Bool := do
  if !(← act (Action.ask (·.exists? p))) then return false
  let q ← act (Action.reading p (canonical · p))
  if (← get).registry.classpath.any (fun x => x.same q) then return true
  alter fun r => { r with classpath := r.classpath ++ [q] }
  tryCatch (reset t) fun e => do
    alter fun r => { r with classpath := r.classpath.dropLast }
    throw e
  act (Action.report ⟨.info, "Added " ++ p.text ++ " to classpath", []⟩)
  return true

def compile (t : Toolchain) (unit : NamedUnit) : Work (List Diagnostic) := do
  let (ds, registry) ← act (Registry.compile t unit (← get).registry)
  alter fun _ => registry
  return ds

end Work

/-- The registry with a path more on its classpath, and whether the path is there. -/
def grow (t : Toolchain) (p : Path) (r : Registry) : Action (Bool × Registry) := fun h =>
  match (Work.grow t p).run ⟨h, r⟩ with
  | (.ok b, s) => (.ok (b, s.registry), s.host)
  | (.error e, s) => (.error e, s.host)

end Registry
end UnitCache
