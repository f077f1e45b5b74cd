import UnitCache.Host
import UnitCache.Toml.Document

namespace UnitCache

structure Config where
  /-- Where submitted sources are staged; they stay in memory without it. -/
  sourceRoot : Option Path := none
  /-- Where artifacts are persisted, if anywhere. -/
  artifactRoot : Option Path := none
  classpath : List Path := []
  /-- Where locations are looked up as resources. -/
  resourceRoots : List Path := []
  deriving DecidableEq, Repr

/-- Why a text is no configuration. -/
inductive ConfigFault where
  /-- Not TOML, or a field with a value of another kind. -/
  | malformed
  | unknownField (name : String)
  deriving DecidableEq, Repr

def ConfigFault.message? : ConfigFault → Option String
  | .malformed => none
  | .unknownField name =>
    some ("unknown field `" ++ name ++ "`, expected one of `source_root`, `artifact_root`, " ++
      "`classpath`, `resource_roots`")

/-- Variables with their values. -/
abbrev Environment := List (String × String)

namespace Config

def pathOfValue : Toml.Value → Except ConfigFault Path
  | .string s => .ok (.ofString s)
  | _ => .error .malformed

def pathsOfValue : Toml.Value → Except ConfigFault (List Path)
  | .array items => items.mapM pathOfValue
  | _ => .error .malformed

def setField (c : Config) (f : String × Toml.Value) : Except ConfigFault Config :=
  match f.1 with
  | "source_root" => do return { c with sourceRoot := some (← pathOfValue f.2) }
  | "artifact_root" => do return { c with artifactRoot := some (← pathOfValue f.2) }
  | "classpath" => do return { c with classpath := (← pathsOfValue f.2) }
  | "resource_roots" => do return { c with resourceRoots := (← pathsOfValue f.2) }
  | name => .error (.unknownField name)

/-- The configuration of a text. Of several faults the first field that has one decides. -/
def ofToml (text : String) : Except ConfigFault Config :=
  match Toml.parse? text with
  | none => .error .malformed
  | some fields => fields.foldlM setField {}

/-- Paths that are not absolute are taken from a directory. -/
def relativeTo (base : Path) (c : Config) : Config where
  sourceRoot := c.sourceRoot.map base.join
  artifactRoot := c.artifactRoot.map base.join
  classpath := c.classpath.map base.join
  resourceRoots := c.resourceRoots.map base.join

/-- The configuration of a file, whose directory its paths are taken from. -/
def load (d : Disk) (path : Path) : Except Error Config :=
  match d.readText path with
  | .error f => .error (.io path f)
  | .ok text =>
    match ofToml text with
    | .error _ => .error (.badConfiguration path)
    | .ok c =>
      match path.parent? with
      | some base => .ok (if base.isEmpty then c else c.relativeTo base)
      | none => .ok c

def sourceRootVariable : String := "HOTCHUNK_SOURCE_ROOT"

def artifactRootVariable : String := "HOTCHUNK_ARTIFACT_ROOT"

def classpathVariable : String := "HOTCHUNK_PATH"

/-- A path from the environment; an empty one counts as none. -/
def variablePath? (env : Environment) (name : String) : Option Path :=
  match env.lookup name with
  | some v => if v = "" then none else some (.ofString v)
  | none => none

/-- The paths of a list with colons between them. -/
def splitPaths (s : String) : List Path :=
  ((cutAt ':' s.toList).filter (· ≠ [])).map Path.mk

/-- Puts the environment on top. -/
def withEnvironment (env : Environment) (c : Config) : Config :=
  { c with
    sourceRoot := variablePath? env sourceRootVariable <|> c.sourceRoot
    artifactRoot := variablePath? env artifactRootVariable <|> c.artifactRoot
    classpath := c.classpath ++ ((env.lookup classpathVariable).map splitPaths).getD [] }

def ofEnvironment (env : Environment) : Config := withEnvironment env {}

def withSourceRoot (p : Path) (c : Config) : Config := { c with sourceRoot := some p }

def withArtifactRoot (p : Path) (c : Config) : Config := { c with artifactRoot := some p }

def withClasspathEntry (p : Path) (c : Config) : Config := { c with classpath := c.classpath ++ [p] }

def withResourceRoot (p : Path) (c : Config) : Config :=
  { c with resourceRoots := c.resourceRoots ++ [p] }

end Config
end UnitCache
