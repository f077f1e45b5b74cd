import UnitCache.Cli.Command

namespace UnitCache.Cli.Sources

/-- The modules that a text requires by literal names. -/
def required (text : String) : List String :=
  (Lua.requirements (Utf8.encode text)).filterMap fun r =>
    match r.target with
    | .literal name => some name
    | .dynamic => none

/-- The modules that texts require, and those that these require, as far as they are found. -/
def modules (find : String → Option String) :
    (reach : Nat) → (seen : List String) → (texts : List String) → List String
  | 0, seen, _ => seen
  | reach + 1, seen, texts =>
    let new := (texts.flatMap required).eraseDups.filter (fun n => !seen.contains n)
    modules find reach (seen ++ new) (new.filterMap find)

/-- The file at a location, and the packed file beside it. -/
def located (location : String) : List Path :=
  [.ofString location, .ofString (location ++ ".gz")]

/-- The paths at which a module may be. -/
def candidates (classpath : List Path) (name : String) : List Path :=
  if UnitName.isValid name then
    classpath.flatMap fun p => (Classpath.candidates name).map (fun f => p.join (.ofString f))
  else []

/-- A file and the one that keeps its former content. -/
def written (p : Path) : List Path := [p, UnitName.backup p]

/-- The source of a module on the classpath. -/
def moduleText (cache : Cache) (d : Disk) (name : String) : Option String :=
  match cache.registry.capture.classpath.find d name with
  | .ok (some m) => some m.text
  | _ => none

/-- The names of the units that a command compiles, as far as the tree tells. -/
def units (c : Config) (i : Invocation) (d : Disk) : List String :=
  match ((Cache.new Lua.compiler c).run { disk := d }).1 with
  | .error _ => [i.name]
  | .ok cache =>
    match cache.store.readText d i.location with
    | .error _ => [i.name]
    | .ok text =>
      let reach := cache.registry.capture.reach d (.ok text)
      modules (moduleText cache d) reach [i.name] [text]

/-- What a command looks at with a configuration. -/
def ofConfig (c : Config) (i : Invocation) (d : Disk) : List Path :=
  let resources := c.resourceRoots.flatMap fun root => [root, root.join (.ofString i.location)]
  let staged := c.sourceRoot.toList.flatMap fun root =>
    root :: written (UnitName.path root i.name UnitName.sourceExtension)
  let names := units c i d
  let artifacts := c.artifactRoot.toList.flatMap fun root =>
    root :: names.flatMap (fun n => written (UnitName.path root n UnitName.binaryExtension))
  located i.location ++ resources ++ c.classpath ++ staged ++
    names.flatMap (candidates c.classpath) ++ artifacts

/-- The paths that a command line looks at, as far as the tree tells. -/
def wanted (env : Environment) (args : List String) (d : Disk) : List Path :=
  match Invocation.parse args with
  | .error _ => []
  | .ok i =>
    let file := (i.value? .config).toList.map Path.ofString
    match configure env i d with
    | .error _ => file
    | .ok c => file ++ ofConfig c i d

/-- What stands at a path, if anything does: its path from the root without links, and its content
if it is a file. -/
structure Found where
  path : Path
  real : Path
  content : Option Bytes

/-- Puts what was found into a tree. -/
def place (d : Disk) (f : Found) : Disk :=
  let d := (d.makeDirectories (Store.directoryOf f.real)).1
  let d :=
    match f.content with
    | some bytes => (d.write f.real bytes).toOption.getD d
    | none => (d.makeDirectories f.real).1
  if d.exists? f.path then d
  else
    let d := (d.makeDirectories (Store.directoryOf f.path)).1
    (d.makeLink f.path f.real).toOption.getD d

end UnitCache.Cli.Sources
