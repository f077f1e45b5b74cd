import UnitCache.Cli.Command
import UnitCache.Proofs.PathComponents

namespace UnitCache

namespace Path

variable {file p : Path} {front : List Component} {n : List Char}

/-- A path that a file gives. A relative one is taken from the directory of the file, if the path of
the file has one. -/
def anchored (file p : Path) : Path :=
  match file.parent? with
  | some dir => if p.isAbsolute || dir.isEmpty then p else dir.join p
  | none => p

theorem anchored_of_parent {dir : Path} (h : file.parent? = some dir) (hd : dir.isEmpty = false) :
    file.anchored = dir.join := by
  funext p
  rw [anchored, h]
  cases hp : p.isAbsolute <;> simp [join, hp, hd]

theorem anchored_of_no_parent (h : ∀ dir, file.parent? = some dir → dir.isEmpty = true) :
    file.anchored = id := by
  funext p
  unfold anchored
  split
  · rename_i dir hdir
    simp [h dir hdir]
  · rfl

/-- The components of a relative path, less a dot in front. -/
theorem components_of_relative (hp : p.isAbsolute = false) :
    (cutAt '/' p.chars).filterMap Component.ofPiece = p.components.filter (· ≠ .here) := by
  have hnames (ps : List (List Char)) : (ps.filterMap Component.ofPiece).filter (· ≠ .here) =
      ps.filterMap Component.ofPiece := by
    rw [List.filter_eq_self]
    intro c hc
    obtain ⟨s, -, hs⟩ := List.mem_filterMap.mp hc
    unfold Component.ofPiece at hs
    split at hs
    · cases hs
    · split at hs <;> cases hs <;> rfl
  have hbody : p.body = cutAt '/' p.chars := by rw [body, hp, if_neg (by simp)]
  rw [components_eq, hp, ← hbody]
  by_cases hd : ∃ ps, p.body = ['.'] :: ps
  · obtain ⟨ps, hps⟩ := hd
    rw [hps]
    exact (hnames ps).symm
  · rw [componentsOf_relative, hnames]
    intro hh
    exact hd (List.head?_eq_some_iff.mp hh)

/-- What stands in a file with a directory is below that directory, and all else is left alone. -/
theorem components_anchored (h : file.components = front ++ [.name n]) (p : Path) :
    (p.isAbsolute = true ∨ front = [] → file.anchored p = p) ∧
      (p.isAbsolute = false → front ≠ [] →
        (file.anchored p).components = front ++ p.components.filter (· ≠ .here)) := by
  obtain ⟨dir, hdir, rfl⟩ := parent?_of_components h
  constructor
  · intro hp
    rw [components_eq_nil_iff] at hp
    rw [anchored, hdir]
    exact if_pos (by simpa [isEmpty] using hp)
  · intro hp hd
    rw [Ne, components_eq_nil_iff] at hd
    rw [anchored_of_parent hdir (by simpa [isEmpty] using hd), components_join_of_ne_nil hd hp,
      components_of_relative hp]

end Path

namespace Config

variable {d : Disk} {file : Path} {r : Config}

def anchored (file : Path) (c : Config) : Config where
  sourceRoot := c.sourceRoot.map file.anchored
  artifactRoot := c.artifactRoot.map file.anchored
  classpath := c.classpath.map file.anchored
  resourceRoots := c.resourceRoots.map file.anchored

theorem anchored_of_no_parent (h : ∀ dir, file.parent? = some dir → dir.isEmpty = true) (c : Config) :
    c.anchored file = c := by
  simp [anchored, Path.anchored_of_no_parent h]

theorem load_eq {text : String} {c : Config} (ht : d.readText file = .ok text)
    (hc : ofToml text = .ok c) : load d file = .ok (c.anchored file) := by
  simp only [load, ht, hc]
  cases hp : file.parent? with
  | none => rw [anchored_of_no_parent (by simp [hp])]
  | some dir =>
    refine congrArg Except.ok ?_
    cases hd : dir.isEmpty with
    | true => rw [if_pos rfl, anchored_of_no_parent (by simp [hp, hd])]
    | false => rw [if_neg (by simp), anchored, Path.anchored_of_parent hp hd, relativeTo]

theorem of_load (h : load d file = .ok r) :
    ∃ text c, d.readText file = .ok text ∧ ofToml text = .ok c ∧ r = c.anchored file := by
  cases ht : d.readText file with
  | error f => simp [load, ht] at h
  | ok text =>
    cases hc : ofToml text with
    | error f => simp [load, ht, hc] at h
    | ok c =>
      rw [load_eq ht hc] at h
      exact ⟨text, c, rfl, hc, (Except.ok.inj h).symm⟩

inductive FileLayer (d : Disk) : Option Path → Config → Prop where
  | absent : FileLayer d none {}
  | present {file : Path} {text : String} {c : Config} (read : d.readText file = .ok text)
      (parsed : ofToml text = .ok c) : FileLayer d (some file) (c.anchored file)

end Config

namespace Cli

open Config (FileLayer)

variable {env : Environment} {i : Invocation} {d : Disk} {c r : Config}

/-- The root that counts: the one of the setting, else the one of the variable, unless that is empty,
else the one of the file. -/
def rootOf (env : Environment) (i : Invocation) (s : Setting) (name : String)
    (file : Option Path) : Option Path :=
  [(i.value? s).map .ofString, ((env.lookup name).filter (· ≠ "")).map .ofString, file].findSome? id

structure Layered (env : Environment) (i : Invocation) (file result : Config) : Prop where
  sourceRoot : result.sourceRoot = rootOf env i .sourceRoot "HOTCHUNK_SOURCE_ROOT" file.sourceRoot
  artifactRoot :
    result.artifactRoot = rootOf env i .artifactRoot "HOTCHUNK_ARTIFACT_ROOT" file.artifactRoot
  classpath : ∃ pieces : List (List Char), (∀ s ∈ pieces, ':' ∉ s) ∧
    pasteWith ':' pieces = ((env.lookup "HOTCHUNK_PATH").getD "").toList ∧
    result.classpath = file.classpath ++ (pieces.filter (· ≠ [])).map Path.mk ++
      (i.values .classpath).map .ofString
  resourceRoots : result.resourceRoots = file.resourceRoots

theorem foldl_withClasspathEntry (ps : List String) (c : Config) :
    ps.foldl (fun c p => c.withClasspathEntry (.ofString p)) c =
      { c with classpath := c.classpath ++ ps.map .ofString } := by
  induction ps generalizing c with
  | nil => simp
  | cons p ps ih =>
    rw [List.foldl_cons, ih]
    simp [Config.withClasspathEntry]

def onTop (env : Environment) (i : Invocation) (c : Config) : Config where
  sourceRoot := rootOf env i .sourceRoot "HOTCHUNK_SOURCE_ROOT" c.sourceRoot
  artifactRoot := rootOf env i .artifactRoot "HOTCHUNK_ARTIFACT_ROOT" c.artifactRoot
  classpath := c.classpath ++ ((env.lookup "HOTCHUNK_PATH").map Config.splitPaths).getD [] ++
    (i.values .classpath).map .ofString
  resourceRoots := c.resourceRoots

def baseConfig (i : Invocation) (d : Disk) : Except Error Config :=
  match i.value? .config with
  | some file => Config.load d (.ofString file)
  | none => .ok {}

theorem variablePath?_eq (env : Environment) (name : String) : Config.variablePath? env name =
    ((env.lookup name).filter (· ≠ "")).map .ofString := by
  unfold Config.variablePath?
  cases env.lookup name with
  | none => rfl
  | some v =>
    by_cases hv : v = ""
    · subst hv
      rfl
    · simp [Option.filter, hv]

theorem rootOf_eq (env : Environment) (i : Invocation) (s : Setting) (name : String)
    (file : Option Path) : rootOf env i s name file =
      ((i.value? s).map .ofString).or (Config.variablePath? env name <|> file) := by
  rw [rootOf, variablePath?_eq]
  cases i.value? s <;> cases (env.lookup name).filter (· ≠ "") <;> cases file <;> rfl

theorem configure_eq (env : Environment) (i : Invocation) (d : Disk) :
    configure env i d = (baseConfig i d).map (onTop env i) := by
  have htop (base : Config) : onTop env i base =
      let c := base.withEnvironment env
      let c := match i.value? .sourceRoot with
        | some p => c.withSourceRoot (.ofString p)
        | none => c
      let c := match i.value? .artifactRoot with
        | some p => c.withArtifactRoot (.ofString p)
        | none => c
      (i.values .classpath).foldl (fun c p => c.withClasspathEntry (.ofString p)) c := by
    simp only [foldl_withClasspathEntry, onTop, rootOf_eq]
    cases i.value? .sourceRoot <;> cases i.value? .artifactRoot <;> rfl
  rw [funext htop]
  unfold configure baseConfig
  cases i.value? .config with
  | none => rfl
  | some file => cases hl : Config.load d (.ofString file) <;> simp only [hl] <;> rfl

theorem layered_onTop (env : Environment) (i : Invocation) (c : Config) :
    Layered env i c (onTop env i c) where
  sourceRoot := rfl
  artifactRoot := rfl
  classpath := by
    refine ⟨cutAt ':' ((env.lookup "HOTCHUNK_PATH").getD "").toList,
      fun s hs => not_mem_of_mem_cutAt hs, pasteWith_cutAt ':' _, ?_⟩
    cases he : env.lookup "HOTCHUNK_PATH" with
    | none => simp [onTop, he, cutAt]
    | some v => simp [onTop, he, Config.splitPaths]
  resourceRoots := rfl

theorem fileLayer_iff :
    FileLayer d ((i.value? .config).map .ofString) c ↔ baseConfig i d = .ok c := by
  unfold baseConfig
  cases i.value? .config with
  | none =>
    refine ⟨fun h => ?_, fun h => ?_⟩
    · cases h
      rfl
    · cases h
      exact .absent
  | some file =>
    refine ⟨fun h => ?_, fun h => ?_⟩
    · obtain ⟨⟩ | ⟨read, parsed⟩ := h
      exact Config.load_eq read parsed
    · obtain ⟨text, given, read, parsed, rfl⟩ := Config.of_load h
      exact .present read parsed

def configured : Disk :=
  { entries := [(["conf".toList], .directory),
      (["conf".toList, "cache.toml".toList], .file 0 (Utf8.encode
        "source_root = \"src\"\nclasspath = [\"/abs\", \"lib\"]\n"))]
    nextId := 1 }

end Cli
end UnitCache
