import UnitCache.Proofs.ModuleFiles
import UnitCache.Proofs.OutputNames

namespace UnitCache

open UnitCache.Path (Component)

namespace Path

variable {m t : List Char} {ms ns : List Name}

/-- Joining twice is joining once, if what is joined first is a name. -/
theorem join_join (root : Path) (hm : IsPiece m) (ht : (Path.mk t).isAbsolute = false) :
    (root.join ⟨m⟩).join ⟨t⟩ = root.join ⟨m ++ '/' :: t⟩ := by
  have hrel : (Path.mk (m ++ '/' :: t)).isAbsolute = false := by
    rw [isAbsolute_slash, hm.not_absolute, decide_eq_false hm.ne_nil]
    rfl
  have hchars := join_chars_of_relative (root.join_ne_nil hm) ht
  rw [root.trunk_join hm] at hchars
  change mk _ = mk (root.join ⟨m ++ '/' :: t⟩).chars
  refine congrArg mk (hchars.trans ?_)
  by_cases hr : root.chars = []
  · rw [join_of_empty hr hm.not_absolute, join_of_empty hr hrel]
  · rw [join_chars hr hm, join_chars_of_relative hr hrel, List.append_assoc, List.cons_append]

/-- Names joined one by one are joined at once with slashes between them. -/
theorem below_eq_join (root : Path) (hne : ms ≠ []) (h : ∀ m ∈ ms, Disk.IsProper m) :
    root.below ms = root.join ⟨pasteWith '/' ms⟩ := by
  induction ms generalizing root with
  | nil => exact absurd rfl hne
  | cons m ms ih =>
    obtain ⟨hm, hrest⟩ := List.forall_mem_cons.mp h
    cases ms with
    | nil => rfl
    | cons n ms =>
      have htail := (Disk.spells_pasteWith (by simp) hrest).relative
      rw [below, List.foldl_cons, ← below, ih _ (by simp) hrest, join_join root hm.toIsPiece htail]
      rfl

theorem components_below (root : Path) (hne : ms ≠ []) (h : ∀ m ∈ ms, Disk.IsProper m) :
    (root.below ms).components = root.components ++ ms.map .name := by
  rw [below_eq_join root hne h,
    components_join_of_components root (Disk.spells_pasteWith hne h).components]

theorem prefix_of_components {cs : List Component}
    (h : cs ++ ms.map .name <+: cs ++ ns.map .name) : ms <+: ns :=
  (List.prefix_map_iff_of_injective fun _ _ => Component.name.inj).mp
    ((List.prefix_append_right_inj cs).mp h)

end Path

namespace UnitFile

variable {f g : UnitFile} {root p q : Path}

def resource (f : UnitFile) : String := UnitName.resource f.name ++ "." ++ String.ofList f.ext

theorem toList_resource (f : UnitFile) : f.resource.toList = pasteWith '/' (f.dirs ++ [f.fileName]) := by
  have hlast := Path.pasteWith_concat_append '/' f.dirs f.stem ('.' :: f.ext)
  rw [f.dirs_stem] at hlast
  simpa [resource, UnitName.resource, fileName] using hlast

/-- The path of a unit is its resource name joined to the root. -/
theorem path_eq_join (f : UnitFile) (root : Path) : f.path root = root.join (.ofString f.resource) := by
  rw [path_eq, Path.below_eq_join root (by simp) f.place_names_proper, ← toList_resource]
  rfl

/-- What may stand on the disk for the file of a unit: the file and its former content. -/
def paths (root : Path) (f : UnitFile) : List Path := [f.path root, UnitName.backup (f.path root)]

theorem components_path (f : UnitFile) (root : Path) :
    (f.path root).components = (root.components ++ f.dirs.map .name) ++ [.name f.fileName] := by
  rw [path_eq, Path.components_below root (by simp) f.place_names_proper, List.map_append,
    List.append_assoc]
  rfl

theorem components_backup (f : UnitFile) (root : Path) :
    (UnitName.backup (f.path root)).components =
      (root.components ++ f.dirs.map .name) ++ [.name f.backupName] :=
  UnitName.components_backup (f.components_path root)

/-- Below any root there are directories first, and at the end a name with a dot, which no directory
on the way to a unit has. -/
theorem components_of_mem_paths (h : p ∈ f.paths root) :
    ∃ n, '.' ∈ n ∧ p.components = root.components ++ (f.dirs ++ [n]).map .name ∧
      (p = f.path root ∧ n = f.fileName ∨ p = UnitName.backup (f.path root) ∧ n = f.backupName) := by
  rcases List.mem_cons.mp h with rfl | h
  · exact ⟨_, f.dot_mem_fileName, by simp [components_path], .inl ⟨rfl, rfl⟩⟩
  · obtain rfl := List.mem_singleton.mp h
    exact ⟨_, f.dot_mem_backupName, by simp [components_backup], .inr ⟨rfl, rfl⟩⟩

/-- No file of a unit stands where there is one of another unit, or above it. -/
theorem eq_of_ancestor (hp : p ∈ f.paths root) (hq : q ∈ g.paths root)
    (h : p.components <+: q.components) : f = g ∧ p = q := by
  obtain ⟨n, hdot, hn, hf⟩ := components_of_mem_paths hp
  obtain ⟨m, -, hm, hg⟩ := components_of_mem_paths hq
  rw [hn, hm] at h
  -- The name at the end is no directory, so both ways end together.
  have hsame : f.dirs ++ [n] = g.dirs ++ [m] :=
    (List.prefix_concat_iff.mp (Path.prefix_of_components h)).resolve_right (not_prefix_dirs hdot f g)
  rcases hf with ⟨rfl, rfl⟩ | ⟨rfl, rfl⟩ <;> rcases hg with ⟨rfl, rfl⟩ | ⟨rfl, rfl⟩
  · have hplace : f.place [] = g.place [] := hsame
    obtain rfl := place_inj hplace
    exact ⟨rfl, rfl⟩
  · exact absurd hsame (place_ne_backupPlace [] f g)
  · exact absurd hsame.symm (place_ne_backupPlace [] g f)
  · have hplace : f.backupPlace [] = g.backupPlace [] := hsame
    obtain rfl := backupPlace_inj hplace
    exact ⟨rfl, rfl⟩

def staged (f : UnitFile) : UnitFile := { f with ext := UnitName.sourceExtension, known := .inl rfl }

/-- The staged source of a unit is what a module of its name is looked for first. -/
theorem join_candidate (f : UnitFile) (root : Path) :
    root.join (.ofString (UnitName.resource f.name ++ ".lua")) = f.staged.path root := by
  have hext : "." ++ String.ofList UnitName.sourceExtension = ".lua" := by decide
  rw [path_eq_join, resource, String.append_assoc, staged, hext]

/-- In a directory that comes first on a classpath, a module is the staged source of its name, if
there is one. -/
theorem find_staged {c : Classpath} {es : List ClasspathEntry} {d : Disk} (hc : c.closed = false)
    (he : c.entries = .directory root :: es) (hf : d.isFile (f.staged.path root) = true) :
    c.find d f.name = ((d.readText (f.staged.path root)).mapError (.io (f.staged.path root))).map
      fun text => some ⟨f.name, (f.staged.path root).text, text⟩ := by
  rw [Classpath.find, hc, if_neg (by simp), if_neg (by simp [f.valid]), he, List.flatMap_cons,
    Classpath.candidates, List.map_cons, Classpath.inEntry, join_candidate, if_pos hf]
  cases d.readText (f.staged.path root) <;> rfl

/-- Dotted names embed into the tree below any root: a path is the resource name joined to the root,
which for a source is where a module of the name is looked for first; it has one plain name for each
segment; it tells the name and the extension; and no file of a unit, nor its former content, stands
at or above another file or former content. -/
theorem unit_paths_embed (root : Path) (f g : UnitFile) :
    f.path root = root.join (.ofString (UnitName.resource f.name ++ "." ++ String.ofList f.ext)) ∧
    (∃ first rest, Classpath.candidates f.name = first :: rest ∧
      root.join (.ofString first) = f.staged.path root) ∧
    (∀ (c : Classpath) (es : List ClasspathEntry) (d : Disk), c.closed = false →
      c.entries = .directory root :: es → d.isFile (f.staged.path root) = true →
      c.find d f.name = ((d.readText (f.staged.path root)).mapError (.io (f.staged.path root))).map
        fun text => some ⟨f.name, (f.staged.path root).text, text⟩) ∧
    (∃ front last, UnitName.segments f.name = front ++ [last] ∧ (f.path root).components =
      root.components ++ (front ++ [last ++ '.' :: f.ext]).map .name) ∧
    ((f.path root).components = (g.path root).components → f.name = g.name ∧ f.ext = g.ext) ∧
    ∀ p ∈ f.paths root, ∀ q ∈ g.paths root, p.components <+: q.components → f = g ∧ p = q := by
  refine ⟨f.path_eq_join root, ⟨_, _, rfl, f.join_candidate root⟩, ?_,
    ⟨f.dirs, f.stem, f.dirs_stem.symm, by simp [components_path, fileName]⟩, ?_, ?_⟩
  · exact fun c es d hc he hf => find_staged hc he hf
  · intro h
    have hmem (f : UnitFile) : f.path root ∈ f.paths root := List.mem_cons_self
    exact ext_iff.mp (eq_of_ancestor (hmem f) (hmem g) (h ▸ List.prefix_rfl)).1
  · exact fun p hp q hq => eq_of_ancestor hp hq

def nested : Disk :=
  { entries := [(["out".toList], .directory), (["out".toList, "pkg".toList], .directory),
      (["out".toList, "pkg".toList, "Foo.lua".toList], .file 0 (Utf8.encode "return 1"))]
    nextId := 1 }

/-- The unit `pkg.Foo` is found where it is staged, and no file of the unit `pkg` is in its way. -/
theorem unit_paths_embed_nested :
    let f : UnitFile := ⟨"pkg.Foo", UnitName.sourceExtension, by decide, .inl rfl⟩
    let g : UnitFile := ⟨"pkg", UnitName.binaryExtension, by decide, .inr rfl⟩
    let out := Path.ofString "out"
    f.path out = .ofString "out/pkg/Foo.lua" ∧
      Classpath.find ⟨[.directory out], none, false⟩ nested "pkg.Foo" =
        .ok (some ⟨"pkg.Foo", "out/pkg/Foo.lua", "return 1"⟩) ∧
      (f.path out).components ≠ (g.path out).components ∧
      (∀ p ∈ g.paths out, ∀ q ∈ f.paths out, ¬p.components <+: q.components) ∧
      ∀ p ∈ f.paths out, ∀ q ∈ f.paths out, p.components = q.components → p = q := by
  intro f g out
  obtain ⟨-, -, hfind, -, hinj, -⟩ := unit_paths_embed out f g
  have hplace : f.path out = .ofString "out/pkg/Foo.lua" := by decide
  have hstaged : f.staged.path out = .ofString "out/pkg/Foo.lua" := by decide
  rw [hstaged] at hfind
  refine ⟨hplace, ?_, ?_, ?_, ?_⟩
  · have hfile : nested.isFile (.ofString "out/pkg/Foo.lua") = true := by cbv
    have htext : nested.readText (.ofString "out/pkg/Foo.lua") = .ok "return 1" := by cbv
    have hfound := hfind ⟨[.directory out], none, false⟩ [] nested rfl rfl hfile
    rw [htext] at hfound
    exact hfound
  · exact fun h => absurd (hinj h).1 (by decide)
  · intro p hp q hq h
    obtain ⟨-, -, -, -, -, hapart⟩ := unit_paths_embed out g f
    exact absurd (congrArg UnitFile.name (hapart p hp q hq h).1) (by decide)
  · intro p hp q hq h
    obtain ⟨-, -, -, -, -, hapart⟩ := unit_paths_embed out f f
    exact (hapart p hp q hq (h ▸ List.prefix_rfl)).2

end UnitFile
end UnitCache
