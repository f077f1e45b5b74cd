import UnitCache.Proofs.DiskWalk
import UnitCache.Proofs.PathJoin

namespace UnitCache.Disk

open UnitCache.Path (IsPiece IsNamed)

variable {d d' : Disk} {p q root : Path} {base place : Place} {ms : List Name} {last : Last} {spot : Spot}

structure IsProper (n : Name) : Prop extends IsNamed n where
  ne_up : n ≠ ['.', '.']

theorem IsProper.isPlain {n : Name} (h : IsProper n) : IsPlain n := ⟨h.ne_dot, h.ne_up⟩

/-- Paths that are not refused before a walk begins. -/
structure Legible (p : Path) : Prop where
  no_nul : '\x00' ∉ p.chars
  short : width p.chars < maxPath

theorem width_append (cs ds : List Char) : width (cs ++ ds) = width cs + width ds := by
  have hfold (a : Nat) (ns : List Nat) : ns.foldl (· + ·) a = a + ns.foldl (· + ·) 0 := by
    induction ns generalizing a with
    | nil => rfl
    | cons n ns ih => rw [List.foldl_cons, List.foldl_cons, ih (a + n), ih (0 + n)]; omega
  rw [width, List.map_append, List.foldl_append, hfold]
  rfl

/-- The front of a path is as good as the path. -/
theorem Legible.of_prefix (h : Legible q) (hp : p.chars <+: q.chars) : Legible p := by
  obtain ⟨cs, hc⟩ := hp
  have hw := h.short
  rw [← hc, width_append] at hw
  exact ⟨fun hn => h.no_nul (hc ▸ List.mem_append_left _ hn), by omega⟩

def start (d : Disk) (p : Path) : Place := if p.isAbsolute then [] else d.cwd

theorem find_of_legible (d : Disk) (last : Last) (hp : p.chars ≠ []) (h : Legible p) :
    d.find last p = walk d last maxLinks (d.start p) (endsInSlash p) (names p) := by
  rw [find, if_neg (by simpa using h.no_nul), if_neg (by simpa [Path.isEmpty] using hp),
    if_neg (Nat.not_le.mpr h.short)]
  rfl

theorem legible_of_find (hp : p.chars ≠ [])
    (h : (∃ spot, d.find last p = .ok spot) ∨ d.find last p = .error .notFound) : Legible p := by
  by_cases hn : p.chars.contains '\x00' = true
  · rw [find, if_pos hn] at h
    rcases h with ⟨_, h⟩ | h <;> cases h
  by_cases hw : maxPath ≤ width p.chars
  · rw [find, if_neg hn, if_neg (by simpa [Path.isEmpty] using hp), if_pos hw] at h
    rcases h with ⟨_, h⟩ | h <;> cases h
  exact ⟨by simpa using hn, Nat.not_le.mp hw⟩

theorem ne_nil_of_find (h : d.find last p = .ok spot) : p.chars ≠ [] := by
  intro hp
  simp [find, Path.isEmpty, hp] at h

/-- What is found is found by a walk. -/
theorem walk_of_find (h : d.find last p = .ok spot) :
    walk d last maxLinks (d.start p) (endsInSlash p) (names p) = .ok spot := by
  have hp := ne_nil_of_find h
  rw [← find_of_legible d last hp (legible_of_find hp (.inl ⟨_, h⟩)), h]

/-- What a walk along a path finds on another tree, where the path was followed on some tree. -/
theorem find_of_walk {last' : Last} {spot' : Spot} (h : d.find last p = .ok spot)
    (hw : walk d' last' maxLinks (d'.start p) (endsInSlash p) (names p) = .ok spot') :
    d'.find last' p = .ok spot' := by
  have hp := ne_nil_of_find h
  rw [find_of_legible d' last' hp (legible_of_find hp (.inl ⟨_, h⟩)), hw]

theorem find_of_stat {e : Entry} (h : d.stat p = .ok (place, e)) :
    d.find .target p = .ok ⟨place, some e⟩ := by
  unfold stat at h
  split at h
  · cases h
  · cases h
  · rename_i hf
    cases h
    exact hf

theorem stat_of_find {e : Entry} (h : d.find .target p = .ok ⟨place, some e⟩) :
    d.stat p = .ok (place, e) := by
  rw [stat, h]

/-- The names of a path lead to a directory. Those of the empty path lead to the working directory. -/
def Stands (d : Disk) (p : Path) (base : Place) : Prop :=
  ∃ links, Leads d maxLinks (d.start p) (names p) links base ∧ d.look? base = some .directory

def NoLinks (d : Disk) (base : Place) : Prop := ∀ ms target, d.look? (base ++ ms) ≠ some (.link target)

theorem Stands.unique {base' : Place} (h : d.Stands p base) (h' : d.Stands p base') : base = base' := by
  obtain ⟨links, hl, -⟩ := h
  obtain ⟨links', hl', -⟩ := h'
  exact (hl.unique hl').1

theorem Stands.stat (h : d.Stands p base) (hp : p.chars ≠ []) (hl : Legible p) :
    d.stat p = .ok (base, .directory) := by
  obtain ⟨links, hleads, hb⟩ := h
  exact stat_of_find ((find_of_legible d .target hp hl).trans (hleads.walk_target hb _))

theorem Stands.isDirectory (h : d.Stands p base) (hp : p.chars ≠ []) (hl : Legible p) :
    d.isDirectory p = true := by
  rw [Disk.isDirectory, h.stat hp hl]

/-- What a path has at its end that names nothing does not matter. -/
theorem Stands.trim (h : d.Stands p base) : d.Stands p.trim base := by
  obtain ⟨links, hl, hb⟩ := h
  obtain ⟨dots, hn, hd⟩ := p.names_trim
  rw [hn] at hl
  obtain ⟨k, there, hfront, hdots⟩ := hl.split
  obtain ⟨rfl, -⟩ := hdots.of_dots hd
  refine ⟨k, ?_, hb⟩
  by_cases hp : p.chars = []
  · obtain rfl : p = ⟨[]⟩ := congrArg Path.mk hp
    exact hfront
  · rwa [start, (Path.head_trim hp).2]

/-- Names joined to a path lead down from where it stands. -/
theorem Stands.find_below (h : d.Stands root base) (hn : d.NoLinks base) (hm : ∀ m ∈ ms, IsProper m)
    (hne : ms ≠ []) (hl : Legible (root.below ms)) (last : Last) :
    d.find last (root.below ms) = d.descend base ms := by
  obtain ⟨links, hroot, -⟩ := h
  have hp (m : Name) (hmem : m ∈ ms) : IsPiece m := (hm m hmem).toIsPiece
  rw [find_of_legible d last (Path.below_ne_nil_of_ne_nil root hp hne) hl, Path.names_below root hp,
    Path.endsInSlash_below root hp hne, start, Path.isAbsolute_below root hp]
  exact (hroot.walk_append hne).trans (walk_eq_descend (fun m hm' => (hm m hm').isPlain) hn)

structure Rooted (d : Disk) (root : Path) (base : Place) : Prop where
  stands : d.stat root = .ok (base, .directory)
  no_links : ∀ ms target, d.look? (base ++ ms) ≠ some (.link target)

namespace Rooted

theorem ne_nil (h : Rooted d root base) : root.chars ≠ [] := ne_nil_of_find (find_of_stat h.stands)

theorem legible (h : Rooted d root base) : Legible root :=
  legible_of_find h.ne_nil (.inl ⟨_, find_of_stat h.stands⟩)

theorem leads (h : Rooted d root base) :
    ∃ links, Leads d maxLinks (d.start root) (names root) links base ∧
      d.look? base = some .directory := by
  have hw := walk_of_find (find_of_stat h.stands)
  exact leads_of_walk_target hw

theorem directory (h : Rooted d root base) : d.look? base = some .directory := by
  obtain ⟨links, hl, hb⟩ := h.leads
  exact hb

theorem toStands (h : Rooted d root base) : d.Stands root base := h.leads

theorem of_leads {links : Nat} (hp : p.chars ≠ []) (hl : Legible p)
    (h : Leads d maxLinks (d.start p) (names p) links base) (hb : d.look? base = some .directory)
    (hn : ∀ ms target, d.look? (base ++ ms) ≠ some (.link target)) : Rooted d p base :=
  ⟨Stands.stat ⟨links, h, hb⟩ hp hl, hn⟩

/-- What a path has at its end that names nothing does not matter. -/
theorem trim (h : Rooted d root base) : Rooted d root.trim base := by
  obtain ⟨links, hl, hb⟩ := h.toStands.trim
  exact of_leads (Path.head_trim h.ne_nil).1 (h.legible.of_prefix (Path.prefix_trim h.ne_nil)) hl hb
    h.no_links

/-- Names joined to the path of a root lead down from it. -/
theorem find_below (h : Rooted d root base) (hm : ∀ m ∈ ms, IsProper m) (hne : ms ≠ [])
    (hl : Legible (root.below ms)) (last : Last) :
    d.find last (root.below ms) = d.descend base ms :=
  h.toStands.find_below h.no_links hm hne hl last

end Rooted

/-- A change of the tree that leaves directories and links as they are; files may come and go, and
directories may be added. -/
structure Keeps (d d' : Disk) : Prop where
  cwd : d'.cwd = d.cwd
  directories : ∀ p, d.look? p = some .directory → d'.look? p = some .directory
  links : ∀ p target, d'.look? p = some (.link target) ↔ d.look? p = some (.link target)

namespace Keeps

theorem refl (d : Disk) : Keeps d d := ⟨rfl, fun _ h => h, fun _ _ => Iff.rfl⟩

theorem trans {d'' : Disk} (h : Keeps d d') (h' : Keeps d' d'') : Keeps d d'' :=
  ⟨h'.cwd.trans h.cwd, fun p hp => h'.directories p (h.directories p hp),
    fun p target => (h'.links p target).trans (h.links p target)⟩

end Keeps

/-- A root stays one. -/
theorem Rooted.keep (h : Rooted d root base) (hk : Keeps d d') : Rooted d' root base := by
  obtain ⟨links, hl, hb⟩ := h.leads
  have hstart : d'.start root = d.start root := by rw [start, start, hk.cwd]
  have hl' := hl.mono hk.directories fun p target => (hk.links p target).mpr
  exact .of_leads h.ne_nil h.legible (hstart ▸ hl') (hk.directories _ hb)
    fun ms target ht => h.no_links ms target ((hk.links _ _).mp ht)

/-- A path below a root that could be followed still leads where it led. -/
theorem Rooted.find_keeps {n : Name} (h : Rooted d root base) (hm : ∀ m ∈ ms ++ [n], IsProper m)
    (hf : d.find last (root.below (ms ++ [n])) = .ok spot) (hk : Keeps d d') (last' : Last) :
    d'.find last' (root.below (ms ++ [n])) =
      .ok ⟨base ++ (ms ++ [n]), d'.look? (base ++ (ms ++ [n]))⟩ := by
  have hp := Path.below_ne_nil h.ne_nil fun m hmem => (hm m hmem).toIsPiece
  have hl := legible_of_find hp (.inl ⟨_, hf⟩)
  rw [h.find_below hm (by simp) hl] at hf
  rw [(h.keep hk).find_below hm (by simp) hl]
  exact descend_mono hk.directories hf

end UnitCache.Disk
