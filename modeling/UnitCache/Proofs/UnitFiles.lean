import UnitCache.Proofs.DiskBelow
import UnitCache.Store.Basic

namespace UnitCache

open Disk (IsProper Rooted Legible)

/-- The source or the compiled form of a unit with a name that stays below a root. -/
structure UnitFile where
  name : String
  ext : List Char
  valid : UnitName.isValid name = true
  known : ext = UnitName.sourceExtension ∨ ext = UnitName.binaryExtension

namespace UnitFile

variable {f g : UnitFile} {root : Path} {base : Place} {d : Disk} {s : List Char}

theorem ext_iff : f = g ↔ f.name = g.name ∧ f.ext = g.ext := by
  cases f
  cases g
  simp

instance : DecidableEq UnitFile := fun _ _ => decidable_of_iff _ ext_iff.symm

def path (root : Path) (f : UnitFile) : Path := UnitName.path root f.name f.ext

def dirs (f : UnitFile) : List Name := (UnitName.segments f.name).dropLast

def stem (f : UnitFile) : Name := (UnitName.segments f.name).getLast (cutAt_ne_nil '.' _)

def fileName (f : UnitFile) : Name := f.stem ++ '.' :: f.ext

def backupName (f : UnitFile) : Name := f.fileName ++ UnitName.backupSuffix

def place (base : Place) (f : UnitFile) : Place := base ++ (f.dirs ++ [f.fileName])

def backupPlace (base : Place) (f : UnitFile) : Place := base ++ (f.dirs ++ [f.backupName])

theorem dirs_stem (f : UnitFile) : f.dirs ++ [f.stem] = UnitName.segments f.name :=
  List.dropLast_append_getLast _

theorem no_dot_of_mem (h : s ∈ f.dirs ++ [f.stem]) : '.' ∉ s :=
  not_mem_of_mem_cutAt (dirs_stem f ▸ h)

theorem isProper_of_mem (h : s ∈ f.dirs ++ [f.stem]) : IsProper s := by
  have hdot := no_dot_of_mem h
  rw [dirs_stem] at h
  have hv := List.all_eq_true.mp f.valid s h
  simp only [UnitName.isPlain, Bool.and_eq_true, Bool.not_eq_true', decide_eq_true_eq] at hv
  refine ⟨⟨⟨?_, by simpa using hv.1.1⟩, ?_⟩, ?_⟩
  · rintro rfl
    exact absurd hv.2 (by decide)
  · rintro rfl
    exact hdot List.mem_cons_self
  · rintro rfl
    exact hdot List.mem_cons_self

theorem isProper_of_mem_dirs (h : s ∈ f.dirs) : IsProper s :=
  isProper_of_mem (List.mem_append_left _ h)

theorem ext_cases (f : UnitFile) : f.ext ≠ [] ∧ '/' ∉ f.ext ∧ '.' ∉ f.ext := by
  rcases f.known with h | h <;> rw [h] <;> decide

theorem stem_no_dot (f : UnitFile) : '.' ∉ f.stem := no_dot_of_mem List.mem_concat_self

theorem stem_proper (f : UnitFile) : IsProper f.stem := isProper_of_mem List.mem_concat_self

/-- A name stays proper with more at its end that starts with a dot and goes on. -/
theorem stem_append_proper (f : UnitFile) {t : List Char} (ht : '/' ∉ t) :
    IsProper (f.stem ++ '.' :: t) := by
  have hstem := f.stem_proper
  have hlong : 2 ≤ (f.stem ++ '.' :: t).length := by
    have := List.length_pos_iff.mpr hstem.ne_nil
    simp only [List.length_append, List.length_cons]
    omega
  refine ⟨⟨hstem.append (by simp [ht]), fun h => by simp [h] at hlong⟩, fun h => ?_⟩
  -- Only a stem that is a dot itself gives two dots.
  cases hc : f.stem with
  | nil => exact hstem.ne_nil hc
  | cons c cs =>
    rw [hc] at h
    have hdot : c = '.' := (List.cons.inj h).1
    exact f.stem_no_dot (hc ▸ hdot ▸ List.mem_cons_self)

theorem fileName_proper (f : UnitFile) : IsProper f.fileName := f.stem_append_proper f.ext_cases.2.1

theorem backupName_eq (f : UnitFile) :
    f.backupName = f.stem ++ '.' :: (f.ext ++ UnitName.backupSuffix) := by
  simp [backupName, fileName]

theorem backupName_proper (f : UnitFile) : IsProper f.backupName := by
  rw [backupName_eq]
  refine f.stem_append_proper fun h => ?_
  rcases List.mem_append.mp h with h | h
  · exact f.ext_cases.2.1 h
  · exact absurd h (by decide)

theorem names_proper (f : UnitFile) {n : Name} (hn : IsProper n) : ∀ m ∈ f.dirs ++ [n], IsProper m := by
  intro m hm
  rcases List.mem_append.mp hm with hm | hm
  · exact isProper_of_mem_dirs hm
  · exact List.mem_singleton.mp hm ▸ hn

theorem place_names_proper (f : UnitFile) : ∀ m ∈ f.dirs ++ [f.fileName], IsProper m :=
  f.names_proper f.fileName_proper

theorem backup_names_proper (f : UnitFile) : ∀ m ∈ f.dirs ++ [f.backupName], IsProper m :=
  f.names_proper f.backupName_proper

theorem below_dirs_ne_nil (hr : root.chars ≠ []) (f : UnitFile) : (root.below f.dirs).chars ≠ [] :=
  Path.below_ne_nil hr fun _ hm => (isProper_of_mem_dirs hm).toIsPiece

/-- The path to a file spells its place. -/
theorem path_eq (root : Path) (f : UnitFile) :
    f.path root = root.below (f.dirs ++ [f.fileName]) := by
  obtain ⟨hne, hslash, -⟩ := f.ext_cases
  have hset := Path.setExtension_join (root.below f.dirs) f.stem_proper.toIsPiece f.stem_no_dot
    hne hslash
  rw [← Path.below_concat, dirs_stem] at hset
  rw [Path.below_concat]
  exact hset

def home (root : Path) (f : UnitFile) : Path := if f.dirs = [] then root.trim else root

theorem trim_below_dirs (root : Path) (f : UnitFile) :
    (root.below f.dirs).trim = (f.home root).below f.dirs := by
  unfold home
  split
  · rename_i h
    rw [h]
    rfl
  · rename_i h
    exact Path.trim_below root (fun m hm => (isProper_of_mem_dirs hm).toIsNamed) h

theorem backup_path (root : Path) (f : UnitFile) :
    UnitName.backup (f.path root) = (f.home root).below (f.dirs ++ [f.backupName]) := by
  have hn := f.fileName_proper
  rw [path_eq, Path.below_concat, UnitName.backup, Path.fileName?_join _ hn.toIsNamed hn.ne_up,
    Path.withFileName_join _ hn.toIsNamed hn.ne_up, trim_below_dirs, ← Path.below_concat]
  rfl

theorem directoryOf_path (hr : root.chars ≠ []) (f : UnitFile) :
    Store.directoryOf (f.path root) = (f.home root).below f.dirs := by
  have hp := f.below_dirs_ne_nil hr
  rw [path_eq, Path.below_concat, Store.directoryOf, Path.parent?_join _ f.fileName_proper.toIsNamed]
  simp only [Path.isEmpty, List.isEmpty_iff, (Path.head_trim hp).1, if_false]
  exact trim_below_dirs root f

theorem rooted_home (h : Rooted d root base) (f : UnitFile) : Rooted d (f.home root) base := by
  unfold home
  split
  · exact h.trim
  · exact h

/-- The directory of a file can be spelled out if the file can. -/
theorem legible_dirs (hr : root.chars ≠ []) (h : Legible (f.path root)) :
    Legible ((f.home root).below f.dirs) := by
  have hp := f.below_dirs_ne_nil hr
  rw [path_eq, Path.below_concat] at h
  rw [← trim_below_dirs]
  exact h.of_prefix ((Path.prefix_trim hp).trans (Path.prefix_join hp f.fileName_proper.toIsPiece))

/-- What stands before the first dot and what follows it are read off a text. -/
theorem append_dot_inj {s s' t t' : List Char} (hs : '.' ∉ s) (hs' : '.' ∉ s')
    (h : s ++ '.' :: t = s' ++ '.' :: t') : s = s' ∧ t = t' := by
  have hcut := congrArg (cutAt '.') h
  rw [cutAt_append hs, cutAt_append hs'] at hcut
  obtain rfl := (List.cons.inj hcut).1
  exact ⟨rfl, (List.cons.inj (List.append_cancel_left h)).2⟩

theorem eq_of_names (hd : f.dirs = g.dirs) (hn : f.fileName = g.fileName) : f = g := by
  obtain ⟨hs, he⟩ := append_dot_inj f.stem_no_dot g.stem_no_dot hn
  have hseg : UnitName.segments f.name = UnitName.segments g.name := by
    rw [← dirs_stem, ← dirs_stem, hd, hs]
  have hname := congrArg (pasteWith '.') hseg
  rw [UnitName.segments, UnitName.segments, pasteWith_cutAt, pasteWith_cutAt] at hname
  cases f
  cases g
  cases String.toList_inj.mp hname
  cases he
  rfl

/-- Files of different units, or different files of one, stand at different places. -/
theorem place_inj (h : f.place base = g.place base) : f = g := by
  obtain ⟨hd, hn⟩ := List.append_inj' (List.append_cancel_left h) rfl
  exact eq_of_names hd (List.singleton_inj.mp hn)

theorem backupPlace_inj (h : f.backupPlace base = g.backupPlace base) : f = g := by
  obtain ⟨hd, hn⟩ := List.append_inj' (List.append_cancel_left h) rfl
  exact eq_of_names hd (List.append_cancel_right (List.singleton_inj.mp hn))

/-- No file stands where a backup stands. -/
theorem place_ne_backupPlace (base : Place) (f g : UnitFile) : f.place base ≠ g.backupPlace base := by
  intro h
  obtain ⟨-, hn⟩ := List.append_inj' (List.append_cancel_left h) rfl
  have hname := List.singleton_inj.mp hn
  rw [backupName_eq] at hname
  obtain ⟨-, he⟩ := append_dot_inj f.stem_no_dot g.stem_no_dot hname
  refine f.ext_cases.2.2 (he ▸ List.mem_append_right _ ?_)
  decide

/-- A name with a dot is no directory that leads to a file. -/
theorem not_prefix_dirs {n : Name} (hn : '.' ∈ n) (f g : UnitFile) : ¬f.dirs ++ [n] <+: g.dirs := by
  intro h
  have hm : n ∈ g.dirs := h.subset List.mem_concat_self
  exact no_dot_of_mem (List.mem_append_left _ hm) hn

theorem dot_mem_fileName (f : UnitFile) : '.' ∈ f.fileName := by simp [fileName]

theorem dot_mem_backupName (f : UnitFile) : '.' ∈ f.backupName := by simp [backupName, fileName]

theorem place_ne_nil (base : Place) (f : UnitFile) : f.place base ≠ [] := by simp [place]

theorem backupPlace_ne_nil (base : Place) (f : UnitFile) : f.backupPlace base ≠ [] := by
  simp [backupPlace]

end UnitFile
end UnitCache
