import UnitCache.Proofs.PathComponents

namespace UnitCache

open UnitCache.Path (Component IsNamed)

def Path.Below (root p : Path) : Prop :=
  ∃ ns : List (List Char), ns ≠ [] ∧ p.components = root.components ++ ns.map Component.name

namespace UnitName

variable {name : String} {root : Path} {s n ext : List Char} {segs : List (List Char)}

/-- Names that spell a file below a root: no segment starts at the root of the file tree, and some
segment has something in it. -/
def Confined (name : String) : Prop :=
  (∀ s ∈ segments name, s.head? ≠ some '/') ∧ ∃ s ∈ segments name, s ≠ []

instance (name : String) : Decidable (Confined name) := inferInstanceAs (Decidable (_ ∧ _))

theorem no_dot_of_mem_segments (h : s ∈ segments name) : '.' ∉ s := not_mem_of_mem_cutAt h

def namesIn (s : List Char) : List (List Char) := (cutAt '/' s).filter (· ≠ [])

theorem mem_namesIn (h : n ∈ namesIn s) (hd : '.' ∉ s) : '/' ∉ n ∧ '.' ∉ n := by
  have hm := (List.mem_filter.mp h).1
  exact ⟨not_mem_of_mem_cutAt hm, fun hn => hd (mem_of_mem_cutAt hm hn)⟩

theorem namesIn_ne_nil (hs : s.head? ≠ some '/') (hne : s ≠ []) : namesIn s ≠ [] := by
  cases s with
  | nil => exact absurd rfl hne
  | cons c cs =>
    have hc : c ≠ '/' := by simpa using hs
    cases hcut : cutAt '/' cs <;> simp [namesIn, cutAt, hc, hcut]

/-- Pieces without dots are names or nothing. -/
theorem filterMap_ofPiece (hd : '.' ∉ s) :
    (cutAt '/' s).filterMap Component.ofPiece = (namesIn s).map Component.name := by
  have hpiece (n : List Char) (hn : n ∈ cutAt '/' s) :
      Component.ofPiece n = if n = [] then none else some (.name n) := by
    have hdot : '.' ∉ n := fun h => hd (mem_of_mem_cutAt hn h)
    cases n with
    | nil => rfl
    | cons c cs =>
      have hc : c ≠ '.' := fun h => hdot (h ▸ List.mem_cons_self)
      exact Path.ofPiece_of_name (by simp [Path.isNoise, hc]) (by simp [hc])
  rw [List.filterMap_congr hpiece, namesIn, ← List.filterMap_eq_map, List.filterMap_filter]
  refine List.filterMap_congr fun n _ => ?_
  by_cases hn : n = [] <;> simp [hn]

/-- Segments that do not start at the root of the file tree add their names to a path. -/
theorem components_join_segments (root : Path) (segs : List (List Char))
    (h : ∀ s ∈ segs, s.head? ≠ some '/' ∧ '.' ∉ s) :
    (segs.foldl (fun p s => p.join ⟨s⟩) root).components =
      root.components ++ (segs.flatMap namesIn).map Component.name := by
  induction segs generalizing root with
  | nil => simp
  | cons s segs ih =>
    obtain ⟨hslash, hd⟩ := h s List.mem_cons_self
    have hrel : (Path.mk s).isAbsolute = false := by simpa [Path.isAbsolute] using hslash
    have hdot : (cutAt '/' s).head? ≠ some ['.'] := by
      intro hh
      exact hd (mem_of_mem_cutAt (List.mem_of_mem_head? hh) List.mem_cons_self)
    rw [List.foldl_cons, ih _ fun t ht => h t (List.mem_cons_of_mem _ ht),
      Path.components_join root hrel hdot, filterMap_ofPiece hd]
    simp

/-- What the path of a confined name adds to its root. -/
theorem components_path (hc : Confined name) (he : ext ≠ []) (hs : '/' ∉ ext) :
    ∃ (ns : List (List Char)) (n : List Char), '/' ∉ n ∧ '.' ∉ n ∧ ∀ root : Path, (path root name ext).components =
      (root.components ++ ns.map Component.name) ++ [.name (n ++ '.' :: ext)] := by
  obtain ⟨hslash, s, hmem, hne⟩ := hc
  have hsegs (t : List Char) (ht : t ∈ segments name) : t.head? ≠ some '/' ∧ '.' ∉ t :=
    ⟨hslash t ht, no_dot_of_mem_segments ht⟩
  have hall : (segments name).flatMap namesIn ≠ [] := by
    intro hnil
    exact namesIn_ne_nil (hslash s hmem) hne (List.flatMap_eq_nil_iff.mp hnil s hmem)
  obtain ⟨ns, n, hn⟩ := (List.eq_nil_or_concat' _).resolve_left hall
  have hlast : n ∈ (segments name).flatMap namesIn := hn ▸ List.mem_concat_self
  obtain ⟨t, ht, hnt⟩ := List.mem_flatMap.mp hlast
  obtain ⟨hns, hnd⟩ := mem_namesIn hnt (hsegs t ht).2
  refine ⟨ns, n, hns, hnd, fun root => ?_⟩
  have hjoin := components_join_segments root (segments name) hsegs
  rw [hn, List.map_append, ← List.append_assoc] at hjoin
  exact Path.components_setExtension hjoin hnd he hs

theorem below_path (hc : Confined name) (he : ext ≠ []) (hs : '/' ∉ ext) (root : Path) :
    root.Below (path root name ext) := by
  obtain ⟨ns, n, -, -, hp⟩ := components_path hc he hs
  refine ⟨ns ++ [n ++ '.' :: ext], by simp, ?_⟩
  rw [hp, List.map_append, List.append_assoc]
  rfl

/-- The backup of a file stands beside it. -/
theorem components_backup {p : Path} {front : List Component} (h : p.components = front ++ [.name n]) :
    (backup p).components = front ++ [.name (n ++ backupSuffix)] := by
  obtain ⟨rest, hr, -, -, -⟩ := Path.reversedBody_of_components h
  have hspelled := Path.spelled_reversedBody (Path.chars_ne_nil_of_reversedBody hr)
  have hslash : '/' ∉ n := hspelled.no_slash n (by simp [hr])
  have hlong : 3 < (n ++ backupSuffix).length := by simp [backupSuffix]
  have hb : IsNamed (n ++ backupSuffix) :=
    ⟨⟨by simp [backupSuffix], by simp [hslash, backupSuffix]⟩, fun he => by simp [he] at hlong⟩
  have hup : n ++ backupSuffix ≠ ['.', '.'] := fun he => by simp [he] at hlong
  rw [backup, Path.fileName?_of_components h, Option.getD_some, Path.components_withFileName h hb hup]

/-- The backup of a file is below the root with the file. -/
theorem below_backup (hc : Confined name) (he : ext ≠ []) (hs : '/' ∉ ext) (root : Path) :
    root.Below (backup (path root name ext)) := by
  obtain ⟨ns, n, -, -, hp⟩ := components_path hc he hs
  refine ⟨ns ++ [n ++ '.' :: ext ++ backupSuffix], by simp, ?_⟩
  rw [components_backup (hp root), List.map_append, List.append_assoc]
  rfl

theorem isAbsolute_setExtension {p : Path} (h : p.isAbsolute = true) (ext : List Char) :
    (p.setExtension ext).isAbsolute = true := by
  unfold Path.setExtension
  split
  · simp only [Path.ofBody, h, if_true]
    split <;> rfl
  · exact h

theorem isAbsolute_join_left {p : Path} (h : p.isAbsolute = true) (q : Path) :
    (p.join q).isAbsolute = true := by
  obtain ⟨cs⟩ := p
  cases cs with
  | nil => cases h
  | cons c cs =>
    unfold Path.join
    split
    · assumption
    · split
      · simpa [Path.isAbsolute] using h
      · simpa [Path.isAbsolute] using h

theorem isAbsolute_join_segments (root : Path)
    (h : root.isAbsolute = true ∨ ∃ s ∈ segs, s.head? = some '/') :
    (segs.foldl (fun p s => p.join ⟨s⟩) root).isAbsolute = true := by
  induction segs generalizing root with
  | nil => exact h.resolve_right (by simp)
  | cons s segs ih =>
    refine ih _ ?_
    rcases h with h | ⟨t, ht, hh⟩
    · exact .inl (isAbsolute_join_left h _)
    · rcases List.mem_cons.mp ht with rfl | ht
      · have habs : (Path.mk t).isAbsolute = true := by simp [Path.isAbsolute, hh]
        have hjoin : root.join ⟨t⟩ = ⟨t⟩ := if_pos habs
        exact .inl ((congrArg Path.isAbsolute hjoin).trans habs)
      · exact .inr ⟨t, ht, hh⟩

/-- Other names leave a root that is a single name. -/
theorem not_below_path (hc : ¬Confined name) (he : ext ≠ []) (hs : '/' ∉ ext) :
    ¬Path.Below ⟨['r']⟩ (path ⟨['r']⟩ name ext) := by
  rintro ⟨ns, hns, hp⟩
  have hroot : (Path.mk ['r']).components = [] ++ [.name ['r']] := rfl
  by_cases habs : ∃ s ∈ segments name, s.head? = some '/'
  · have ha := isAbsolute_setExtension (isAbsolute_join_segments ⟨['r']⟩ (.inr habs)) ext
    rw [Path.components_eq, path, ha, hroot] at hp
    cases (List.cons.inj hp).1
  · have hslash (s : List Char) (hs : s ∈ segments name) : s.head? ≠ some '/' :=
      fun hh => habs ⟨s, hs, hh⟩
    have hempty (s : List Char) (hs : s ∈ segments name) : s = [] := by
      by_contra hne
      exact hc ⟨hslash, s, hs, hne⟩
    have hjoin := components_join_segments ⟨['r']⟩ (segments name) fun s hs =>
      ⟨hslash s hs, no_dot_of_mem_segments hs⟩
    have hnil : (segments name).flatMap namesIn = [] :=
      List.flatMap_eq_nil_iff.mpr fun s hs => by rw [hempty s hs]; rfl
    rw [hnil, List.map_nil, List.append_nil, hroot] at hjoin
    rw [path, Path.components_setExtension hjoin (by decide) he hs, hroot] at hp
    have hl := congrArg List.length hp
    simp only [List.length_append, List.length_map, List.length_cons, List.length_nil] at hl
    exact hns (List.length_eq_zero_iff.mp (by omega))

/-- The confined names are those whose files are below whatever root they are put under. -/
theorem confined_iff_below (name : String) (he : ext ≠ []) (hs : '/' ∉ ext) :
    Confined name ↔ ∀ root : Path, root.Below (path root name ext) := by
  refine ⟨fun hc => below_path hc he hs, fun h => ?_⟩
  by_contra hc
  exact not_below_path hc he hs (h _)

end UnitName
end UnitCache
