import UnitCache.Proofs.StoreOutcome
import UnitCache.Proofs.StoreGrowth

namespace UnitCache

open Disk (Keeps Grows Sound Legible Down Ladder Rooted IsProper Last placeOf names)

namespace Path

variable {p : Path} {ps : List (List Char)} {absolute : Bool}

theorem dropNoise_dropNoise (absolute : Bool) (ps : List (List Char)) :
    dropNoise absolute (dropNoise absolute ps) = dropNoise absolute ps := by
  fun_induction dropNoise absolute ps with
  | case1 => rfl
  | case2 p h => rfl
  | case3 p h => rw [dropNoise, if_neg h]
  | case4 p q ps h ih => exact ih
  | case5 p q ps h => rw [dropNoise, if_neg h]

theorem spelled_lead (hp : p.chars ≠ []) : Spelled p.isAbsolute p.lead := by
  have hb := spelled_body hp
  rcases body_eq_lead hp with h | h
  · exact h ▸ hb
  · exact (h ▸ hb).of_append

/-- Pieces without noise at their end. -/
theorem Spelled.dropNoise (h : Spelled absolute ps) :
    Spelled absolute (dropNoise absolute ps.reverse).reverse := by
  obtain ⟨noise, he, -⟩ := dropNoise_eq absolute ps.reverse
  have hps := congrArg List.reverse he
  rw [List.reverse_reverse, List.reverse_append] at hps
  exact (hps ▸ h).of_append

theorem endsInSlash_ofBody {m : List Char} (h : Spelled absolute (ps ++ [m])) (hm : m ≠ []) :
    Disk.endsInSlash (ofBody absolute (ps ++ [m])) = false := by
  have hlast : ∃ front, (ofBody absolute (ps ++ [m])).chars = front ++ m := by
    have hpaste : ∃ front, pasteWith '/' (ps ++ [m]) = front ++ m := by
      by_cases hps : ps = []
      · exact ⟨[], by rw [hps]; rfl⟩
      · exact ⟨pasteWith '/' ps ++ ['/'], by rw [pasteWith_concat '/' hps]; simp⟩
    obtain ⟨front, hf⟩ := hpaste
    cases absolute with
    | true => exact ⟨'/' :: front, congrArg ('/' :: ·) hf⟩
    | false => exact ⟨front, hf⟩
  obtain ⟨front, hf⟩ := hlast
  refine decide_eq_false fun hslash => ?_
  rw [hf, List.getLast?_append_of_ne_nil _ hm] at hslash
  exact h.no_slash m (by simp) (List.mem_of_getLast? hslash)

theorem Spelled.body (h : Spelled absolute ps) (hn : ps ≠ []) : (ofBody absolute ps).body = ps := by
  rw [Path.body, h.isAbsolute_ofBody]
  cases absolute <;> exact cutAt_pasteWith hn h.no_slash

/-- The ancestors of a trimmed path. -/
theorem ancestors_ofBody {m : List Char} {qs : List (List Char)} (h : Spelled absolute ps.reverse)
    (hd : Path.dropNoise absolute ps = m :: qs) :
    (ofBody absolute (m :: qs).reverse).ancestors = ancestorsOf absolute ps := by
  have hs := h.dropNoise
  rw [List.reverse_reverse, hd] at hs
  have hagain := dropNoise_dropNoise absolute ps
  rw [hd] at hagain
  have hunfold (rs : List (List Char)) (hr : Path.dropNoise absolute rs = m :: qs) :
      ancestorsOf absolute rs = ofBody absolute (m :: qs).reverse :: ancestorsOf absolute qs := by
    rw [ancestorsOf]
    split
    · rename_i hnil
      rw [hr] at hnil
      cases hnil
    · rename_i hcons
      rw [hr] at hcons
      obtain ⟨rfl, rfl⟩ := List.cons.inj hcons
      rfl
  rw [ancestors, hs.isAbsolute_ofBody, hs.body (by simp), List.reverse_reverse, hunfold _ hagain,
    hunfold _ hd, List.tail_cons]

end Path

namespace Disk

variable {d d₀ : Disk} {p root : Path} {base here : Place} {ms ns : List Name} {n : Name} {last : Last}
  {links : Nat}

def plainNames (p : Path) : List Name := (names p).filter (· ≠ ['.'])

/-- Dots on the way do not matter. -/
theorem walk_eq_descend_dots (hl : d.Linkless) (hup : ∀ m ∈ ms ++ [n], m ≠ ['.', '.'])
    (hn : n ≠ ['.']) : walk d last links here false (ms ++ [n]) =
      d.descend here (ms.filter (· ≠ ['.']) ++ [n]) := by
  induction ms generalizing here with
  | nil =>
    refine walk_eq_descend (fun m hm => ?_) fun ms target => hl _ _
    exact List.mem_singleton.mp hm ▸ ⟨hn, hup n (by simp)⟩
  | cons m ms ih =>
    have hrest (here : Place) := @ih here fun x hx => hup x (List.mem_cons_of_mem m hx)
    rw [List.cons_append, walk_cons_of_ne_nil _ _ _ _ _ _ (by simp)]
    by_cases hdot : m = ['.']
    · rw [if_pos hdot, List.filter_cons_of_neg (by simpa using hdot)]
      exact hrest here
    rw [if_neg hdot, if_neg (hup m (by simp)), List.filter_cons_of_pos (by simpa using hdot),
      List.cons_append, descend]
    split
    · rfl
    rcases hf : d.look? (here ++ [m]) with _ | ⟨id, content⟩ | _ | target
    · simp
    · simp
    · simpa using hrest (here ++ [m])
    · exact absurd hf (hl _ _)

/-- A path without steps up leads down from where it starts, if it ends in a name. -/
theorem down_plain (d₀ : Disk) (hp : p.chars ≠ []) (hl : Legible p) (hn : names p = ms ++ [n])
    (hup : ['.', '.'] ∉ names p) (hdot : n ≠ ['.']) (hslash : endsInSlash p = false) :
    Down d₀ p (d₀.start p) (ms.filter (· ≠ ['.']) ++ [n]) := by
  intro d hk hlinks last
  have hup' (m : Name) (hm : m ∈ ms ++ [n]) : m ≠ ['.', '.'] := fun he => hup (hn ▸ he ▸ hm)
  rw [find_of_legible d last hp hl, hk.start, hn, hslash, walk_eq_descend_dots hlinks hup' hdot]

section Pieces

open UnitCache.Path (Spelled dropNoise isNoise ofBody ancestorsOf)

variable {absolute : Bool} {ps : List (List Char)} {m : List Char}

theorem down_ofBody (d₀ : Disk) (hs : Spelled absolute (ps ++ [m])) (hup : ['.', '.'] ∉ ps ++ [m])
    (hm : isNoise m = false) (hl : Legible (ofBody absolute (ps ++ [m]))) :
    (ofBody absolute (ps ++ [m])).chars ≠ [] ∧ Down d₀ (ofBody absolute (ps ++ [m]))
      (if absolute then [] else d₀.cwd) (ps.filter (fun s => !isNoise s) ++ [m]) := by
  obtain ⟨hne, hdot⟩ : m ≠ [] ∧ m ≠ ['.'] := by simpa [isNoise] using hm
  have hnames : names (ofBody absolute (ps ++ [m])) = ps.filter (· ≠ []) ++ [m] := by
    rw [Path.names_ofBody _ hs.no_slash, List.filter_append]
    simp [hne]
  have hwritten : (ofBody absolute (ps ++ [m])).chars ≠ [] := by
    intro hnil
    rw [show ofBody absolute (ps ++ [m]) = ⟨[]⟩ from congrArg Path.mk hnil] at hnames
    simp [names, cutAt] at hnames
  have hstart : d₀.start (ofBody absolute (ps ++ [m])) = if absolute then [] else d₀.cwd := by
    rw [start, hs.isAbsolute_ofBody]
  have hplain : (ps.filter (· ≠ [])).filter (· ≠ ['.']) = ps.filter (fun s => !isNoise s) := by
    rw [List.filter_filter]
    refine List.filter_congr fun s _ => ?_
    simp only [isNoise, Bool.not_or, ne_eq, decide_not]
    exact Bool.and_comm _ _
  have hdown := down_plain d₀ hwritten hl hnames (fun hmem => hup ?_) hdot
    (Path.endsInSlash_ofBody hs hne)
  · rw [hstart, hplain] at hdown
    exact ⟨hwritten, hdown⟩
  · rw [hnames] at hmem
    rcases List.mem_append.mp hmem with hmem | hmem
    · exact List.mem_append_left _ (List.mem_filter.mp hmem).1
    · exact List.mem_append_right _ hmem

/-- The ancestors of a path without steps up lead down from where it starts. -/
theorem ladder_ancestorsOf (d₀ : Disk) (hs : Spelled absolute ps.reverse)
    (hup : ['.', '.'] ∉ ps) (hl : Legible (ofBody absolute (dropNoise absolute ps).reverse)) :
    Ladder d₀ (if absolute then [] else d₀.cwd) (ancestorsOf absolute ps)
      (ps.filter (fun s => !isNoise s)).reverse := by
  fun_induction ancestorsOf absolute ps with
  | case1 ps h =>
    obtain ⟨noise, he, hn⟩ := Path.dropNoise_eq absolute ps
    rw [h, List.append_nil] at he
    rw [he, List.filter_eq_nil_iff.mpr (by simpa using hn)]
    exact .foot _
  | case2 ps m qs h ih =>
    obtain ⟨noise, he, hn⟩ := Path.dropNoise_eq absolute ps
    rw [h] at he hl
    rw [he, List.filter_append, List.filter_eq_nil_iff.mpr (by simpa using hn), List.nil_append]
    rcases Path.head_dropNoise h with hm | ⟨-, rfl, rfl⟩
    · have hkept : Spelled absolute (qs.reverse ++ [m]) := by
        rw [he, List.reverse_append, List.reverse_cons] at hs
        exact hs.of_append
      have hup' : ['.', '.'] ∉ qs.reverse ++ [m] := fun hmem =>
        hup (he ▸ List.mem_append_right _ (by simpa [or_comm] using hmem))
      rw [List.reverse_cons] at hl ⊢
      obtain ⟨hwritten, hdown⟩ := down_ofBody d₀ hkept hup' hm hl
      rw [List.filter_cons_of_pos (by simp [hm]), List.reverse_cons, ← List.filter_reverse]
      refine .rung hwritten hdown ?_
      rw [List.filter_reverse]
      refine ih hkept.of_append (fun hmem => hup' (by simp [hmem])) (hl.of_prefix ?_)
      -- What is in front of the last piece is the front of the path.
      obtain ⟨noise', he', -⟩ := Path.dropNoise_eq absolute qs
      have hqs := congrArg List.reverse he'
      rw [List.reverse_append] at hqs
      have hpre := Path.prefix_pasteWith '/' (dropNoise absolute qs).reverse (noise'.reverse ++ [m])
      rw [← List.append_assoc, ← hqs] at hpre
      cases absolute with
      | true => exact List.prefix_cons_inj _ |>.mpr hpre
      | false => exact hpre
    · exact .foot _

end Pieces

/-- The directory of a path without steps up is made from where it starts. -/
theorem ladder_trim (hp : p.chars ≠ []) (hup : ['.', '.'] ∉ names p) (hl : Legible p.trim) :
    Ladder d₀ (d₀.start p) p.trim.ancestors (plainNames p) := by
  have hs := Path.spelled_lead hp
  have hplain : (p.lead.reverse.filter (fun s => !Path.isNoise s)).reverse = plainNames p := by
    rw [List.filter_reverse, List.reverse_reverse, plainNames, ← Path.names_lead, List.filter_filter]
    refine List.filter_congr fun s _ => ?_
    simp only [Path.isNoise, Bool.not_or, ne_eq, decide_not]
    exact Bool.and_comm _ _
  have hup' : ['.', '.'] ∉ p.lead.reverse := by
    intro hmem
    refine hup ?_
    rw [← Path.names_lead]
    exact List.mem_filter.mpr ⟨List.mem_reverse.mp hmem, by decide⟩
  have hladder := ladder_ancestorsOf d₀ (by rwa [List.reverse_reverse]) hup' hl
  rw [hplain] at hladder
  cases hd : Path.dropNoise p.isAbsolute p.lead.reverse with
  | nil =>
    obtain ⟨noise, he, hn⟩ := Path.dropNoise_eq p.isAbsolute p.lead.reverse
    rw [hd, List.append_nil] at he
    rw [← hplain, he, List.filter_eq_nil_iff.mpr (by simpa using hn)]
    exact .foot _
  | cons m qs =>
    rw [Path.trim, hd, Path.ancestors_ofBody (by rwa [List.reverse_reverse]) hd]
    exact hladder

/-- Paths that are joined to that of a directory lead down from it. -/
theorem down_below (h : Rooted d₀ root base) (hm : ∀ m ∈ ms, IsProper m) (hne : ms ≠ [])
    (hl : Legible (root.below ms)) : Down d₀ (root.below ms) base ms :=
  fun _ hk _ last => (h.keep hk).find_below hm hne hl last

theorem ladder_below (h : Rooted d₀ root base) (hm : ∀ m ∈ ms, IsProper m)
    (hl : Legible (root.below ms)) : Ladder d₀ base (root.below ms).ancestors ms := by
  induction ms using List.reverseRecOn with
  | nil => exact .foot _
  | append_singleton ms m ih =>
    have hfront (n : Name) (hn : n ∈ ms) : IsProper n := hm n (List.mem_append_left _ hn)
    have hwritten := Path.below_ne_nil h.ne_nil fun n hn => (hm n hn).toIsPiece
    have hdown := down_below h hm (by simp) hl
    by_cases hms : ms = []
    · subst hms
      exact .rung hwritten hdown (.foot _)
    · rw [Path.ancestors_below root (fun n hn => (hm n hn).toIsNamed) hms]
      refine .rung hwritten hdown (ih hfront (hl.of_prefix ?_))
      rw [Path.below_concat]
      exact Path.prefix_join (Path.below_ne_nil h.ne_nil fun n hn => (hfront n hn).toIsPiece)
        (hm m (by simp)).toIsPiece

/-- A directory in a tree without links stands where its path says. -/
theorem Rooted.of_isDirectory (hs : d.Sound) (h : d.isDirectory p = true) :
    Rooted d p (placeOf d.cwd p) := by
  unfold isDirectory at h
  split at h
  · rename_i place hstat
    obtain ⟨rfl, -⟩ := Spot.mk.inj (find_linkless hs.linkless (find_of_stat hstat))
    exact ⟨hstat, fun _ _ => hs.linkless _ _⟩
  · cases h

theorem filter_proper (hm : ∀ m ∈ ms, IsProper m) : ms.filter (· ≠ ['.']) = ms :=
  List.filter_eq_self.mpr fun m hmem => by simpa using (hm m hmem).ne_dot

theorem plainNames_below (hm : ∀ m ∈ ms, IsProper m) :
    plainNames (root.below ms) = plainNames root ++ ms := by
  rw [plainNames, Path.names_below root fun m hmem => (hm m hmem).toIsPiece, List.filter_append,
    filter_proper hm, plainNames]

theorem start_below (hm : ∀ m ∈ ms, IsProper m) : d₀.start (root.below ms) = d₀.start root := by
  rw [start, start, Path.isAbsolute_below root fun m hmem => (hm m hmem).toIsPiece]

theorem not_up_below (hup : ['.', '.'] ∉ names root) (hm : ∀ m ∈ ms, IsProper m) :
    ['.', '.'] ∉ names (root.below ms) := by
  rw [Path.names_below root fun m hmem => (hm m hmem).toIsPiece]
  intro hmem
  rcases List.mem_append.mp hmem with hmem | hmem
  · exact hup hmem
  · exact (hm _ hmem).ne_up rfl

/-- Paths that are joined to one without steps up lead down from where it starts. -/
theorem down_below_plain (hup : ['.', '.'] ∉ names root) (hm : ∀ m ∈ ms ++ [n], IsProper m)
    (hl : Legible (root.below (ms ++ [n]))) :
    Down d₀ (root.below (ms ++ [n])) (d₀.start root) (plainNames root ++ (ms ++ [n])) := by
  have hp (m : Name) (hmem : m ∈ ms ++ [n]) := (hm m hmem).toIsPiece
  have hnames : names (root.below (ms ++ [n])) = (names root ++ ms) ++ [n] := by
    rw [Path.names_below root hp, List.append_assoc]
  have hdown := down_plain d₀ (Path.below_ne_nil_of_ne_nil root hp (by simp)) hl hnames
    (not_up_below hup hm) (hm n (by simp)).ne_dot (Path.endsInSlash_below root hp (by simp))
  rw [start_below hm, List.filter_append,
    filter_proper fun m hmem => hm m (List.mem_append_left _ hmem), List.append_assoc] at hdown
  exact hdown

theorem leads_dots (h : ∀ n ∈ ns, n = ['.']) (d : Disk) (links : Nat) (here : Place) :
    Leads d links here ns links here := by
  induction ns with
  | nil => exact .stop links here
  | cons n ns ih =>
    obtain rfl := h n List.mem_cons_self
    exact .stay (ih fun m hm => h m (List.mem_cons_of_mem _ hm))

/-- A path of dots leads to the directory where it starts. -/
theorem isDirectory_of_dots (hp : p.chars ≠ []) (hl : Legible p) (hdots : ∀ n ∈ names p, n = ['.'])
    (hd : d.look? (d.start p) = some .directory) : d.isDirectory p = true := by
  have hwalk := (leads_dots hdots d maxLinks (d.start p)).walk_target hd (endsInSlash p)
  rw [isDirectory, stat_of_find (by rw [find_of_legible d .target hp hl, hwalk])]

/-- A path without steps up spells a place below where it starts. -/
theorem placeOf_plain (d : Disk) (hup : ['.', '.'] ∉ names p) :
    placeOf d.cwd p = d.start p ++ plainNames p := by
  have hpieces : (names p).filterMap Path.Component.ofPiece = (plainNames p).map .name := by
    rw [plainNames, ← List.filterMap_eq_map, List.filterMap_filter]
    refine List.filterMap_congr fun n hn => ?_
    by_cases hdot : n = ['.']
    · simp [hdot, Path.Component.ofPiece, Path.isNoise]
    · have hne : n ≠ [] := by simpa using (List.mem_filter.mp hn).2
      rw [Path.ofPiece_of_name (by simp [Path.isNoise, hne, hdot]) fun he => hup (he ▸ hn)]
      simp [hdot]
  rw [← foldl_names, hpieces, foldl_step_names]

end Disk

open Disk (plainNames)

namespace UnitFile

variable {f : UnitFile} {d d₀ : Disk} {root : Path} {base : Place}

def slot (f : UnitFile) (root : Path) (base : Place) (way : List Name) : Slot :=
  ⟨f.path root, base, way ++ f.dirs, f.fileName⟩

theorem path_ne_nil (f : UnitFile) (root : Path) : (f.path root).chars ≠ [] := by
  rw [path_eq]
  exact Path.below_ne_nil_of_ne_nil root (fun m hm => (f.place_names_proper m hm).toIsPiece) (by simp)

theorem backup_path_ne_nil (f : UnitFile) (root : Path) :
    (UnitName.backup (f.path root)).chars ≠ [] := by
  rw [backup_path]
  exact Path.below_ne_nil_of_ne_nil _ (fun m hm => (f.backup_names_proper m hm).toIsPiece) (by simp)

/-- The way to a file below a directory starts there. -/
theorem reached_rooted (h : Rooted d₀ root base) (f : UnitFile) : (f.slot root base []).Reached d₀ := by
  have hhome := f.rooted_home h
  have hproper (m : Name) (hm : m ∈ f.dirs) : IsProper m := isProper_of_mem_dirs hm
  refine ⟨f.path_ne_nil root, f.backup_path_ne_nil root, h.directory, fun hl hnil d hk _ => ?_,
    fun hl => ?_, fun hl => ?_, fun hl => ?_⟩
  · have hdirs : f.dirs = [] := hnil
    change d.isDirectory (Store.directoryOf (f.path root)) = true
    rw [directoryOf_path h.ne_nil, hdirs, Disk.isDirectory, Path.below, List.foldl_nil,
      (hhome.keep hk).stands]
  · have hl : Legible (Store.directoryOf (f.path root)) := hl
    change Ladder d₀ base (Store.directoryOf (f.path root)).ancestors f.dirs
    rw [directoryOf_path h.ne_nil] at hl ⊢
    exact Disk.ladder_below hhome hproper hl
  · have hl : Legible (f.path root) := hl
    change Down d₀ (f.path root) base (f.dirs ++ [f.fileName])
    rw [path_eq] at hl ⊢
    exact Disk.down_below h f.place_names_proper (by simp) hl
  · have hl : Legible (UnitName.backup (f.path root)) := hl
    change Down d₀ (UnitName.backup (f.path root)) base (f.dirs ++ [f.backupName])
    rw [backup_path] at hl ⊢
    exact Disk.down_below hhome f.backup_names_proper (by simp) hl

/-- The directory of a file below an empty root is the working directory, unless the unit has one. -/
theorem directoryOf_below (root : Path) (f : UnitFile) :
    (root.below f.dirs).chars ≠ [] ∧ Store.directoryOf (f.path root) = (root.below f.dirs).trim ∨
      root.chars = [] ∧ f.dirs = [] ∧ Store.directoryOf (f.path root) = ⟨['.']⟩ := by
  have hdir : Store.directoryOf (f.path root) =
      if (root.below f.dirs).trim.isEmpty then ⟨['.']⟩ else (root.below f.dirs).trim := by
    rw [path_eq, Path.below_concat, Store.directoryOf, Path.parent?_join _ f.fileName_proper.toIsNamed]
  by_cases hp : (root.below f.dirs).chars = []
  · have hdirs : f.dirs = [] := by
      by_contra hne
      exact Path.below_ne_nil_of_ne_nil root (fun m hm => (isProper_of_mem_dirs hm).toIsPiece) hne hp
    rw [hdirs] at hp
    obtain rfl : root = ⟨[]⟩ := congrArg Path.mk hp
    refine .inr ⟨rfl, hdirs, ?_⟩
    rw [hdir, hdirs]
    rfl
  · refine .inl ⟨hp, ?_⟩
    rw [hdir, if_neg]
    simpa [Path.isEmpty] using (Path.head_trim hp).1

theorem plainNames_home (root : Path) (f : UnitFile) : plainNames (f.home root) = plainNames root ∧
    (['.', '.'] ∉ Disk.names root → ['.', '.'] ∉ Disk.names (f.home root)) ∧
      d.start (f.home root) = d.start root := by
  unfold home
  split
  · obtain ⟨dots, hn, hd⟩ := root.names_trim
    refine ⟨?_, fun hup hmem => hup ?_, ?_⟩
    · have hnone : dots.filter (· ≠ ['.']) = [] := List.filter_eq_nil_iff.mpr (by simpa using hd)
      rw [plainNames, plainNames, hn, List.filter_append, hnone, List.append_nil]
    · rw [hn]
      exact List.mem_append_left _ hmem
    · by_cases hr : root.chars = []
      · obtain rfl : root = ⟨[]⟩ := congrArg Path.mk hr
        rfl
      · rw [Disk.start, Disk.start, (Path.head_trim hr).2]
  · exact ⟨rfl, id, rfl⟩

/-- A file of a unit without directories stands in the directory where the path of its root starts, if
that path is dots. -/
theorem isDirectory_directoryOf_dots (hs : d₀.Sound) (hk : Disk.Keeps d₀ d)
    (hroot : plainNames root = []) (hdirs : f.dirs = [])
    (hl : Legible (Store.directoryOf (f.path root))) :
    d.isDirectory (Store.directoryOf (f.path root)) = true := by
  have hdots (n : Name) (hn : n ∈ Disk.names root) : n = ['.'] := by
    simpa using List.filter_eq_nil_iff.mp hroot n hn
  rcases f.directoryOf_below root with ⟨hp, hdir⟩ | ⟨-, -, hdir⟩ <;> rw [hdir] at hl ⊢
  · have hp : root.chars ≠ [] := by rwa [hdirs] at hp
    rw [hdirs] at hl ⊢
    obtain ⟨dots, hn, -⟩ := root.names_trim
    refine Disk.isDirectory_of_dots (Path.head_trim hp).1 hl (fun n hmem => hdots n ?_) ?_
    · rw [hn]
      exact List.mem_append_left _ hmem
    · have htrim : d.start root.trim = d₀.start root := by
        rw [hk.start, Disk.start, Disk.start, (Path.head_trim hp).2]
      exact htrim ▸ hk.directories _ (hs.ordered.start root)
  · refine Disk.isDirectory_of_dots (by simp) hl (by decide) ?_
    rw [hk.start]
    exact hk.directories _ (hs.ordered.start _)

/-- The way to a file below a root without steps up starts where the path of the root does. -/
theorem reached_plain (hs : d₀.Sound) (hup : ['.', '.'] ∉ Disk.names root) (f : UnitFile) :
    (f.slot root (d₀.start root) (plainNames root)).Reached d₀ := by
  have hproper (m : Name) (hm : m ∈ f.dirs) : IsProper m := isProper_of_mem_dirs hm
  refine ⟨f.path_ne_nil root, f.backup_path_ne_nil root, hs.ordered.start root,
    fun hl hnil d hk _ => ?_, fun hl => ?_, fun hl => ?_, fun hl => ?_⟩
  · obtain ⟨hroot, hdirs⟩ : plainNames root = [] ∧ f.dirs = [] := List.append_eq_nil_iff.mp hnil
    exact isDirectory_directoryOf_dots hs hk hroot hdirs hl
  · have hl : Legible (Store.directoryOf (f.path root)) := hl
    change Ladder d₀ (d₀.start root) (Store.directoryOf (f.path root)).ancestors
      (plainNames root ++ f.dirs)
    rcases f.directoryOf_below root with ⟨hp, hdir⟩ | ⟨hr, hdirs, -⟩
    · rw [hdir] at hl ⊢
      have hladder : Ladder d₀ _ _ _ := Disk.ladder_trim hp (Disk.not_up_below hup hproper) hl
      rwa [Disk.plainNames_below hproper, Disk.start_below hproper] at hladder
    · obtain rfl : root = ⟨[]⟩ := congrArg Path.mk hr
      rw [hdirs]
      exact .foot _
  · have hl : Legible (f.path root) := hl
    change Down d₀ (f.path root) _ (plainNames root ++ f.dirs ++ [f.fileName])
    rw [path_eq] at hl ⊢
    rw [List.append_assoc]
    exact Disk.down_below_plain hup f.place_names_proper hl
  · have hl : Legible (UnitName.backup (f.path root)) := hl
    change Down d₀ (UnitName.backup (f.path root)) _ (plainNames root ++ f.dirs ++ [f.backupName])
    rw [backup_path] at hl ⊢
    obtain ⟨hhome, hup', hstart'⟩ := @plainNames_home d₀ root f
    rw [List.append_assoc, ← hhome, ← hstart']
    exact Disk.down_below_plain (hup' hup) f.backup_names_proper hl

/-- Where a root is a directory or its path takes no step up, there is a way to the files below it, and
they stand below the place that the path spells. -/
theorem exists_slot (hs : d₀.Sound)
    (hroot : ['.', '.'] ∈ Disk.names root → d₀.isDirectory root = true) :
    ∃ base way, placeOf d₀.cwd root = base ++ way ∧ ∀ f : UnitFile, (f.slot root base way).Reached d₀ := by
  by_cases hup : ['.', '.'] ∈ Disk.names root
  · exact ⟨_, [], (List.append_nil _).symm, fun f => f.reached_rooted (.of_isDirectory hs (hroot hup))⟩
  · exact ⟨_, _, Disk.placeOf_plain d₀ hup, fun f => f.reached_plain hs hup⟩

end UnitFile
end UnitCache
