import UnitCache.Proofs.DiskSound

namespace UnitCache.Disk

variable {d d' : Disk} {p q : Path} {place there : Place} {id : FileId} {content : Bytes}
  {S T : Place → Prop} {last : Last} {links : Nat} {here : Place} {slash : Bool} {ns : List Name}

/-- A change of a tree in order that leaves it so, touches only some places, takes no directory away
and leaves open files their content. -/
structure Grows (S : Place → Prop) (d d' : Disk) : Prop extends Touches S d d' where
  sound : d'.Sound
  directories : ∀ place, d.look? place = some .directory → d'.look? place = some .directory
  retains : Retains d d'

namespace Grows

theorem refl (h : d.Sound) : Grows S d d :=
  ⟨.refl h.linkless, h, fun _ hd => hd, fun _ _ hc => hc⟩

theorem trans {d'' : Disk} (h : Grows S d d') (h' : Grows S d' d'') : Grows S d d'' :=
  ⟨h.toTouches.trans h'.toTouches, h'.sound,
    fun place hd => h'.directories place (h.directories place hd),
    fun id content hc => h'.retains id content (h.retains id content hc)⟩

theorem mono (h : Grows S d d') (hs : ∀ place, S place → T place) : Grows T d d' :=
  ⟨h.toTouches.mono hs, h.sound, h.directories, h.retains⟩

theorem keeps (h : Grows S d d') (hs : d.Sound) : Keeps d d' :=
  ⟨h.cwd, h.directories, fun place target => ⟨fun hl => absurd hl (h.linkless place target),
    fun hl => absurd hl (hs.linkless place target)⟩⟩

end Grows

theorem Fresh.grows {e : Entry} {k : FileId} (h : Fresh d place e k) (hs : d.Sound)
    (ht : Touches S d (d.put place e k)) : Grows S d (d.put place e k) :=
  ⟨ht, h.sound hs, fun there hd => by rw [h.look?_of_ne_none (by simp [hd]), hd], h.retains hs.ordered⟩

theorem makeDirectory_grows (hs : d.Sound) (h : d.makeDirectory p = .ok d') : Grows S d d' := by
  have ht : Touches S d d' := makeDirectory_touches hs.linkless h
  obtain ⟨place, hf, rfl⟩ := makeDirectory_ok h
  have hfresh : Fresh d place .directory d.nextId :=
    ⟨(entry_of_find hf).symm, above_of_find hs.ordered hf (by simp), by simp, Nat.le_refl _, by simp⟩
  exact hfresh.grows hs ht

theorem makeFirst_grows (hs : d.Sound) (ps : List Path) : Grows S d (d.makeFirst ps).1 :=
  makeFirst_induction (fun hd hm => hd.trans (makeDirectory_grows hd.sound hm)) (.refl hs) ps

/-- A file written where nothing was is a new one. -/
theorem write_grows (hs : d.Sound) (h : d.write p content = .ok d')
    (hn : d.look? (placeOf d.cwd p) = none) : Grows (· = placeOf d.cwd p) d d' := by
  have ht := write_touches hs.linkless h
  obtain ⟨place, e, hf, hne, rfl⟩ := write_ok h
  obtain ⟨rfl, rfl⟩ := Spot.mk.inj (find_linkless hs.linkless hf)
  have hfresh : Fresh d (placeOf d.cwd p) (.file d.nextId content) (d.nextId + 1) := by
    refine ⟨hn, above_of_find hs.ordered hf hne, by simp, Nat.le_succ _, fun id c he => ?_⟩
    cases he
    exact ⟨Nat.le_refl _, Nat.lt_succ_self _⟩
  have hput : d.setContent (placeOf d.cwd p) content =
      d.put (placeOf d.cwd p) (.file d.nextId content) (d.nextId + 1) := by
    rw [setContent, hn]
    rfl
  rw [hput] at ht ⊢
  exact hfresh.grows hs ht

theorem rename_grows (hs : d.Sound) (h : d.rename p q = .ok d')
    (hpq : placeOf d.cwd p ≠ placeOf d.cwd q) :
    Grows (fun place => place = placeOf d.cwd p ∨ place = placeOf d.cwd q) d d' ∧
      d'.look? (placeOf d.cwd p) = none := by
  have ht := rename_touches hs.linkless h
  obtain ⟨source, e, target, e', hf, hf', hne, hne', rfl⟩ := rename_ok h
  obtain ⟨rfl, he⟩ := Spot.mk.inj (find_linkless hs.linkless hf)
  obtain ⟨rfl, rfl⟩ := Spot.mk.inj (find_linkless hs.linkless hf')
  cases e with
  | directory => exact absurd rfl hne
  | link target => exact absurd he.symm (hs.linkless _ _)
  | file id content =>
    have hm : Moving d (placeOf d.cwd p) (placeOf d.cwd q) id content :=
      ⟨hpq, he.symm, hne', above_of_find hs.ordered hf' hne'⟩
    refine ⟨⟨ht, hm.sound hs, fun there hd => hm.directory.mpr hd, hm.retains hs.ordered⟩, ?_⟩
    rw [hm.look?, if_neg hpq, if_pos rfl]

/-- What a walk ends at is still found as long as it stands there. -/
theorem walk_keeps {spot : Spot} (hk : Keeps d d') (he : d'.look? spot.place = spot.entry)
    (h : walk d last links here slash ns = .ok spot) : walk d' last links here slash ns = .ok spot := by
  fun_induction walk d last links here slash ns with
  | case1 links here slash =>
    cases h
    rw [walk, he]
  | case2 links here slash rest ih =>
    rw [walk, if_pos rfl]
    exact ih h
  | case3 links here slash rest hdot ih =>
    rw [walk, if_neg hdot, if_pos rfl]
    exact ih h
  | case6 links here slash n hdot hup hlong place hf hslash =>
    cases h
    have hn : d'.look? (here ++ [n]) = none := he
    rw [walk, if_neg hdot, if_neg hup, if_neg hslash, if_neg hlong]
    simp only [hn]
    rw [if_true]
  | case8 links here slash n rest hdot hup hslash hlong place hf ih =>
    have hd : d'.look? (here ++ [n]) = some .directory := hk.directories _ hf
    rw [walk, if_neg hdot, if_neg hup, if_neg hslash, if_neg hlong]
    simp only [hd]
    exact ih h
  | case9 links here slash n rest hdot hup hslash hlong place id content hf hr =>
    cases h
    have hfile : d'.look? (here ++ [n]) = some (.file id content) := he
    rw [walk, if_neg hdot, if_neg hup, if_neg hslash, if_neg hlong]
    simp only [hfile]
    rw [if_pos hr]
  | case11 links here slash n rest hdot hup hslash hlong place target hf hr =>
    cases h
    have hl : d'.look? (here ++ [n]) = some (.link target) := he
    rw [walk, if_neg hdot, if_neg hup, if_neg hslash, if_neg hlong]
    simp only [hl]
    rw [if_pos hr]
  | case13 here slash n rest hdot hup hslash hlong place target hf hr links ih =>
    have hl : d'.look? (here ++ [n]) = some (.link target) := (hk.links _ _).mpr hf
    rw [walk, if_neg hdot, if_neg hup, if_neg hslash, if_neg hlong]
    simp only [hl]
    rw [if_neg hr]
    exact ih h
  | _ => cases h

theorem Keeps.start (hk : Keeps d d') (p : Path) : d'.start p = d.start p := by
  rw [Disk.start, Disk.start, hk.cwd]

theorem Keeps.stat {e : Entry} (hk : Keeps d d') (h : d.stat p = .ok (place, e))
    (he : d'.look? place = some e) : d'.stat p = .ok (place, e) := by
  have hf := find_of_stat h
  exact stat_of_find (find_of_walk hf (hk.start p ▸ walk_keeps hk he (walk_of_find hf)))

/-- A directory stays one for those who know its path. -/
theorem Keeps.isDirectory (hk : Keeps d d') (h : d.isDirectory p = true) : d'.isDirectory p = true := by
  unfold Disk.isDirectory at h
  split at h
  · rename_i place hs
    have hd : d.look? place = some .directory := (entry_of_find (find_of_stat hs)).symm
    rw [Disk.isDirectory, hk.stat hs (hk.directories _ hd)]
  · cases h

theorem stat_of_read (h : d.read p = .ok content) :
    ∃ place id, d.stat p = .ok (place, .file id content) := by
  unfold read openAt at h
  cases hs : d.stat p with
  | error e =>
    rw [hs] at h
    cases h
  | ok x =>
    obtain ⟨place, e⟩ := x
    rw [hs] at h
    cases e with
    | directory => cases h
    | link target => cases h
    | file id c =>
      cases h
      exact ⟨place, id, rfl⟩

theorem read_of_stat {id : FileId} (h : d.stat p = .ok (place, .file id content)) :
    d.read p = .ok content := by
  rw [read, openAt, h]
  rfl

/-- What stands at a place that is not touched stays there. -/
theorem Touches.look? (h : Touches S d d') (hs : ¬S place) (hp : d.look? place ≠ none) :
    d'.look? place = d.look? place :=
  (h.others place hs).resolve_right fun hn => hp hn.1

/-- A file that is not touched is read as before. -/
theorem Grows.read (hg : Grows S d d') (hs : d.Sound) (hp : ¬S (placeOf d.cwd p))
    (h : d.read p = .ok content) : d'.read p = .ok content := by
  obtain ⟨place, id, hstat⟩ := stat_of_read h
  obtain ⟨rfl, he⟩ := Spot.mk.inj (find_linkless hs.linkless (find_of_stat hstat))
  have hl := hg.toTouches.look? hp (by simp [← he])
  exact read_of_stat ((hg.keeps hs).stat hstat (hl.trans he.symm))

/-- Names that do not lead up lead down. -/
theorem prefix_of_walk {spot : Spot} (hl : d.Linkless) (hn : ∀ n ∈ ns, n ≠ ['.', '.'])
    (h : walk d last links here slash ns = .ok spot) : here <+: spot.place := by
  fun_induction walk d last links here slash ns with
  | case1 links here slash =>
    cases h
    exact List.prefix_rfl
  | case2 links here slash rest ih => exact ih (fun m hm => hn m (List.mem_cons_of_mem _ hm)) h
  | case3 links here slash rest hdot ih => exact absurd rfl (hn _ List.mem_cons_self)
  | case6 =>
    cases h
    exact List.prefix_append _ _
  | case8 links here slash n rest hdot hup hslash hlong place hf ih =>
    have hrest := ih (fun m hm => hn m (List.mem_cons_of_mem _ hm)) h
    exact (List.prefix_append here [n]).trans hrest
  | case9 =>
    cases h
    exact List.prefix_append _ _
  | case11 _ _ _ _ _ _ _ _ _ _ _ hf => exact absurd hf (hl _ _)
  | case13 _ _ _ _ _ _ _ _ _ _ hf => exact absurd hf (hl _ _)
  | _ => cases h

/-- Where names that do not lead up find what stood there before, they found it before: directories
that are new since have nothing below them that is not new as well. -/
theorem walk_before {spot : Spot} (hs : d.Sound) (hl : d'.Linkless) (hn : ∀ n ∈ ns, n ≠ ['.', '.'])
    (hsome : spot.entry ≠ none) (he : d.look? spot.place = spot.entry)
    (h : walk d' last links here slash ns = .ok spot) : walk d last links here slash ns = .ok spot := by
  have hentry := entry_of_walk h
  fun_induction walk d' last links here slash ns with
  | case1 links here slash =>
    cases h
    rw [walk, he]
  | case2 links here slash rest ih =>
    rw [walk, if_pos rfl]
    exact ih (fun m hm => hn m (List.mem_cons_of_mem _ hm)) h
  | case3 links here slash rest hdot ih => exact absurd rfl (hn _ List.mem_cons_self)
  | case6 =>
    cases h
    exact absurd rfl hsome
  | case8 links here slash n rest hdot hup hslash hlong place hf ih =>
    have hrest (m : Name) (hm : m ∈ rest) : m ≠ ['.', '.'] := hn m (List.mem_cons_of_mem _ hm)
    have hd : d.look? (here ++ [n]) = some .directory := by
      by_cases hp : here ++ [n] = spot.place
      · rw [hp, he, hentry, ← hp, hf]
      · exact hs.parents.directory_of_prefix (prefix_of_walk hl hrest h) hp (he ▸ hsome)
    rw [walk, if_neg hdot, if_neg hup, if_neg hslash, if_neg hlong]
    simp only [hd]
    exact ih hrest h
  | case9 links here slash n rest hdot hup hslash hlong place id content hf hr =>
    cases h
    have hfile : d.look? (here ++ [n]) = some (.file id content) := he
    rw [walk, if_neg hdot, if_neg hup, if_neg hslash, if_neg hlong]
    simp only [hfile]
    rw [if_pos hr]
  | case11 _ _ _ _ _ _ _ _ _ _ _ hf => exact absurd hf (hl _ _)
  | case13 _ _ _ _ _ _ _ _ _ _ hf => exact absurd hf (hl _ _)
  | _ => cases h

end UnitCache.Disk
