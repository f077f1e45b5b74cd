import UnitCache.Proofs.DiskGrowth

namespace UnitCache

open Disk (Keeps Ordered Retains Fresh Moving IsLoose Spot Legible)

namespace Disk

variable {d d' : Disk} {p root : Path} {place base here there source target : Place} {id : FileId}
  {content : Bytes} {S T : Place → Prop} {last : Last} {links links' : Nat} {ns ms : List Name}
  {spot : Spot}

/-- Names lead from a directory to a directory. -/
theorem Leads.directory (ht : d.IsTree) (hh : d.look? here = some .directory)
    (h : Leads d links here ns links' there) : d.look? there = some .directory := by
  induction h with
  | stop _ _ => exact hh
  | stay _ ih => exact ih hh
  | up _ ih => exact ih (ht.dropLast hh)
  | down _ _ found _ ih => exact ih found
  | follow _ _ _ _ ih =>
    refine ih ?_
    split
    · rfl
    · exact hh

theorem Ordered.start (ho : d.Ordered) (p : Path) : d.look? (d.start p) = some .directory := by
  unfold Disk.start
  split
  · rfl
  · exact ho.cwd

/-- A path with more names after it that can be followed stands for a directory. -/
theorem Ordered.stands (ho : d.Ordered) (hms : ∀ m ∈ ms, IsProper m) (hne : ms ≠ [])
    (hf : d.find last (root.below ms) = .ok spot) : ∃ base, d.Stands root base := by
  have hp (m : Name) (hm : m ∈ ms) := (hms m hm).toIsPiece
  have hw := walk_of_find hf
  rw [Path.names_below root hp, Disk.start, Path.isAbsolute_below root hp] at hw
  obtain ⟨links, there, hl, -⟩ := leads_of_walk hne hw
  exact ⟨there, links, hl, hl.directory ho.parents (ho.start root)⟩

theorem Stands.mono (hc : d'.cwd = d.cwd)
    (hd : ∀ p, d.look? p = some .directory → d'.look? p = some .directory)
    (hl : ∀ p target, d.look? p = some (.link target) → d'.look? p = some (.link target))
    (h : d.Stands p base) : d'.Stands p base := by
  obtain ⟨links, hleads, hb⟩ := h
  refine ⟨links, ?_, hd _ hb⟩
  rw [start, hc]
  exact hleads.mono hd hl

/-- A change of a tree in order that leaves it so and takes no directory and no link away. Files
change at some places only, and those that are open keep their content. -/
structure Settles (S : Place → Prop) (d d' : Disk) : Prop where
  keeps : Keeps d d'
  ordered : d'.Ordered
  retains : Retains d d'
  others : ∀ place, ¬S place → d'.look? place = d.look? place ∨
    d.look? place = none ∧ d'.look? place = some .directory

namespace Settles

theorem refl (ho : d.Ordered) : Settles S d d :=
  ⟨.refl d, ho, fun _ _ hc => hc, fun _ _ => .inl rfl⟩

theorem trans {d'' : Disk} (h : Settles S d d') (h' : Settles S d' d'') : Settles S d d'' := by
  refine ⟨h.keeps.trans h'.keeps, h'.ordered, fun id c hc => h'.retains id c (h.retains id c hc),
    fun place hp => ?_⟩
  rcases h'.others place hp with he | ⟨hn, hd⟩
  · rw [he]
    exact h.others place hp
  · rcases h.others place hp with he | ⟨-, hd'⟩
    · exact .inr ⟨he ▸ hn, hd⟩
    · cases hn.symm.trans hd'

theorem mono (h : Settles S d d') (hs : ∀ place, S place → T place) : Settles T d d' :=
  ⟨h.keeps, h.ordered, h.retains, fun place hp => h.others place fun hn => hp (hs place hn)⟩

theorem stands (h : Settles S d d') (hb : d.Stands p base) : d'.Stands p base :=
  hb.mono h.keeps.cwd h.keeps.directories fun place target => (h.keeps.links place target).mpr

end Settles

theorem makeDirectory_settles (ho : d.Ordered) (h : d.makeDirectory p = .ok d') : Settles S d d' := by
  have hk := makeDirectory_keeps h
  obtain ⟨place, hf, rfl⟩ := makeDirectory_ok h
  have hfresh : Fresh d place .directory d.nextId :=
    ⟨(entry_of_find hf).symm, above_of_find ho hf (by simp), by simp, Nat.le_refl _, by simp⟩
  refine ⟨hk, hfresh.ordered ho, hfresh.retains ho, fun there _ => ?_⟩
  have hl := hfresh.look? there
  split at hl
  · rename_i ht
    exact .inr ⟨ht ▸ hfresh.nothing, hl⟩
  · exact .inl hl

theorem makeFirst_settles (ho : d.Ordered) (ps : List Path) : Settles S d (d.makeFirst ps).1 :=
  makeFirst_induction (fun hd hm => hd.trans (makeDirectory_settles hd.ordered hm)) (.refl ho) ps

structure Refiles (S : Place → Prop) (d d' : Disk) : Prop where
  cwd : d'.cwd = d.cwd
  directories : ∀ p, d'.look? p = some .directory ↔ d.look? p = some .directory
  links : ∀ p target, d'.look? p = some (.link target) ↔ d.look? p = some (.link target)
  ordered : d'.Ordered
  retains : Retains d d'
  others : ∀ p, ¬S p → d'.look? p = d.look? p

namespace Refiles

theorem refl (ho : d.Ordered) : Refiles S d d :=
  ⟨rfl, fun _ => .rfl, fun _ _ => .rfl, ho, fun _ _ hc => hc, fun _ _ => rfl⟩

theorem trans {d'' : Disk} (h : Refiles S d d') (h' : Refiles S d' d'') : Refiles S d d'' :=
  ⟨h'.cwd.trans h.cwd, fun p => (h'.directories p).trans (h.directories p),
    fun p target => (h'.links p target).trans (h.links p target), h'.ordered,
    fun id c hc => h'.retains id c (h.retains id c hc),
    fun p hp => (h'.others p hp).trans (h.others p hp)⟩

theorem mono (h : Refiles S d d') (hs : ∀ place, S place → T place) : Refiles T d d' :=
  ⟨h.cwd, h.directories, h.links, h.ordered, h.retains, fun p hp => h.others p fun hn => hp (hs p hn)⟩

theorem settles (h : Refiles S d d') : Settles S d d' :=
  ⟨⟨h.cwd, fun p => (h.directories p).mpr, h.links⟩, h.ordered, h.retains,
    fun place hp => .inl (h.others place hp)⟩

/-- Paths lead to the same directories. -/
theorem stands_iff (h : Refiles S d d') : d'.Stands p base ↔ d.Stands p base :=
  ⟨.mono h.cwd.symm (fun p => (h.directories p).mp) fun p target => (h.links p target).mp,
    h.settles.stands⟩

theorem noLinks_iff (h : Refiles S d d') : d'.NoLinks base ↔ d.NoLinks base := by
  simp only [NoLinks, ne_eq, h.links]

end Refiles

/-- A file comes where nothing was. -/
theorem Fresh.refiles {k : FileId} (h : Fresh d place (.file id content) k) (ho : d.Ordered) :
    Refiles (· = place) d (d.put place (.file id content) k) := by
  have hlook (p : Place) (e : Entry) (he : ∀ i c, e ≠ .file i c) :
      (d.put place (.file id content) k).look? p = some e ↔ d.look? p = some e := by
    rw [h.look?]
    split
    · rename_i hp
      rw [hp, h.nothing]
      simpa using (he id content).symm
    · rfl
  exact ⟨rfl, fun p => hlook p _ (by simp), fun p target => hlook p _ (by simp), h.ordered ho,
    h.retains ho, fun p hp => by rw [h.look?, if_neg hp]⟩

/-- A file takes the place of another one or of nothing. -/
theorem Moving.refiles (h : Moving d source target id content) (ho : d.Ordered)
    (hl : IsLoose (d.look? target)) :
    Refiles (fun p => p = source ∨ p = target) d (d.move source target (.file id content)) := by
  have hlook (p : Place) (e : Entry) (he : ¬IsLoose (some e)) :
      (d.move source target (.file id content)).look? p = some e ↔ d.look? p = some e := by
    rw [h.look?]
    split
    · rename_i hp
      constructor <;> intro hs
      · exact (he (hs ▸ trivial)).elim
      · exact (he (hs ▸ hp ▸ hl)).elim
    split
    · rename_i hp
      constructor <;> intro hs
      · cases hs
      · exact (he (by rw [← hs, hp, h.file]; trivial)).elim
    · rfl
  refine ⟨cwd_move .., fun p => hlook p _ not_false, fun p t => hlook p _ not_false, h.ordered ho,
    h.retains ho, fun p hp => ?_⟩
  rw [not_or] at hp
  rw [h.look?, if_neg hp.2, if_neg hp.1]

end Disk

namespace UnitFile

variable {root : Path} {base : Place} {d : Disk} {f : UnitFile} {last last' : Disk.Last} {spot : Spot}

/-- A path to a unit file that can be followed leads to its place, whatever is wanted there. -/
theorem find_place (hb : d.Stands root base) (hn : d.NoLinks base)
    (hf : d.find last (f.path root) = .ok spot) (last' : Disk.Last) :
    d.find last' (f.path root) = .ok ⟨f.place base, d.look? (f.place base)⟩ := by
  have hl := Disk.legible_of_find (Disk.ne_nil_of_find hf) (.inl ⟨_, hf⟩)
  rw [path_eq] at hl hf ⊢
  rw [hb.find_below hn f.place_names_proper (by simp) hl] at hf ⊢
  rw [hf, Disk.descend_ok hf]
  rfl

theorem find_backupPlace (hb : d.Stands root base) (hn : d.NoLinks base)
    (hf : d.find last (UnitName.backup (f.path root)) = .ok spot) (last' : Disk.Last) :
    d.find last' (UnitName.backup (f.path root)) =
      .ok ⟨f.backupPlace base, d.look? (f.backupPlace base)⟩ := by
  have hl := Disk.legible_of_find (Disk.ne_nil_of_find hf) (.inl ⟨_, hf⟩)
  have hhome : d.Stands (f.home root) base := by
    unfold home
    split
    · exact hb.trim
    · exact hb
  rw [backup_path] at hl hf ⊢
  rw [hhome.find_below hn f.backup_names_proper (by simp) hl] at hf ⊢
  rw [hf, Disk.descend_ok hf]
  rfl

end UnitFile

namespace Store

variable {p root : Path} {base : Place} {content : Bytes} {d d' : Disk} {h h' : Host} {changed : Bool}
  {f : UnitFile}

def prepared (d : Disk) (p : Path) : Disk :=
  if d.isDirectory (directoryOf p) then d else (d.makeDirectories (directoryOf p)).1

theorem prepared_settles (ho : d.Ordered) (p : Path) : Disk.Settles (fun _ => False) d (prepared d p) := by
  unfold prepared
  split
  · exact .refl ho
  · exact Disk.makeFirst_settles ho _

/-- A write that goes well does so on the tree with the directory of the file. -/
theorem writing_of_run (hr : (writeBytes p content).run h = (.ok changed, h')) :
    Writing p content (prepared h.disk p) changed h'.disk := by
  obtain ⟨d₁, d₂, hmade, hw, rfl⟩ := run_writeBytes_ok hr
  rcases hmade with ⟨rfl, hd⟩ | ⟨hd, hm⟩
  · rwa [prepared, if_pos hd]
  · rwa [prepared, if_neg (by simp [hd]), hm]

/-- The path of a file that is written can be followed. -/
theorem Writing.find (hw : Writing p content d changed d') : ∃ last spot, d.find last p = .ok spot := by
  cases hw with
  | same held =>
    obtain ⟨spot, hf⟩ := Disk.find_of_read held
    exact ⟨_, spot, hf⟩
  | replaced old _ _ held =>
    obtain ⟨spot, hf⟩ := Disk.find_of_read held
    exact ⟨_, spot, hf⟩
  | fresh _ _ put =>
    obtain ⟨place, e, hf, -, -⟩ := Disk.write_ok put
    exact ⟨_, _, hf⟩

/-- What is written where nothing is becomes a new file there. -/
theorem refiles_write (ho : d.Ordered) (hb : d.Stands root base) (hn : d.NoLinks base)
    (hnone : d.look? (f.place base) = none) (put : d.write (f.path root) content = .ok d') :
    Disk.Refiles (· = f.place base) d d' := by
  obtain ⟨place, e, hf, hne, rfl⟩ := Disk.write_ok put
  have habove := Disk.above_of_find ho hf hne
  obtain ⟨rfl, -⟩ := Spot.mk.inj (Except.ok.inj (hf.symm.trans (f.find_place hb hn hf .writable)))
  have hfresh : Fresh d (f.place base) (.file d.nextId content) (d.nextId + 1) := by
    refine ⟨hnone, habove, by simp, Nat.le_succ _, fun id c he => ?_⟩
    cases he
    exact ⟨Nat.le_refl _, Nat.lt_succ_self _⟩
  have hput : d.setContent (f.place base) content =
      d.put (f.place base) (.file d.nextId content) (d.nextId + 1) := by
    rw [Disk.setContent, hnone]
    rfl
  rw [hput]
  exact hfresh.refiles ho

/-- Where a path that can be followed finds nothing there is nothing. -/
theorem look?_of_absent (hb : d.Stands root base) (hn : d.NoLinks base)
    (absent : d.exists? (f.path root) = false) (put : d.write (f.path root) content = .ok d') :
    d.look? (f.place base) = none := by
  obtain ⟨place, e, hf, -, -⟩ := Disk.write_ok put
  have hfind := f.find_place hb hn hf .target
  cases hl : d.look? (f.place base) with
  | none => rfl
  | some e =>
    rw [hl] at hfind
    rw [Disk.exists?, Disk.stat_of_find hfind] at absent
    cases absent

/-- A file that is found to have other content is moved to its backup. -/
theorem refiles_rename {old : Bytes} (ho : d.Ordered) (hb : d.Stands root base) (hn : d.NoLinks base)
    (held : d.read (f.path root) = .ok old)
    (moved : d.rename (f.path root) (UnitName.backup (f.path root)) = .ok d') :
    Disk.Refiles (fun place => place = f.place base ∨ place = f.backupPlace base) d d' ∧
      d'.look? (f.place base) = none := by
  obtain ⟨spot, hf⟩ := Disk.find_of_read held
  have hformer := (Disk.read_of_find (f.find_place hb hn hf .target) rfl).mp held
  obtain ⟨id, hid⟩ := Disk.look?_of_contentAt? hformer
  obtain ⟨source, e, target, e', hs, ht, -, hne', rfl⟩ := Disk.rename_ok moved
  have habove := Disk.above_of_find ho ht hne'
  obtain ⟨rfl, he⟩ := Spot.mk.inj (Except.ok.inj (hs.symm.trans (f.find_place hb hn hs .name)))
  obtain ⟨rfl, rfl⟩ := Spot.mk.inj
    (Except.ok.inj (ht.symm.trans (f.find_backupPlace hb hn ht .name)))
  rw [hid] at he
  obtain rfl := Option.some.inj he
  have hapart := f.place_ne_backupPlace base f
  have hmoving : Moving d (f.place base) (f.backupPlace base) id old := ⟨hapart, hid, hne', habove⟩
  exact ⟨hmoving.refiles ho (Disk.isLoose_of_ne hne' (hn _)),
    by rw [hmoving.look?, if_neg hapart, if_pos rfl]⟩

/-- A write changes the file and its backup and nothing else. -/
theorem Writing.refiles (ho : d.Ordered) (hb : d.Stands root base) (hn : d.NoLinks base)
    (hw : Writing (f.path root) content d changed d') :
    Disk.Refiles (fun place => place = f.place base ∨ place = f.backupPlace base) d d' := by
  cases hw with
  | same held => exact .refl ho
  | fresh _ absent put =>
    exact (refiles_write ho hb hn (look?_of_absent hb hn absent put) put).mono fun _ he => .inl he
  | replaced old d₁ _ held other moved put =>
    obtain ⟨hmove, hnone⟩ := refiles_rename ho hb hn held moved
    have hput := refiles_write hmove.ordered (hmove.stands_iff.mpr hb) (hmove.noLinks_iff.mpr hn)
      hnone put
    exact hmove.trans (hput.mono fun _ he => .inl he)

/-- A file that is written stands below a directory, to which the path of its root leads once its own
directory is there. -/
theorem stands_of_run (ho : h.disk.Ordered)
    (hr : (writeBytes (f.path root) content).run h = (.ok changed, h')) :
    ∃ base, (prepared h.disk (f.path root)).Stands root base := by
  obtain ⟨last, spot, hf⟩ := (writing_of_run hr).find
  have hbelow : (prepared h.disk (f.path root)).find last (root.below (f.dirs ++ [f.fileName])) =
      .ok spot := by
    rw [← f.path_eq]
    exact hf
  exact (prepared_settles ho _).ordered.stands f.place_names_proper (by simp) hbelow

end Store
end UnitCache
