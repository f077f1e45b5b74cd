import UnitCache.Proofs.DiskParents
import UnitCache.Proofs.DiskWays
import UnitCache.Proofs.StoreOutcome

namespace UnitCache

open Disk (Ordered Way Shift IsProper)

namespace Path

variable {q : Path} {n : List Char}

/-- The backup of a file has a longer name in the same directory. -/
theorem backup_join (hn : IsProper n) :
    UnitName.backup (q.join ⟨n⟩) = q.trim.join ⟨n ++ UnitName.backupSuffix⟩ := by
  rw [UnitName.backup, fileName?_join q hn.toIsNamed hn.ne_up, Option.getD_some,
    withFileName_join q hn.toIsNamed hn.ne_up]

theorem isProper_backup (hn : IsProper n) : IsProper (n ++ UnitName.backupSuffix) := by
  have hlong : 2 < (n ++ UnitName.backupSuffix).length := by
    rw [List.length_append]
    simp [UnitName.backupSuffix]
  refine ⟨⟨hn.toIsPiece.append (by decide), fun h => ?_⟩, fun h => ?_⟩ <;> simp [h] at hlong

end Path

namespace Store

variable {d d' : Disk} {p q : Path} {content old : Bytes} {n : Name} {links : Nat}
  {base place source target : Place} {e : Error} {f : Fault} {h h' : Host} {entry : Entry}

/-- A link stands at the end of a path, and the path leads to nothing. -/
structure Dangles (d : Disk) (p : Path) (place : Place) : Prop where
  link : ∃ target, d.find .name p = .ok ⟨place, some (.link target)⟩
  no_slash : Disk.endsInSlash p = false
  absent : d.exists? p = false

/-- The way to a file goes over a link that stands where its backup is to be: without the link the
path leads nowhere. -/
structure Detours (d : Disk) (p : Path) (source target : Place) : Prop where
  read : ∃ content, d.read p = .ok content
  file : ∃ entry, d.find .name p = .ok ⟨source, some entry⟩
  backup : ∃ link, d.find .name (UnitName.backup p) = .ok ⟨target, some (.link link)⟩
  needed : ∀ spot, (d.erase target).find .name p ≠ .ok spot

def Loses (d : Disk) (p : Path) : Prop :=
  (∃ place, Dangles d p place) ∨ ∃ source target, Detours d p source target

def cleared (d : Disk) (p : Path) : Disk :=
  match d.remove p with
  | .ok d' => d'
  | .error _ => d

def restored (d : Disk) (p : Path) : Option Path → Disk
  | none => d
  | some b =>
    match d.rename b p with
    | .ok d' => d'
    | .error _ => d

theorem run_takeBack (p : Path) (backup : Option Path) (h : Host) :
    ∃ log, (takeBack p backup).run h = (.ok (), ⟨restored h.disk p backup, log⟩) := by
  cases backup with
  | none => exact ⟨h.log, rfl⟩
  | some b =>
    rw [takeBack, run_bind_ok (rfl : (get : Action Host).run h = (.ok h, h)), restored]
    cases h.disk.rename b p with
    | ok d' => exact ⟨_, rfl⟩
    | error f => exact ⟨_, rfl⟩

/-- A failed write is undone, with a report on what cannot be. -/
theorem run_undoWrite (p : Path) (f : Fault) (backup : Option Path) (h : Host) :
    ∃ log, (undoWrite p f backup).run h =
      (.ok (), ⟨restored (cleared h.disk p) p backup, log⟩) := by
  let r : LogRecord := ⟨.error, "Unable to write " ++ p.text ++ ": " ++ f.message, []⟩
  have hreport : (Action.report r).run h = (.ok (), ⟨h.disk, h.log ++ [r]⟩) := rfl
  have hget : (get : Action Host).run ⟨h.disk, h.log ++ [r]⟩ = (.ok ⟨h.disk, h.log ++ [r]⟩, _) := rfl
  rw [undoWrite.eq_def, run_bind_ok hreport, run_bind_ok hget, cleared]
  cases h.disk.remove p with
  | ok d' => exact run_takeBack p backup ⟨d', h.log ++ [r]⟩
  | error f' =>
    cases f' with
    | notFound => exact run_takeBack p backup ⟨h.disk, h.log ++ [r]⟩
    | _ => exact run_takeBack p backup ⟨h.disk, _⟩

inductive Failing (p : Path) (content : Bytes) (d : Disk) : Disk → Prop
  | unread (f : Fault) (there : d.exists? p = true) (refused : d.read p = .error f) :
      Failing p content d d
  | unmoved (old : Bytes) (f : Fault) (held : d.read p = .ok old)
      (refused : d.rename p (UnitName.backup p) = .error f) : Failing p content d d
  | fresh (f : Fault) (absent : d.exists? p = false) (refused : d.write p content = .error f) :
      Failing p content d (cleared d p)
  | replaced (old : Bytes) (d₁ : Disk) (f : Fault) (held : d.read p = .ok old)
      (moved : d.rename p (UnitName.backup p) = .ok d₁) (refused : d₁.write p content = .error f) :
      Failing p content d (restored (cleared d₁ p) p (some (UnitName.backup p)))

theorem run_putContent_error {backup : Option Path}
    (hr : (putContent p content backup).run h = (.error e, h')) :
    ∃ f, h.disk.write p content = .error f ∧ h'.disk = restored (cleared h.disk p) p backup := by
  cases hw : h.disk.write p content with
  | ok d =>
    rw [run_putContent_written hw] at hr
    cases hr
  | error f =>
    obtain ⟨log, hundo⟩ := run_undoWrite p f backup h
    rw [putContent, run_bind_ok (rfl : (get : Action Host).run h = (.ok h, h))] at hr
    simp only [hw] at hr
    rw [run_bind_ok hundo] at hr
    cases hr
    exact ⟨f, rfl, rfl⟩

theorem exists?_of_read (hr : d.read p = .ok content) : d.exists? p = true := by
  obtain ⟨place, id, hstat⟩ := Disk.stat_of_read hr
  rw [Disk.exists?, hstat]
  rfl

theorem failing_of_run (hr : (writeReady p content).run h = (.error e, h')) :
    Failing p content h.disk h'.disk := by
  cases hx : h.disk.exists? p with
  | false =>
    rw [run_writeReady_absent hx] at hr
    obtain ⟨f, hw, hd⟩ := run_putContent_error hr
    exact hd ▸ .fresh f hx hw
  | true =>
    cases ho : h.disk.read p with
    | error f =>
      rw [run_writeReady_unread hx ho] at hr
      cases hr
      exact .unread f hx ho
    | ok old =>
      rw [run_writeReady_held hx ho] at hr
      split at hr
      · cases hr
      cases hm : h.disk.rename p (UnitName.backup p) with
      | error f =>
        rw [hm] at hr
        cases hr
        exact .unmoved old f ho hm
      | ok d₁ =>
        rw [hm] at hr
        obtain ⟨f, hw, hd⟩ := run_putContent_error hr
        exact hd ▸ .replaced old d₁ f ho hm hw

/-- A file that is read stands under a name in a directory, itself or as a link. -/
theorem way_of_read (ho : d.Ordered) (hr : d.read p = .ok content) :
    ∃ q n links base entry, p = q.join ⟨n⟩ ∧ Way d q n links base ∧
      d.look? (base ++ [n]) = some entry ∧ entry ≠ .directory := by
  obtain ⟨place, id, hstat⟩ := Disk.stat_of_read hr
  have hfind := Disk.find_of_stat hstat
  obtain ⟨q, n, links, base, rfl, hway⟩ :=
    Disk.way_of_find ho hfind (Disk.endsInSlash_of_read ho hr) (by simp)
  cases hl : d.look? (base ++ [n]) with
  | none => cases hfind.symm.trans (hway.find_nothing hl .target)
  | some entry =>
    refine ⟨q, n, links, base, entry, rfl, hway, hl, ?_⟩
    rintro rfl
    cases hfind.symm.trans (hway.find_directory hl .target)

theorem stands_of_way (ho : d.Ordered) (hw : Way d q n links base) : d.Stands q.trim base :=
  Disk.Stands.trim ⟨links, hw.leads, hw.leads.directory ho.parents (ho.start q)⟩

/-- The way to the backup of a file is the way to the file. -/
theorem way_of_backup {last : Disk.Last} {spot : Disk.Spot} (ho : d.Ordered) (hw : Way d q n links base)
    (hf : d.find last (UnitName.backup (q.join ⟨n⟩)) = .ok spot) :
    ∃ k, Way d q.trim (n ++ UnitName.backupSuffix) k base := by
  rw [Path.backup_join hw.proper] at hf
  obtain ⟨k, base', hway⟩ := Disk.way_of_join (Path.isProper_backup hw.proper) hf
  obtain ⟨k', hleads, -⟩ := stands_of_way ho hw
  obtain ⟨rfl, -⟩ := hleads.unique hway.leads
  exact ⟨k, hway⟩

theorem isDirectory_here (ho : d.Ordered) : d.isDirectory ⟨['.']⟩ = true := by
  have hdot : d.Stands ⟨['.']⟩ d.cwd := ⟨_, .stay (.stop _ _), ho.cwd⟩
  exact hdot.isDirectory (by decide) ⟨by decide, by decide⟩

/-- A path that goes to a directory goes to the directory of its file. -/
theorem isDirectory_of_way (ho : d.Ordered) (hw : Way d q n links base) :
    d.isDirectory (directoryOf (q.join ⟨n⟩)) = true := by
  rw [directoryOf, Path.parent?_join q hw.proper.toIsNamed]
  simp only
  split
  · exact isDirectory_here ho
  · rename_i hempty
    have htrim : q.trim.chars ≠ [] := by simpa [Path.isEmpty] using hempty
    have hq : q.chars ≠ [] := by
      intro hnil
      obtain rfl : q = ⟨[]⟩ := congrArg Path.mk hnil
      exact htrim rfl
    have hfront := (Path.prefix_trim hq).trans (Path.prefix_join hq hw.proper.toIsPiece)
    exact (stands_of_way ho hw).isDirectory htrim (hw.legible.of_prefix hfront)

inductive Outcome (p : Path) (d : Disk) : Disk → Prop
  | kept (h : ¬Loses d p) : Outcome p d d
  | unlinked (place : Place) (h : Dangles d p place) : Outcome p d (d.erase place)
  | stranded (source target : Place) (entry : Entry) (h : Detours d p source target)
      (apart : source ≠ target) (found : d.look? source = some entry) (moves : entry ≠ .directory)
      (gone : (d.move source target entry).exists? p = false) :
      Outcome p d (d.move source target entry)

theorem Detours.rename (ho : d.Ordered) (h : Detours d p source target) :
    ∃ d', d.rename p (UnitName.backup p) = .ok d' := by
  obtain ⟨content, hread⟩ := h.read
  obtain ⟨link, hbackup⟩ := h.backup
  obtain ⟨q, n, links, base, entry, rfl, hway, hl, hne⟩ := way_of_read ho hread
  have hfile := hway.find_name
  rw [hl] at hfile
  rw [Disk.rename, hfile, hbackup]
  cases entry with
  | directory => exact absurd rfl hne
  | file id content =>
    simp only
    split <;> exact ⟨_, rfl⟩
  | link link =>
    simp only
    split <;> exact ⟨_, rfl⟩

theorem outcome_of_cleared (ho : d.Ordered) (absent : d.exists? p = false) :
    Outcome p d (cleared d p) := by
  rw [cleared]
  cases hr : d.remove p with
  | error f =>
    refine .kept fun hl => ?_
    rcases hl with ⟨place, hd⟩ | ⟨source, target, hd⟩
    · obtain ⟨link, hfind⟩ := hd.link
      rw [Disk.remove, hfind] at hr
      simp [hd.no_slash] at hr
    · obtain ⟨content, hread⟩ := hd.read
      rw [exists?_of_read hread] at absent
      cases absent
  | ok d' =>
    obtain ⟨place, entry, hfind, hne, hs, rfl⟩ := Disk.remove_ok hr
    refine .unlinked place ⟨?_, hs, absent⟩
    cases entry with
    | link target => exact ⟨target, hfind⟩
    | directory => exact absurd rfl hne
    | file id content =>
      -- A file at the end of a path is there for those who follow it.
      obtain ⟨q, n, links, base, rfl, hway⟩ := Disk.way_of_find ho hfind hs (by simp)
      obtain ⟨rfl, hl⟩ := Disk.Spot.mk.inj (Except.ok.inj (hfind.symm.trans hway.find_name))
      have hstat := Disk.stat_of_find (hway.find_file hl.symm .target)
      rw [Disk.exists?, hstat] at absent
      cases absent

/-- Where a path leads nowhere nothing is taken away and nothing put back. -/
theorem restored_of_lost {backup : Option Path} (h : ∀ spot, d.find .name p ≠ .ok spot) :
    restored (cleared d p) p backup = d := by
  have hcleared : cleared d p = d := by
    rw [cleared]
    cases hr : d.remove p with
    | error f => rfl
    | ok d' =>
      obtain ⟨place, entry, hfind, -⟩ := Disk.remove_ok hr
      exact absurd hfind (h _)
  rw [hcleared]
  cases backup with
  | none => rfl
  | some b =>
    rw [restored]
    cases hr : d.rename b p with
    | error f => rfl
    | ok d' =>
      obtain ⟨source, entry, target, entry', -, hfind, -⟩ := Disk.rename_ok hr
      exact absurd hfind (h _)

/-- Where the backup of a file is made and the file cannot be written after that, the way to the file
is gone. -/
theorem outcome_of_moved {d₁ : Disk} (ho : d.Ordered) (held : d.read p = .ok old)
    (moved : d.rename p (UnitName.backup p) = .ok d₁) (refused : d₁.write p content = .error f) :
    Outcome p d (restored (cleared d₁ p) p (some (UnitName.backup p))) := by
  obtain ⟨source, entry, target, entry', hfile, hbackup, hne, hne', rfl⟩ := Disk.rename_ok moved
  obtain ⟨q, n, links, base, entry, rfl, hway, hl, -⟩ := way_of_read ho held
  obtain ⟨rfl, he⟩ := Disk.Spot.mk.inj (Except.ok.inj (hfile.symm.trans hway.find_name))
  rw [hl] at he
  cases he
  obtain ⟨k, hside⟩ := way_of_backup ho hway hbackup
  have hnamed := hside.find_name
  rw [← Path.backup_join hway.proper] at hnamed
  obtain ⟨rfl, rfl⟩ := Disk.Spot.mk.inj (Except.ok.inj (hbackup.symm.trans hnamed))
  have hshift : Shift d base n (n ++ UnitName.backupSuffix) entry :=
    ⟨by simp [UnitName.backupSuffix], hl, hne, hne', hway.isBlind ho held⟩
  have hneeded (spot : Disk.Spot) :
      (d.erase (base ++ [n ++ UnitName.backupSuffix])).find .name (q.join ⟨n⟩) ≠ .ok spot := by
    intro hspot
    obtain ⟨k, base', hleft⟩ := Disk.way_of_join hway.proper hspot
    obtain rfl := (hleft.of_erase (by simp)).unique hway
    have hgone : (d.move (base' ++ [n]) (base' ++ [n ++ UnitName.backupSuffix]) entry).look?
        (base' ++ [n]) = none := by
      rw [hshift.look?, if_neg hshift.places_apart, if_pos rfl]
    rw [Disk.write, (hshift.way_iff.mpr hleft).find_nothing hgone] at refused
    cases refused
  have hlost (last : Disk.Last) (spot : Disk.Spot) :
      (d.move (base ++ [n]) (base ++ [n ++ UnitName.backupSuffix]) entry).find last (q.join ⟨n⟩) ≠
        .ok spot := by
    intro hspot
    obtain ⟨k, base', hafter⟩ := Disk.way_of_join hway.proper hspot
    exact hneeded _ (hshift.way_iff.mp hafter).find_name
  rw [restored_of_lost (hlost .name)]
  refine .stranded _ _ entry ⟨⟨old, held⟩, ⟨entry, hfile⟩, ?_, hneeded⟩ hshift.places_apart hl hne ?_
  · rcases hl' : d.look? (base ++ [n ++ UnitName.backupSuffix]) with _ | ⟨id, c⟩ | _ | link
    · exact absurd (hway.erase (by simp) (hl' ▸ trivial)).find_name (hneeded _)
    · exact absurd (hway.erase (by simp) (hl' ▸ trivial)).find_name (hneeded _)
    · exact absurd hl' hne'
    · exact ⟨link, hl' ▸ hbackup⟩
  · rw [Disk.exists?, Disk.stat]
    cases hfind : Disk.find _ .target (q.join ⟨n⟩) with
    | error f => rfl
    | ok spot => exact absurd hfind (hlost .target spot)

theorem Failing.outcome (ho : d.Ordered) (h : Failing p content d d') : Outcome p d d' := by
  cases h with
  | unread f there refused =>
    refine .kept fun hl => ?_
    rcases hl with ⟨place, hd⟩ | ⟨source, target, hd⟩
    · cases there.symm.trans hd.absent
    · obtain ⟨content, hread⟩ := hd.read
      cases hread.symm.trans refused
  | unmoved old f held refused =>
    refine .kept fun hl => ?_
    rcases hl with ⟨place, hd⟩ | ⟨source, target, hd⟩
    · cases (exists?_of_read held).symm.trans hd.absent
    · obtain ⟨d', hmoved⟩ := hd.rename ho
      cases hmoved.symm.trans refused
  | fresh f absent refused => exact outcome_of_cleared ho absent
  | replaced old d₁ f held moved refused => exact outcome_of_moved ho held moved refused

theorem prepared_widens (ho : d.Ordered) (p : Path) :
    Disk.Widens (directoryOf p).ancestors d (prepared d p) := by
  unfold prepared
  split
  · exact .refl ho _
  · exact Disk.makeFirst_widens ho _

/-- Nothing is lost where the directory of the file cannot be made. -/
theorem not_loses (ho : d.Ordered) (hd : d.isDirectory (directoryOf p) = false) : ¬Loses d p := by
  rintro (⟨place, h⟩ | ⟨source, target, h⟩)
  · obtain ⟨link, hfind⟩ := h.link
    obtain ⟨q, n, links, base, rfl, hway⟩ := Disk.way_of_find ho hfind h.no_slash (by simp)
    cases (isDirectory_of_way ho hway).symm.trans hd
  · obtain ⟨content, hread⟩ := h.read
    obtain ⟨q, n, links, base, entry, rfl, hway, -⟩ := way_of_read ho hread
    cases (isDirectory_of_way ho hway).symm.trans hd

/-- A write fails on the tree with the directory of its file, or as that cannot be made. -/
theorem outcome_of_run (ho : h.disk.Ordered) (hr : (writeBytes p content).run h = (.error e, h')) :
    Outcome p (prepared h.disk p) h'.disk := by
  have ho' := (prepared_widens ho p).ordered
  have hask : (Action.ask (·.isDirectory (directoryOf p))).run h =
      (.ok (h.disk.isDirectory (directoryOf p)), h) := rfl
  rw [writeBytes, run_bind_ok hask] at hr
  unfold prepared at ho' ⊢
  cases hd : h.disk.isDirectory (directoryOf p) with
  | true =>
    rw [hd] at hr
    exact (failing_of_run hr).outcome ho
  | false =>
    simp only [hd, Bool.not_false, if_true, Bool.false_eq_true, if_false] at hr ho' ⊢
    cases hm : h.disk.makeDirectories (directoryOf p) with
    | mk d₁ r =>
      rw [hm] at ho'
      have hmake := Action.run_makeDirectories hm fun f => .configuration
        ("unable to create directory " ++ (directoryOf p).text ++ ": " ++ f.message)
      cases r with
      | error f =>
        rw [run_bind_error hmake] at hr
        cases hr
        exact .kept (not_loses ho' (Disk.isDirectory_makeFirst ho (Path.isChain_ancestors _) hm))
      | ok _ =>
        rw [run_bind_ok hmake] at hr
        exact (failing_of_run hr).outcome ho'

def Kept (d d' : Disk) : Prop := ∀ place entry, d.look? place = some entry → d'.look? place = some entry

theorem Dangles.look? (h : Dangles d p place) : ∃ link, d.look? place = some (.link link) := by
  obtain ⟨link, hfind⟩ := h.link
  exact ⟨link, (Disk.entry_of_find hfind).symm⟩

theorem Detours.look? (h : Detours d p source target) : ∃ link, d.look? target = some (.link link) := by
  obtain ⟨link, hfind⟩ := h.backup
  exact ⟨link, (Disk.entry_of_find hfind).symm⟩

/-- A failed write puts nothing where nothing was, on the tree with the directory of its file. -/
theorem Outcome.look? (h : Outcome p d d') (hp : d'.look? place ≠ none) (hd : ∀ link,
    d.look? place ≠ some (.link link)) : d'.look? place = d.look? place := by
  cases h with
  | kept => rfl
  | unlinked l h =>
    obtain ⟨link, hlink⟩ := h.look?
    have hl := Disk.ne_root_of_look? hlink (by simp)
    rw [Disk.look?_erase d hl] at hp ⊢
    split
    · rename_i he
      exact absurd (if_pos he) hp
    · rfl
  | stranded source target entry h apart found moves gone =>
    obtain ⟨link, hlink⟩ := h.look?
    have hs := Disk.ne_root_of_look? found moves
    have ht := Disk.ne_root_of_look? hlink (by simp)
    have hne : place ≠ target := by
      rintro rfl
      exact hd link hlink
    rw [Disk.look?_move d hs ht apart, if_neg hne] at hp ⊢
    split
    · rename_i he
      exact absurd (if_pos he) hp
    · rfl

/-- What was there is kept if the write does not fail in one of two ways. -/
theorem Outcome.kept_iff {d₀ : Disk} {ps : List Path} (hw : Disk.Widens ps d₀ d) (h : Outcome p d d') :
    Kept d₀ d' ↔ ¬Loses d p := by
  cases h with
  | kept h =>
    refine ⟨fun _ => h, fun _ place entry hp => ?_⟩
    rcases hw.look place with hsame | ⟨hnone, -⟩
    · exact hsame.trans hp
    · cases hp.symm.trans hnone
  | unlinked place h =>
    obtain ⟨link, hlink⟩ := h.look?
    refine ⟨fun hkept => ?_, fun hno => absurd (.inl ⟨place, h⟩) hno⟩
    have hleft := hkept place _ ((hw.keeps.links place link).mp hlink)
    rw [Disk.look?_erase d (Disk.ne_root_of_look? hlink (by simp)), if_pos rfl] at hleft
    cases hleft
  | stranded source target entry h apart found moves gone =>
    refine ⟨fun hkept => ?_, fun hno => absurd (.inr ⟨source, target, h⟩) hno⟩
    obtain ⟨link, hlink⟩ := h.look?
    have hs := Disk.ne_root_of_look? found moves
    have ht := Disk.ne_root_of_look? hlink (by simp)
    rcases hw.look source with hsame | ⟨-, q, -, hstat⟩
    · have hleft := hkept source entry (hsame.symm.trans found)
      rw [Disk.look?_move d hs ht apart, if_neg apart, if_pos rfl] at hleft
      cases hleft
    · have hmade := Disk.entry_of_find (Disk.find_of_stat hstat)
      exact absurd (Option.some.inj (found.symm.trans hmade.symm)) moves

theorem Outcome.of_not_loses (h : Outcome p d d') (hno : ¬Loses d p) : d' = d := by
  cases h with
  | kept => rfl
  | unlinked place h => exact absurd (.inl ⟨place, h⟩) hno
  | stranded source target entry h => exact absurd (.inr ⟨source, target, h⟩) hno

/-- A link that dangles is taken away. -/
theorem Outcome.of_dangles (h : Outcome p d d') (hl : Dangles d p place) : d' = d.erase place := by
  cases h with
  | kept hno => exact absurd (.inl ⟨place, hl⟩) hno
  | unlinked there h =>
    obtain ⟨link, hfind⟩ := hl.link
    obtain ⟨link', hfind'⟩ := h.link
    cases hfind.symm.trans hfind'
    rfl
  | stranded source target entry h =>
    obtain ⟨content, hread⟩ := h.read
    cases (exists?_of_read hread).symm.trans hl.absent

/-- A file behind a link at the place of its backup is stranded there. -/
theorem Outcome.of_detours (h : Outcome p d d') (hd : Detours d p source target) :
    ∃ entry, d.look? source = some entry ∧ d' = d.move source target entry ∧ d'.exists? p = false := by
  cases h with
  | kept hno => exact absurd (.inr ⟨source, target, hd⟩) hno
  | unlinked place h =>
    obtain ⟨content, hread⟩ := hd.read
    cases (exists?_of_read hread).symm.trans h.absent
  | stranded source' target' entry h apart found moves gone =>
    obtain ⟨e, hfile⟩ := hd.file
    obtain ⟨e', hfile'⟩ := h.file
    obtain ⟨link, hbackup⟩ := hd.backup
    obtain ⟨link', hbackup'⟩ := h.backup
    cases hfile.symm.trans hfile'
    cases hbackup.symm.trans hbackup'
    exact ⟨entry, found, rfl, gone⟩

/-- What a failed write does to a tree: all that was there is kept, unless a link that leads to nothing
stands at the path, which is taken away, or the way to the file goes over the link where its backup is
to be, whose place the file gets for good. What is new are directories above the file. -/
theorem failed_write (ho : h.disk.Ordered) (hr : (writeBytes p content).run h = (.error e, h')) :
    (Kept h.disk h'.disk ↔ ¬Loses (prepared h.disk p) p) ∧
    (¬Loses (prepared h.disk p) p → h'.disk = prepared h.disk p) ∧
    (∀ place, Dangles (prepared h.disk p) p place → h'.disk = (prepared h.disk p).erase place) ∧
    (∀ source target, Detours (prepared h.disk p) p source target →
      ∃ entry, (prepared h.disk p).look? source = some entry ∧
        h'.disk = (prepared h.disk p).move source target entry ∧ h'.disk.exists? p = false) ∧
    ∀ place, h.disk.look? place = none → h'.disk.look? place ≠ none →
      h'.disk.look? place = some .directory ∧
        ∃ q ∈ (directoryOf p).ancestors, (prepared h.disk p).stat q = .ok (place, .directory) := by
  have hw := prepared_widens ho p
  have hout := outcome_of_run ho hr
  generalize prepared h.disk p = d at hw hout ⊢
  refine ⟨hout.kept_iff hw, hout.of_not_loses, fun place => hout.of_dangles,
    fun source target => hout.of_detours, fun place hnone hsome => ?_⟩
  have hlinks (link : Path) : d.look? place ≠ some (.link link) := by
    intro hlink
    cases hnone.symm.trans ((hw.keeps.links place link).mp hlink)
  have hlook := hout.look? hsome hlinks
  rcases hw.look place with hsame | ⟨-, q, hq, hstat⟩
  · exact absurd (hlook.trans (hsame.trans hnone)) hsome
  · have hmade := Disk.entry_of_find (Disk.find_of_stat hstat)
    exact ⟨hlook.trans hmade.symm, q, hq, hstat⟩

def dangling : Disk := { entries := [(["l".toList], .link (.ofString "gone/x"))] }

theorem ordered_dangling : dangling.Ordered := by
  have hentry (place : Place) (entry : Entry) (hl : dangling.look? place = some entry) :
      place = [] ∧ entry = .directory ∨ place = ["l".toList] ∧ entry = .link (.ofString "gone/x") := by
    by_cases hp : place = []
    · subst hp
      exact .inl ⟨rfl, (Option.some.inj hl).symm⟩
    · exact .inr (by simpa [dangling] using Disk.mem_entries hl hp)
  have hfile (place : Place) (id : FileId) (content : Bytes) :
      dangling.look? place ≠ some (.file id content) := by
    intro hl
    rcases hentry place _ hl with ⟨-, he⟩ | ⟨-, he⟩ <;> cases he
  refine ⟨fun place n hp => ?_, rfl, by decide, fun p q id a b hp => absurd hp (hfile p id a),
    fun p id content hp => absurd hp (hfile p id content), by decide⟩
  obtain ⟨entry, hl⟩ := Option.ne_none_iff_exists'.mp hp
  rcases hentry _ entry hl with ⟨hnil, -⟩ | ⟨hplace, -⟩
  · exact absurd hnil (List.concat_ne_nil n place)
  · obtain ⟨rfl, -⟩ := List.append_inj' (show place ++ [n] = [] ++ ["l".toList] from hplace) rfl
    rfl

theorem dangles_dangling : Dangles dangling (.ofString "l") ["l".toList] :=
  ⟨⟨.ofString "gone/x", by cbv⟩, by decide, by cbv⟩

/-- A write through a link that dangles fails, and then the link is gone. -/
theorem failed_write_dangling : ∃ e h', dangling.Ordered ∧
    (writeBytes (.ofString "l") (Utf8.encode "v")).run ⟨dangling, []⟩ = (.error e, h') ∧
      ¬Kept dangling h'.disk ∧ h'.disk = dangling.erase ["l".toList] := by
  have hrun : (writeBytes (.ofString "l") (Utf8.encode "v")).run ⟨dangling, []⟩ =
      (.error (.io (.ofString "l") .notFound), ⟨dangling.erase ["l".toList],
        [⟨.error, "Unable to write l: No such file or directory (os error 2)", []⟩]⟩) := by
    cbv
  have hprepared : prepared dangling (.ofString "l") = dangling := if_pos (isDirectory_here ordered_dangling)
  obtain ⟨hkept, -, hremoved, -⟩ := failed_write (h := ⟨dangling, []⟩) ordered_dangling hrun
  rw [hprepared] at hkept hremoved
  refine ⟨_, _, ordered_dangling, hrun, ?_, hremoved _ dangles_dangling⟩
  intro h
  exact hkept.mp h (.inl ⟨_, dangles_dangling⟩)

-- By way of a link where the backup goes the path is lost together with the link.
example :
    ((writeBytes (.ofString "p.bak/../p") (Utf8.encode "v")).run
      ⟨{ entries := [(["p".toList], .file 0 []), (["p.bak".toList], .link (.ofString "sub")),
        (["sub".toList], .directory)] }, []⟩).2.disk.entries =
      [(["p.bak".toList], .file 0 []), (["sub".toList], .directory)] := by cbv

end Store
end UnitCache
