import UnitCache.Proofs.DiskGrowth
import UnitCache.Proofs.OutputPlaces
import UnitCache.Proofs.UnitPaths

namespace UnitCache

open Disk (Touches Grows Sound Spot placeOf)
open UnitCache.Path (Component)

namespace Disk

variable {d d' : Disk} {p : Path} {place : Place} {content : Bytes} {S : Place → Prop}
  {front : List Component} {n : Name} {links : Nat} {here : Place} {slash : Bool} {ns : List Name}

theorem placeOf_concat (h : p.components = front ++ [.name n]) (cwd : Place) :
    placeOf cwd p = front.foldl step cwd ++ [n] := by
  rw [placeOf, h, List.foldl_append]
  rfl

theorem placeOf_backup (h : p.components = front ++ [.name n]) (cwd : Place) :
    placeOf cwd (UnitName.backup p) = front.foldl step cwd ++ [n ++ UnitName.backupSuffix] :=
  placeOf_concat (UnitName.components_backup h) cwd

theorem placeOf_ne_backup (h : p.components = front ++ [.name n]) (cwd : Place) :
    placeOf cwd p ≠ placeOf cwd (UnitName.backup p) := by
  rw [placeOf_concat h, placeOf_backup h]
  intro he
  have hn := List.singleton_inj.mp (List.append_cancel_left he)
  simp [UnitName.backupSuffix] at hn

/-- A directory that was made where its path leads is found there. -/
theorem walk_made {spot : Spot} (hl : d.Linkless) (hmade : d'.look? spot.place = some .directory)
    (hd : ∀ there, d.look? there = some .directory → d'.look? there = some .directory)
    (hn : spot.entry = none) (h : walk d .name links here slash ns = .ok spot) :
    walk d' .target links here slash ns = .ok ⟨spot.place, some .directory⟩ := by
  fun_induction walk d .name links here slash ns with
  | case1 links here slash =>
    cases h
    rw [walk, hmade]
  | case2 links here slash rest ih =>
    rw [walk, if_pos rfl]
    exact ih h
  | case3 links here slash rest hdot ih =>
    rw [walk, if_neg hdot, if_pos rfl]
    exact ih h
  | case6 links here slash n hdot hup hlong place hf hslash =>
    cases h
    have hfound : d'.look? (here ++ [n]) = some .directory := hmade
    rw [walk, if_neg hdot, if_neg hup, if_neg (by simp), if_neg hlong]
    simp only [hfound]
    rw [walk, hfound]
  | case8 links here slash n rest hdot hup hslash hlong place hf ih =>
    have hfound : d'.look? (here ++ [n]) = some .directory := hd _ hf
    rw [walk, if_neg hdot, if_neg hup, if_neg (by simp), if_neg hlong]
    simp only [hfound]
    exact ih h
  | case9 =>
    cases h
    cases hn
  | case11 _ _ _ _ _ _ _ _ _ _ _ hf => exact absurd hf (hl _ _)
  | case13 _ _ _ _ _ _ _ _ _ _ hf => exact absurd hf (hl _ _)
  | _ => cases h

theorem isDirectory_of_makeDirectory (hs : d.Sound) (h : d.makeDirectory p = .ok d') :
    d'.isDirectory p = true := by
  have hg : Grows (fun _ => False) d d' := makeDirectory_grows hs h
  obtain ⟨place, hf, rfl⟩ := makeDirectory_ok h
  have hmade : (d.set place .directory).look? place = some .directory := by
    refine look?_set_self d ?_ _
    rintro rfl
    cases entry_of_find hf
  have hw := walk_made hs.linkless hmade hg.directories rfl (walk_of_find hf)
  rw [isDirectory, stat_of_find (find_of_walk hf (((hg.keeps hs).start p).symm ▸ hw))]

/-- Making a directory after those that it needs goes well if it is there in the end. -/
theorem isDirectory_of_makeFirst {parents : List Path} (hs : d.Sound) (hp : p.chars ≠ [])
    (h : d.makeFirst (p :: parents) = (d', .ok ())) : d'.isDirectory p = true := by
  rcases makeFirst_cons_ok hp h with hd | ⟨rfl, hd⟩ | ⟨-, d₁, hf, hd | ⟨rfl, hd⟩⟩
  · exact isDirectory_of_makeDirectory hs hd
  · exact hd
  · have hg : Grows (fun _ => False) d (d.makeFirst parents).1 := makeFirst_grows hs parents
    rw [hf] at hg
    exact isDirectory_of_makeDirectory hg.sound hd
  · exact hd

end Disk

namespace Store

variable {p : Path} {content : Bytes} {d d' : Disk} {h h' : Host} {changed : Bool}
  {front : List Component} {n : Name} {S : Place → Prop}

theorem directoryOf_ne_nil (p : Path) : (directoryOf p).chars ≠ [] := by
  unfold directoryOf
  split
  · split
    · simp
    · rename_i q _ hq
      simpa [Path.isEmpty] using hq
  · simp

/-- A file is written anew: where nothing was, or where its former content has just been moved. -/
theorem Writing.grows (hs : d.Sound) (hp : p.components = front ++ [.name n])
    (hw : Writing p content d changed d') : Grows (FileOrBackup d.cwd p) d d' := by
  cases hw with
  | same held => exact .refl hs
  | replaced old d₁ _ held other moved put =>
    obtain ⟨hmove, hnone⟩ := Disk.rename_grows hs moved (Disk.placeOf_ne_backup hp d.cwd)
    rw [← hmove.cwd] at hnone
    have hput := Disk.write_grows hmove.sound put hnone
    exact hmove.trans (hput.mono fun place he => .inl (hmove.cwd ▸ he))
  | fresh _ absent put =>
    obtain ⟨place, e, hf, hne, -⟩ := Disk.write_ok put
    obtain ⟨rfl, rfl⟩ := Spot.mk.inj (Disk.find_linkless hs.linkless hf)
    refine (Disk.write_grows hs put ?_).mono fun place he => .inl he
    by_contra hsome
    -- A file there would have been seen before the write.
    have hgrounded := (hs.parents.grounded hs.cwd).start p
    have hwalk := Disk.walk_of_find hf
    have hloose := Disk.isLoose_of_walk hgrounded hwalk hne
    cases hl : d.look? (placeOf d.cwd p) with
    | none => exact hsome hl
    | some e =>
      rw [hl] at hloose
      cases e with
      | directory => exact hloose
      | link target => exact hloose
      | file id c =>
        have hread := Disk.walk_put hl (fun _ _ => rfl) ⟨id, c, rfl⟩ (hl ▸ hloose) hwalk
        rw [Disk.exists?, Disk.stat_of_find (Disk.find_of_walk hf hread)] at absent
        cases absent

/-- What makes a write do nothing: the file has its content, and its directory is one. -/
structure Holds (p : Path) (content : Bytes) (d : Disk) : Prop where
  directory : d.isDirectory (directoryOf p) = true
  read : d.read p = .ok content

theorem Holds.grows (hh : Holds p content d) (hs : d.Sound) (hg : Grows S d d')
    (hp : ¬S (placeOf d.cwd p)) : Holds p content d' :=
  ⟨(hg.keeps hs).isDirectory hh.directory, hg.read hs hp hh.read⟩

/-- A write that goes well lets the tree grow, and holds. -/
theorem grows_writeBytes (hs : h.disk.Sound) (hp : p.components = front ++ [.name n])
    (hr : (writeBytes p content).run h = (.ok changed, h')) :
    Grows (FileOrBackup h.disk.cwd p) h.disk h'.disk ∧ Holds p content h'.disk := by
  have hread := read_writeBytes (hs.parents.grounded hs.cwd) hr
  obtain ⟨d₁, d₂, hmade, hw, rfl⟩ := run_writeBytes_ok hr
  obtain ⟨hg₁, hdir⟩ : Grows (FileOrBackup h.disk.cwd p) h.disk d₁ ∧
      d₁.isDirectory (directoryOf p) = true := by
    rcases hmade with ⟨rfl, hd⟩ | ⟨-, hm⟩
    · exact ⟨.refl hs, hd⟩
    · have hg : Grows (FileOrBackup h.disk.cwd p) h.disk
          (h.disk.makeDirectories (directoryOf p)).1 := Disk.makeFirst_grows hs _
      rw [hm] at hg
      exact ⟨hg, Disk.isDirectory_of_makeFirst hs (directoryOf_ne_nil p) hm⟩
  have hg₂ := hw.grows hg₁.sound hp
  rw [hg₁.cwd] at hg₂
  exact ⟨hg₁.trans hg₂, (hg₂.keeps hg₁.sound).isDirectory hdir, hread⟩

/-- Where a write holds it can be repeated without effect. -/
theorem Holds.run_writeBytes (hh : Holds p content h.disk) :
    (writeBytes p content).run h = (.ok false, h) := run_writeBytes_same hh.directory hh.read

end Store

namespace UnitFile

variable {f g : UnitFile} {root : Path}

theorem foldl_dirs (cwd : Place) (root : Path) (f : UnitFile) :
    (root.components ++ f.dirs.map Component.name).foldl Disk.step cwd = placeOf cwd root ++ f.dirs := by
  rw [List.foldl_append, Disk.foldl_step_names, placeOf]

/-- The path to a file spells its place below that of the root. -/
theorem placeOf_path (cwd : Place) (root : Path) (f : UnitFile) :
    placeOf cwd (f.path root) = f.place (placeOf cwd root) := by
  rw [Disk.placeOf_concat (f.components_path root), foldl_dirs, place, List.append_assoc]

theorem placeOf_backup_path (cwd : Place) (root : Path) (f : UnitFile) :
    placeOf cwd (UnitName.backup (f.path root)) = f.backupPlace (placeOf cwd root) := by
  rw [Disk.placeOf_backup (f.components_path root), foldl_dirs, backupPlace, List.append_assoc]
  rfl

/-- Another file is neither at the place of a file nor at that of its backup. -/
theorem apart (cwd : Place) (root : Path) (h : f ≠ g) :
    ¬FileOrBackup cwd (g.path root) (placeOf cwd (f.path root)) := by
  rw [FileOrBackup, placeOf_path, placeOf_path, placeOf_backup_path]
  rintro (he | he)
  · exact h (place_inj he)
  · exact place_ne_backupPlace _ f g he

end UnitFile
end UnitCache
