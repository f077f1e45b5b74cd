import UnitCache.Proofs.DiskTouch
import UnitCache.Proofs.StoreWrites

namespace UnitCache

namespace Disk

variable {d d' : Disk} {p q : Path} {place here : Place} {content : Bytes} {links : Nat} {slash : Bool}
  {n : Name} {ns : List Name} {spot : Spot}

def Grounded (d : Disk) (here : Place) : Prop :=
  ∀ place, place <+: here → d.look? place = some .directory

namespace Grounded

theorem root (d : Disk) : Grounded d [] := by
  intro place hp
  rw [List.prefix_nil.mp hp]
  rfl

theorem down (h : Grounded d here) (hd : d.look? (here ++ [n]) = some .directory) :
    Grounded d (here ++ [n]) := by
  intro place hp
  rcases List.prefix_concat_iff.mp hp with rfl | hp
  · exact hd
  · exact h place hp

theorem up (h : Grounded d here) : Grounded d here.dropLast :=
  fun place hp => h place (hp.trans (List.dropLast_prefix here))

theorem mono (h : Grounded d here)
    (hd : ∀ place, d.look? place = some .directory → d'.look? place = some .directory) :
    Grounded d' here := fun place hp => hd place (h place hp)

end Grounded

/-- Where a file is to be written there is a file or nothing, if it is no directory. -/
theorem isLoose_of_walk (hg : Grounded d here) (h : walk d .writable links here slash ns = .ok spot)
    (hne : spot.entry ≠ some .directory) : IsLoose spot.entry := by
  fun_induction walk d .writable links here slash ns with
  | case1 links here slash =>
    cases h
    exact absurd (hg here List.prefix_rfl) hne
  | case2 links here slash rest ih => exact ih hg h
  | case3 links here slash rest hdot ih => exact ih hg.up h
  | case6 =>
    cases h
    trivial
  | case8 links here slash n rest hdot hup hslash hlong place hf ih => exact ih (hg.down hf) h
  | case9 =>
    cases h
    trivial
  | case11 links here slash n rest hdot hup hslash hlong place target hf hr =>
    exact absurd hr.2 (by decide)
  | case13 here slash n rest hdot hup hslash hlong place target hf hr links ih =>
    refine ih ?_ h
    split
    · exact .root d
    · exact hg
  | _ => cases h

/-- A file that was put where one was to be written is found there. -/
theorem walk_put {file : Entry} (hfile : d'.look? spot.place = some file)
    (hother : ∀ there, there ≠ spot.place → d'.look? there = d.look? there)
    (hput : ∃ id content, file = .file id content) (hl : IsLoose spot.entry)
    (h : walk d .writable links here slash ns = .ok spot) :
    walk d' .target links here slash ns = .ok ⟨spot.place, some file⟩ := by
  obtain ⟨id, content, rfl⟩ := hput
  have hkept (there : Place) (hn : ¬IsLoose (d.look? there)) : d'.look? there = d.look? there :=
    hother there fun he => hn (he ▸ entry_of_walk h ▸ hl)
  fun_induction walk d .writable links here slash ns with
  | case1 links here slash =>
    cases h
    rw [walk, hfile]
  | case2 links here slash rest ih =>
    rw [walk, if_pos rfl]
    exact ih h
  | case3 links here slash rest hdot ih =>
    rw [walk, if_neg hdot, if_pos rfl]
    exact ih h
  | case6 links here slash n hdot hup hlong place hf hslash =>
    cases h
    have hfile : d'.look? (here ++ [n]) = some (.file id content) := hfile
    rw [walk, if_neg hdot, if_neg hup, if_neg (by simp), if_neg hlong]
    simp only [hfile]
    rw [if_pos (by simpa using hslash)]
  | case8 links here slash n rest hdot hup hslash hlong place hf ih =>
    have hd : d'.look? (here ++ [n]) = some .directory := by
      rw [hkept _ (by rw [hf]; exact not_false), hf]
    rw [walk, if_neg hdot, if_neg hup, if_neg (by simp), if_neg hlong]
    simp only [hd]
    exact ih h
  | case9 links here slash n rest hdot hup hslash hlong place id' content' hf hr =>
    cases h
    have hfile : d'.look? (here ++ [n]) = some (.file id content) := hfile
    rw [walk, if_neg hdot, if_neg hup, if_neg (by simp), if_neg hlong]
    simp only [hfile]
    rw [if_pos (by simpa using hr)]
  | case11 links here slash n rest hdot hup hslash hlong place target hf hr =>
    exact absurd hr.2 (by decide)
  | case13 here slash n rest hdot hup hslash hlong place target hf hr links ih =>
    have hd : d'.look? (here ++ [n]) = some (.link target) := by
      rw [hkept _ (by rw [hf]; exact not_false), hf]
    rw [walk, if_neg hdot, if_neg hup, if_neg (by simp), if_neg hlong]
    simp only [hd]
    rw [if_neg (by simp)]
    exact ih h
  | _ => cases h

/-- A path starts at a directory. -/
theorem Grounded.start (h : Grounded d d.cwd) (p : Path) : Grounded d (d.start p) := by
  unfold Disk.start
  split
  · exact .root d
  · exact h

/-- What is written is read. -/
theorem read_write (hg : Grounded d d.cwd) (hw : d.write p content = .ok d') :
    d'.read p = .ok content := by
  obtain ⟨place, e, hf, hne, rfl⟩ := write_ok hw
  have he : e = d.look? place := entry_of_find hf
  obtain ⟨id, hid⟩ := look?_setContent d (ne_root (he ▸ hne)) content
  have hother (there : Place) (ht : there ≠ place) := look?_setContent_of_ne d ht content
  have hwalk := walk_of_find hf
  have hread := walk_put hid hother ⟨id, content, rfl⟩ (isLoose_of_walk (hg.start p) hwalk hne) hwalk
  have hsame : (d.setContent place content).start p = d.start p := by
    rw [start, start, cwd_setContent]
  have hfind := find_of_walk hf (hsame ▸ hread)
  exact (read_of_find hfind hid.symm).mpr (contentAt?_of_look? hid)

theorem makeDirectory_keeps (h : d.makeDirectory p = .ok d') : Keeps d d' := by
  obtain ⟨place, hf, rfl⟩ := makeDirectory_ok h
  have hn : d.look? place = none := (entry_of_find hf).symm
  have hne : place ≠ [] := ne_root (by rw [hn]; simp)
  have hmade : Made [] place d (d.set ([] ++ place) .directory) := .set hne hn
  exact hmade.keeps

/-- Making directories leaves those that are there. -/
theorem makeFirst_keeps (ps : List Path) (d : Disk) : Keeps d (d.makeFirst ps).1 :=
  makeFirst_induction (fun hd hm => hd.trans (makeDirectory_keeps hm)) (.refl d) ps

/-- Renaming takes no directory away. -/
theorem rename_directory (h : d.rename p q = .ok d') (hd : d.look? place = some .directory) :
    d'.look? place = some .directory := by
  obtain ⟨source, e, target, e', hs, ht, hne, hne', rfl⟩ := rename_ok h
  have hsource : d.look? source = some e := (entry_of_find hs).symm
  have htarget : d.look? target = e' := (entry_of_find ht).symm
  by_cases hst : source = target
  · rw [move, if_pos hst, hd]
  have hs0 : source ≠ [] := ne_root (by rw [hsource]; simpa using hne)
  have ht0 : target ≠ [] := ne_root (htarget ▸ hne')
  rw [look?_move d hs0 ht0 hst, if_neg, if_neg, hd]
  · rintro rfl
    rw [hsource] at hd
    exact hne (Option.some.inj hd)
  · rintro rfl
    exact hne' (htarget.symm.trans hd)

theorem rename_cwd (h : d.rename p q = .ok d') : d'.cwd = d.cwd := by
  obtain ⟨source, e, target, e', -, -, -, -, rfl⟩ := rename_ok h
  exact cwd_move d source target e

end Disk

namespace Store

open Disk (Grounded)

variable {p : Path} {content : Bytes} {h h' : Host} {changed : Bool}

/-- A file that was written holds its content, whether it changed or not. -/
theorem read_writeBytes (hg : Grounded h.disk h.disk.cwd)
    (hr : (writeBytes p content).run h = (.ok changed, h')) : h'.disk.read p = .ok content := by
  obtain ⟨d₁, d₂, hmade, hw, rfl⟩ := run_writeBytes_ok hr
  have hg₁ : Grounded d₁ d₁.cwd := by
    rcases hmade with ⟨rfl, -⟩ | ⟨-, hm⟩
    · exact hg
    · have hk := Disk.makeFirst_keeps (directoryOf p).ancestors h.disk
      rw [← Disk.makeDirectories, hm] at hk
      rw [hk.cwd]
      exact hg.mono hk.directories
  cases hw with
  | same held => exact held
  | replaced old d₃ _ held other moved put =>
    refine Disk.read_write ?_ put
    rw [Disk.rename_cwd moved]
    exact hg₁.mono fun place => Disk.rename_directory moved
  | fresh _ absent put => exact Disk.read_write hg₁ put

end Store
end UnitCache
