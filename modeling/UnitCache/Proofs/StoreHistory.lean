import UnitCache.Proofs.StoreWrites

namespace UnitCache

open Disk (Rooted Keeps)

namespace WriteCall

open UnitFile

/-- Runs of writes to unit files that all went well. The latest write comes first. -/
inductive Writes (root : Path) (h : Host) : List WriteCall → Host → Prop
  | start : Writes root h [] h
  | write {cs : List WriteCall} {h₁ h₂ : Host} (before : Writes root h cs h₁) (f : UnitFile)
      (bytes : Bytes) (changed : Bool)
      (run : (Store.writeBytes (f.path root) bytes).run h₁ = (.ok changed, h₂)) :
      Writes root h (⟨f, bytes, changed, h₁.disk⟩ :: cs) h₂

variable {root : Path} {base : Place} {d d₁ d₂ : Disk} {c : WriteCall} {cs : List WriteCall}
  {f : UnitFile}

def latest (f : UnitFile) (cs : List WriteCall) : Option WriteCall := cs.find? (fun c => c.file = f)

/-- What the latest write that changed a file found there, if any found something. -/
def lastReplaced (base : Place) (f : UnitFile) (cs : List WriteCall) : Option Bytes :=
  cs.findSome? fun c => if c.file = f then c.replaced base else none

def IsParent (base : Place) (cs : List WriteCall) (place : Place) : Prop :=
  ∃ c ∈ cs, ∃ front, front ≠ [] ∧ front <+: c.file.dirs ∧ place = base ++ front

structure Settled (root : Path) (base : Place) (d : Disk) (cs : List WriteCall) (d' : Disk) :
    Prop where
  keeps : Keeps d d'
  answers : ∀ c ∈ cs, c.changed = true ↔ c.before.contentAt? (c.file.place base) ≠ some c.bytes
  written : ∀ f c, latest f cs = some c → d'.contentAt? (f.place base) = some c.bytes
  found : ∀ f c, latest f cs = some c →
    d'.find .target (f.path root) = .ok ⟨f.place base, d'.look? (f.place base)⟩
  backups : ∀ f, LeavesBackup (lastReplaced base f cs) (d.look? (f.backupPlace base))
    (d'.look? (f.backupPlace base))
  found_backup : ∀ f, (lastReplaced base f cs).isSome →
    d'.find .target (UnitName.backup (f.path root)) =
      .ok ⟨f.backupPlace base, d'.look? (f.backupPlace base)⟩
  others : ∀ place, (∀ c ∈ cs, place ≠ c.file.place base ∧ place ≠ c.file.backupPlace base) →
    d'.look? place = d.look? place ∨
      d.look? place = none ∧ d'.look? place = some .directory ∧ IsParent base cs place

/-- A write leaves alone what has a dot in its name, other than its file and its backup. -/
theorem Wrote.look_of_dot (hw : Wrote root base c d₂) (g : UnitFile) {n : Name} (hn : '.' ∈ n)
    (hfile : base ++ (g.dirs ++ [n]) ≠ c.file.place base)
    (hback : base ++ (g.dirs ++ [n]) ≠ c.file.backupPlace base) :
    d₂.look? (base ++ (g.dirs ++ [n])) = c.before.look? (base ++ (g.dirs ++ [n])) := by
  refine (hw.others _ hfile hback).resolve_right ?_
  rintro ⟨-, -, front, -, hfront, he⟩
  exact not_prefix_dirs hn g c.file (List.append_cancel_left he ▸ hfront)

theorem Wrote.look_place (hw : Wrote root base c d₂) (hne : c.file ≠ f) :
    d₂.look? (f.place base) = c.before.look? (f.place base) :=
  hw.look_of_dot f f.dot_mem_fileName (fun h => hne (place_inj h).symm)
    (place_ne_backupPlace base f c.file)

theorem Wrote.look_backupPlace (hw : Wrote root base c d₂) (hne : c.file ≠ f) :
    d₂.look? (f.backupPlace base) = c.before.look? (f.backupPlace base) :=
  hw.look_of_dot f f.dot_mem_backupName (place_ne_backupPlace base c.file f).symm
    (fun h => hne (backupPlace_inj h).symm)

theorem Settled.refl (root : Path) (base : Place) (d : Disk) : Settled root base d [] d where
  keeps := .refl d
  answers := by simp
  written := by simp [latest]
  found := by simp [latest]
  backups := fun _ => rfl
  found_backup := by simp [lastReplaced]
  others := fun _ _ => .inl rfl

theorem Settled.step (hs : Settled root base d cs c.before) (hroot : Rooted d root base)
    (hw : Wrote root base c d₂) : Settled root base d (c :: cs) d₂ where
  keeps := hs.keeps.trans hw.keeps
  answers := List.forall_mem_cons.mpr ⟨hw.changed_iff, hs.answers⟩
  written f c' hc := by
    by_cases hf : c.file = f
    · rw [latest, List.find?_cons_of_pos (by simpa using hf)] at hc
      obtain rfl := Option.some.inj hc
      exact hf ▸ hw.written
    · rw [latest, List.find?_cons_of_neg (by simpa using hf)] at hc
      rw [Disk.contentAt?, hw.look_place hf]
      exact hs.written f c' hc
  found f c' hc := by
    by_cases hf : c.file = f
    · exact hf ▸ hw.found
    · rw [latest, List.find?_cons_of_neg (by simpa using hf)] at hc
      exact find_path (hroot.keep hs.keeps) (hs.found f c' hc) hw.keeps .target
  backups f := by
    by_cases hf : c.file = f
    · subst hf
      have hback := hw.backup
      rw [lastReplaced, List.findSome?_cons, if_pos rfl]
      cases hr : c.replaced base with
      | some old =>
        rw [hr] at hback
        exact hback
      | none =>
        rw [hr] at hback
        rw [show d₂.look? _ = _ from hback]
        exact hs.backups c.file
    · rw [lastReplaced, List.findSome?_cons, if_neg hf, hw.look_backupPlace hf]
      exact hs.backups f
  found_backup f hr := by
    rw [lastReplaced, List.findSome?_cons] at hr
    have hearlier (hr : (lastReplaced base f cs).isSome) :=
      find_backup (hroot.keep hs.keeps) (hs.found_backup f hr) hw.keeps .target
    by_cases hf : c.file = f
    · subst hf
      rw [if_pos rfl] at hr
      cases ho : c.replaced base with
      | some old => exact hw.found_backup (by simp [ho])
      | none =>
        rw [ho] at hr
        exact hearlier hr
    · rw [if_neg hf] at hr
      exact hearlier hr
  others place hp := by
    obtain ⟨⟨hfile, hback⟩, hp⟩ := List.forall_mem_cons.mp hp
    have hmore : IsParent base cs place → IsParent base (c :: cs) place := by
      rintro ⟨c', hc, hparent⟩
      exact ⟨c', List.mem_cons_of_mem _ hc, hparent⟩
    have hlatest (hf : ∃ front, front ≠ [] ∧ front <+: c.file.dirs ∧ place = base ++ front) :
        IsParent base (c :: cs) place := ⟨c, List.mem_cons_self, hf⟩
    refine Disk.added_trans ((hs.others place hp).imp_right ?_)
      ((hw.others place hfile hback).imp_right ?_)
    · rintro ⟨hn, hd, hparent⟩
      exact ⟨hn, hd, hmore hparent⟩
    · rintro ⟨hn, hd, hparent⟩
      exact ⟨hn, hd, hlatest hparent⟩

theorem Writes.settled {h h' : Host} (hroot : Rooted h.disk root base) (hw : Writes root h cs h') :
    Settled root base h.disk cs h'.disk := by
  induction hw with
  | start => exact .refl root base h.disk
  | write before f bytes changed run ih =>
    exact ih.step hroot (wrote_of_run (hroot.keep ih.keeps) run)

end WriteCall
end UnitCache
