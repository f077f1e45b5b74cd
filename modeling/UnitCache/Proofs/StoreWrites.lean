import UnitCache.Proofs.DiskChanges
import UnitCache.Proofs.Effects
import UnitCache.Proofs.UnitFiles

namespace UnitCache

open Disk (Rooted Keeps Made IsLoose IsProper Legible)

namespace Store

variable {p : Path} {content : Bytes} {h h' : Host} {changed : Bool}

def writeReady (p : Path) (content : Bytes) : Action Bool := do
  if ← Action.ask (·.exists? p) then
    let old ← Action.reading p (·.read p)
    if old = content then return false
    let b := UnitName.backup p
    Action.changing b (·.rename p b)
    putContent p content (some b)
  else putContent p content none

/-- Moves a backup to where it came from. That is how a write that fails ends. -/
def takeBack (p : Path) (backup : Option Path) : Action Unit := do
  match backup with
  | none => pure ()
  | some b =>
    match (← get).disk.rename b p with
    | .ok d => Action.setDisk d
    | .error f =>
      Action.report
        ⟨.error, "Unable to restore " ++ p.text ++ " from " ++ b.text ++ ": " ++ f.message, []⟩

theorem run_putContent_ok {backup : Option Path}
    (hr : (putContent p content backup).run h = (.ok changed, h')) :
    changed = true ∧ ∃ d, h.disk.write p content = .ok d ∧ h' = { h with disk := d } := by
  rw [putContent, run_bind_ok (rfl : (get : Action Host).run h = (.ok h, h))] at hr
  cases hw : h.disk.write p content with
  | ok d =>
    rw [hw] at hr
    cases hr
    exact ⟨rfl, d, rfl, rfl⟩
  | error f =>
    simp only [hw] at hr
    rcases hu : (undoWrite p f backup).run h with ⟨e | _, h₁⟩
    · rw [run_bind_error hu] at hr
      cases hr
    · rw [run_bind_ok hu] at hr
      cases hr

inductive Writing (p : Path) (content : Bytes) (d : Disk) : Bool → Disk → Prop
  | same (held : d.read p = .ok content) : Writing p content d false d
  | replaced (old : Bytes) (d₁ d₂ : Disk) (held : d.read p = .ok old) (other : old ≠ content)
      (moved : d.rename p (UnitName.backup p) = .ok d₁) (put : d₁.write p content = .ok d₂) :
      Writing p content d true d₂
  | fresh (d₁ : Disk) (absent : d.exists? p = false) (put : d.write p content = .ok d₁) :
      Writing p content d true d₁

theorem run_writeReady_ok (hr : (writeReady p content).run h = (.ok changed, h')) :
    ∃ d, Writing p content h.disk changed d ∧ h' = { h with disk := d } := by
  have hx : (Action.ask (·.exists? p)).run h = (.ok (h.disk.exists? p), h) := rfl
  rw [writeReady, run_bind_ok hx] at hr
  cases he : h.disk.exists? p with
  | false =>
    rw [he] at hr
    obtain ⟨rfl, d, hd, rfl⟩ := run_putContent_ok hr
    exact ⟨d, .fresh d he hd, rfl⟩
  | true =>
    simp only [he, if_true] at hr
    have hread := Action.run_reading p (·.read p) h
    cases ho : h.disk.read p with
    | error f =>
      rw [ho] at hread
      rw [run_bind_error hread] at hr
      cases hr
    | ok old =>
      rw [ho] at hread
      rw [run_bind_ok hread] at hr
      split at hr
      · rename_i heq
        cases hr
        exact ⟨h.disk, .same (heq ▸ ho), rfl⟩
      · rename_i hne
        rcases hm : (Action.changing (UnitName.backup p)
            (·.rename p (UnitName.backup p))).run h with ⟨e | _, h₁⟩
        · rw [run_bind_error hm] at hr
          cases hr
        · rw [run_bind_ok hm] at hr
          obtain ⟨d₁, hd₁, rfl⟩ := Action.run_changing_ok hm
          obtain ⟨rfl, d₂, hd₂, rfl⟩ := run_putContent_ok hr
          exact ⟨d₂, .replaced old d₁ d₂ ho hne hd₁ hd₂, rfl⟩

/-- Before a write the directory of the file is made, unless it is there. -/
theorem run_writeBytes_ok (hr : (writeBytes p content).run h = (.ok changed, h')) :
    ∃ d₁ d₂, (d₁ = h.disk ∧ h.disk.isDirectory (directoryOf p) = true ∨
        h.disk.isDirectory (directoryOf p) = false ∧
          h.disk.makeDirectories (directoryOf p) = (d₁, .ok ())) ∧
      Writing p content d₁ changed d₂ ∧ h' = { h with disk := d₂ } := by
  have hx : (Action.ask (·.isDirectory (directoryOf p))).run h =
      (.ok (h.disk.isDirectory (directoryOf p)), h) := rfl
  rw [writeBytes, run_bind_ok hx] at hr
  cases hd : h.disk.isDirectory (directoryOf p) with
  | true =>
    rw [hd] at hr
    obtain ⟨d₂, hw, rfl⟩ := run_writeReady_ok hr
    exact ⟨h.disk, d₂, .inl ⟨rfl, rfl⟩, hw, rfl⟩
  | false =>
    simp only [hd, Bool.not_false, if_true] at hr
    rcases hm : h.disk.makeDirectories (directoryOf p) with ⟨d₁, e | _⟩
    · rw [run_bind_error (Action.run_makeDirectories hm _)] at hr
      cases hr
    · rw [run_bind_ok (Action.run_makeDirectories hm _)] at hr
      obtain ⟨d₂, hw, rfl⟩ := run_writeReady_ok hr
      exact ⟨d₁, d₂, .inr ⟨rfl, rfl⟩, hw, rfl⟩

/-- Writing what a file in a directory holds does nothing. -/
theorem run_writeBytes_same (hd : h.disk.isDirectory (directoryOf p) = true)
    (hp : h.disk.read p = .ok content) : (writeBytes p content).run h = (.ok false, h) := by
  have hx : (Action.ask (·.isDirectory (directoryOf p))).run h =
      (.ok (h.disk.isDirectory (directoryOf p)), h) := rfl
  have hx' : (Action.ask (·.exists? p)).run h = (.ok (h.disk.exists? p), h) := rfl
  have he : h.disk.exists? p = true := by
    rw [Disk.exists?]
    rw [Disk.read, Disk.openAt] at hp
    cases hs : h.disk.stat p with
    | ok x => rfl
    | error f =>
      rw [hs] at hp
      cases hp
  have hread := Action.run_reading p (·.read p) h
  rw [hp] at hread
  rw [writeBytes, run_bind_ok hx, hd]
  simp only [Bool.not_true, Bool.false_eq_true, if_false]
  rw [run_bind_ok hx', he]
  simp only [if_true]
  rw [run_bind_ok hread, if_pos rfl]
  rfl

end Store

structure WriteCall where
  file : UnitFile
  bytes : Bytes
  /-- What it answered. -/
  changed : Bool
  /-- The file tree just before. -/
  before : Disk

namespace WriteCall

variable {root : Path} {base : Place} {d d' : Disk} {f : UnitFile} {bytes : Bytes} {changed : Bool}

def replaced (base : Place) (c : WriteCall) : Option Bytes :=
  if c.changed then c.before.contentAt? (c.file.place base) else none

/-- What stands at the backup of a file after a write, where what stood there before it is given. -/
def LeavesBackup (replaced : Option Bytes) (before after : Option Entry) : Prop :=
  match replaced with
  | some old => ∃ id, after = some (.file id old)
  | none => after = before

structure Wrote (root : Path) (base : Place) (c : WriteCall) (d' : Disk) : Prop where
  keeps : Keeps c.before d'
  changed_iff : c.changed = true ↔ c.before.contentAt? (c.file.place base) ≠ some c.bytes
  written : d'.contentAt? (c.file.place base) = some c.bytes
  backup : LeavesBackup (c.replaced base) (c.before.look? (c.file.backupPlace base))
    (d'.look? (c.file.backupPlace base))
  others : ∀ place, place ≠ c.file.place base → place ≠ c.file.backupPlace base →
    d'.look? place = c.before.look? place ∨
      c.before.look? place = none ∧ d'.look? place = some .directory ∧
        ∃ front, front ≠ [] ∧ front <+: c.file.dirs ∧ place = base ++ front
  found : d'.find .target (c.file.path root) =
    .ok ⟨c.file.place base, d'.look? (c.file.place base)⟩
  found_backup : (c.replaced base).isSome → d'.find .target (UnitName.backup (c.file.path root)) =
    .ok ⟨c.file.backupPlace base, d'.look? (c.file.backupPlace base)⟩

end WriteCall

namespace UnitFile

open Store WriteCall

variable {root : Path} {base : Place} {d d' : Disk} {f : UnitFile} {bytes : Bytes} {changed : Bool}
  {last : Disk.Last} {spot : Disk.Spot}

/-- A path to a unit file that can be followed leads to its place, and goes on doing so. -/
theorem find_path (h : Rooted d root base) (hf : d.find last (f.path root) = .ok spot)
    (hk : Keeps d d') (last' : Disk.Last) :
    d'.find last' (f.path root) = .ok ⟨f.place base, d'.look? (f.place base)⟩ := by
  rw [path_eq] at hf ⊢
  exact h.find_keeps f.place_names_proper hf hk last'

theorem find_backup (h : Rooted d root base)
    (hf : d.find last (UnitName.backup (f.path root)) = .ok spot) (hk : Keeps d d')
    (last' : Disk.Last) : d'.find last' (UnitName.backup (f.path root)) =
      .ok ⟨f.backupPlace base, d'.look? (f.backupPlace base)⟩ := by
  rw [backup_path] at hf ⊢
  exact (rooted_home h f).find_keeps f.backup_names_proper hf hk last'

/-- The directory of a file that a path leads to is there. -/
theorem isDirectory_path (h : Rooted d root base) (hf : d.find last (f.path root) = .ok spot) :
    d.isDirectory (directoryOf (f.path root)) = true := by
  have hhome := rooted_home h f
  have hlegible := Disk.legible_of_find (path_eq root f ▸
    Path.below_ne_nil h.ne_nil fun m hm => (f.place_names_proper m hm).toIsPiece) (.inl ⟨_, hf⟩)
  rw [directoryOf_path h.ne_nil, Disk.isDirectory]
  by_cases hd : f.dirs = []
  · rw [hd, show (f.home root).below [] = f.home root from rfl, hhome.stands]
  · have hfind := hhome.find_below (fun m hm => isProper_of_mem_dirs hm) hd
      (legible_dirs h.ne_nil hlegible) .target
    rw [path_eq] at hf hlegible
    rw [h.find_below f.place_names_proper (by simp) hlegible] at hf
    rw [Disk.descend_concat_ok h.directory hf] at hfind
    rw [Disk.stat_of_find hfind]

theorem wrote_same (h : Rooted d root base) (held : d.read (f.path root) = .ok bytes) :
    Wrote root base ⟨f, bytes, false, d⟩ d := by
  obtain ⟨spot, hf⟩ := Disk.find_of_read held
  have hfind := find_path h hf (.refl d) .target
  have hc := (Disk.read_of_find hfind rfl).mp held
  exact {
    keeps := .refl d
    changed_iff := by simp [hc]
    written := hc
    backup := rfl
    others := fun _ _ _ => .inl rfl
    found := hfind
    found_backup := fun hs => by simp [replaced] at hs }

theorem wrote_fresh (h : Rooted d root base) (absent : d.exists? (f.path root) = false)
    (put : d.write (f.path root) bytes = .ok d') : Wrote root base ⟨f, bytes, true, d⟩ d' := by
  obtain ⟨place, e, hf, hne, rfl⟩ := Disk.write_ok put
  have hfind := find_path h hf (.refl d) .target
  have hspot := find_path h hf (.refl d) .writable
  obtain ⟨rfl, rfl⟩ := Disk.Spot.mk.inj (Except.ok.inj (hf.symm.trans hspot))
  have hnone : d.look? (f.place base) = none := by
    cases hl : d.look? (f.place base) with
    | none => rfl
    | some e =>
      rw [hl] at hfind
      rw [Disk.exists?, Disk.stat_of_find hfind] at absent
      cases absent
  have hkeeps := Disk.keeps_setContent (d := d) (f.place_ne_nil base) (by rw [hnone]; trivial) bytes
  obtain ⟨id, hid⟩ := Disk.look?_setContent d (f.place_ne_nil base) bytes
  have hformer : d.contentAt? (f.place base) = none := by rw [Disk.contentAt?, hnone]
  exact {
    keeps := hkeeps
    changed_iff := by simp [hformer]
    written := Disk.contentAt?_of_look? hid
    backup := by
      rw [replaced, if_pos rfl, hformer]
      exact Disk.look?_setContent_of_ne d (f.place_ne_backupPlace base f).symm bytes
    others := fun place hp _ => .inl (Disk.look?_setContent_of_ne d hp bytes)
    found := find_path h hf hkeeps .target
    found_backup := fun hs => by simp [replaced, hformer] at hs }

/-- Moving a file to its backup. -/
theorem rename_backup {id : FileId} {old : Bytes} (h : Rooted d root base)
    (hid : d.look? (f.place base) = some (.file id old))
    (hf : d.find last (f.path root) = .ok spot)
    (moved : d.rename (f.path root) (UnitName.backup (f.path root)) = .ok d') :
    Keeps d d' ∧ (∃ spot, d.find .name (UnitName.backup (f.path root)) = .ok spot) ∧
      ∀ place, d'.look? place = if place = f.backupPlace base then some (.file id old)
        else if place = f.place base then none else d.look? place := by
  obtain ⟨source, e, target, e', hs, ht, -, hne, rfl⟩ := Disk.rename_ok moved
  obtain ⟨rfl, he⟩ := Disk.Spot.mk.inj
    (Except.ok.inj (hs.symm.trans (find_path h hf (.refl d) .name)))
  obtain ⟨rfl, rfl⟩ := Disk.Spot.mk.inj
    (Except.ok.inj (ht.symm.trans (find_backup h ht (.refl d) .name)))
  rw [hid] at he
  obtain rfl := Option.some.inj he
  have hloose : IsLoose (d.look? (f.backupPlace base)) := Disk.isLoose_of_ne hne (h.no_links _)
  have hapart := f.place_ne_backupPlace base f
  exact ⟨Disk.keeps_move (f.place_ne_nil base) (f.backupPlace_ne_nil base) hapart hid hloose,
    ⟨_, ht⟩, Disk.look?_move d (f.place_ne_nil base) (f.backupPlace_ne_nil base) hapart _⟩

theorem wrote_replaced {old : Bytes} {d₁ : Disk} (h : Rooted d root base)
    (held : d.read (f.path root) = .ok old) (other : old ≠ bytes)
    (moved : d.rename (f.path root) (UnitName.backup (f.path root)) = .ok d₁)
    (put : d₁.write (f.path root) bytes = .ok d') : Wrote root base ⟨f, bytes, true, d⟩ d' := by
  obtain ⟨spot, hf⟩ := Disk.find_of_read held
  have hformer := (Disk.read_of_find (find_path h hf (.refl d) .target) rfl).mp held
  obtain ⟨id, hid⟩ := Disk.look?_of_contentAt? hformer
  obtain ⟨hmove, ⟨aside, hback⟩, hafter⟩ := rename_backup h hid hf moved
  obtain ⟨place, e, hw, -, rfl⟩ := Disk.write_ok put
  obtain ⟨rfl, -⟩ := Disk.Spot.mk.inj
    (Except.ok.inj (hw.symm.trans (find_path (h.keep hmove) hw (.refl _) .writable)))
  have hapart := f.place_ne_backupPlace base f
  have hgone : d₁.look? (f.place base) = none := by rw [hafter, if_neg hapart, if_pos rfl]
  have hput := Disk.keeps_setContent (f.place_ne_nil base) (by rw [hgone]; trivial) bytes
  obtain ⟨id', hid'⟩ := Disk.look?_setContent d₁ (f.place_ne_nil base) bytes
  exact {
    keeps := hmove.trans hput
    changed_iff := by simp [hformer, other]
    written := Disk.contentAt?_of_look? hid'
    backup := by
      rw [replaced, if_pos rfl, hformer]
      exact ⟨id, by rw [Disk.look?_setContent_of_ne _ hapart.symm, hafter, if_pos rfl]⟩
    others := fun place hp hb => by
      rw [Disk.look?_setContent_of_ne _ hp, hafter, if_neg hb, if_neg hp]
      exact .inl rfl
    found := find_path h hf (hmove.trans hput) .target
    found_backup := fun _ => find_backup h hback (hmove.trans hput) .target }

/-- Directories on the way to a file have no part in what a write of it does. -/
theorem wrote_of_made {d₁ : Disk} (hm : Made base f.dirs d d₁)
    (hw : Wrote root base ⟨f, bytes, changed, d₁⟩ d') : Wrote root base ⟨f, bytes, changed, d⟩ d' := by
  have hsame {n : Name} (hn : '.' ∈ n) :
      d₁.look? (base ++ (f.dirs ++ [n])) = d.look? (base ++ (f.dirs ++ [n])) := by
    refine (hm.look _).resolve_right ?_
    rintro ⟨-, -, front, -, hfront, he⟩
    exact not_prefix_dirs hn f f (List.append_cancel_left he ▸ hfront)
  have hfile : d₁.look? (f.place base) = d.look? (f.place base) := hsame f.dot_mem_fileName
  have hcontent : d₁.contentAt? (f.place base) = d.contentAt? (f.place base) := by
    rw [Disk.contentAt?, hfile, Disk.contentAt?]
  have hback : d₁.look? (f.backupPlace base) = d.look? (f.backupPlace base) :=
    hsame f.dot_mem_backupName
  have hreplaced : replaced base ⟨f, bytes, changed, d₁⟩ = replaced base ⟨f, bytes, changed, d⟩ := by
    rw [replaced, replaced, hcontent]
  exact {
    keeps := hm.keeps.trans hw.keeps
    changed_iff := hcontent ▸ hw.changed_iff
    written := hw.written
    backup := hback ▸ hreplaced ▸ hw.backup
    others := fun place hp hb => Disk.added_trans (hm.look place) (hw.others place hp hb)
    found := hw.found
    found_backup := hreplaced ▸ hw.found_backup }

theorem wrote_of_run {h h' : Host} (hroot : Rooted h.disk root base)
    (hr : (writeBytes (f.path root) bytes).run h = (.ok changed, h')) :
    Wrote root base ⟨f, bytes, changed, h.disk⟩ h'.disk := by
  obtain ⟨d₁, d₂, hdir, hw, rfl⟩ := run_writeBytes_ok hr
  have hmade : Made base f.dirs h.disk d₁ := by
    rcases hdir with ⟨rfl, -⟩ | ⟨hno, hmk⟩
    · exact .refl base f.dirs h.disk
    · have hhome := rooted_home hroot f
      rw [directoryOf_path hroot.ne_nil] at hno hmk
      refine Disk.makeFirst_made hhome (fun m hm => isProper_of_mem_dirs hm) (fun hd => ?_) hmk
      rw [hd, Disk.isDirectory, show (f.home root).below [] = f.home root from rfl,
        hhome.stands] at hno
      cases hno
  have hroot₁ := hroot.keep hmade.keeps
  refine wrote_of_made hmade ?_
  cases hw with
  | same held => exact wrote_same hroot₁ held
  | replaced old d₁ _ held other moved put => exact wrote_replaced hroot₁ held other moved put
  | fresh _ absent put => exact wrote_fresh hroot₁ absent put

end UnitFile

end UnitCache
