import UnitCache.Proofs.DiskLadder
import UnitCache.Proofs.StoreStaging

namespace UnitCache

open Disk (Keeps Grows Sound Legible Down Ladder Dug Spot placeOf maxName maxPath width)

namespace Disk

variable {d d₀ : Disk} {p : Path} {e : Fault} {last : Last} {base : Place} {ms : List Name}

def refusal (p : Path) : Option Fault :=
  if p.chars.contains '\x00' then some .nulInPath
  else if maxPath ≤ width p.chars then some .nameTooLong
  else none

theorem refusal_eq_none : refusal p = none ↔ Legible p := by
  unfold refusal
  constructor
  · intro h
    split at h
    · cases h
    split at h
    · cases h
    · rename_i hn hw
      exact ⟨by simpa using hn, Nat.not_le.mp hw⟩
  · intro h
    rw [if_neg (by simpa using h.no_nul), if_neg (Nat.not_le.mpr h.short)]

theorem refusal_ne_notFound (p : Path) : refusal p ≠ some .notFound := by
  unfold refusal
  split
  · simp
  · split <;> simp

theorem find_refused (hp : p.chars ≠ []) (h : refusal p = some e) (d : Disk) (last : Last) :
    d.find last p = .error e := by
  unfold refusal at h
  rw [find]
  split at h
  · rw [if_pos ‹_›]
    cases h
    rfl
  · rw [if_neg ‹_›, if_neg (by simpa [Path.isEmpty] using hp)]
    split at h
    · rw [if_pos ‹_›]
      cases h
      rfl
    · cases h

/-- A path that leads down to a directory is free. -/
theorem fault_of_isDirectory (hs : d.Sound) (hk : Keeps d₀ d) (hp : Down d₀ p base ms)
    (hne : ms ≠ []) (h : d.isDirectory p = true) :
    d.look? (base ++ ms) = some .directory ∧ d.fault base ms = none := by
  have hfind := hp d hk hs.linkless .target
  unfold isDirectory at h
  split at h
  · rename_i place hstat
    rw [find_of_stat hstat] at hfind
    obtain ⟨n, rest, hm⟩ : ∃ rest n, ms = rest ++ [n] := (List.eq_nil_or_concat' ms).resolve_left hne
    obtain ⟨rfl, he⟩ := Spot.mk.inj (descend_ok hfind.symm)
    refine ⟨he.symm, ?_⟩
    have hthrough := @descend_through d base ms [] hs.parents he.symm
    rw [List.append_nil, ← hfind] at hthrough
    rw [fault_eq_block (.of_look? (.inr he.symm))]
    cases hb : d.block base ms with
    | none => rfl
    | some e =>
      rw [hb] at hthrough
      cases hthrough
  · cases h

end Disk

structure Slot where
  path : Path
  /-- The directory where the way starts. -/
  base : Place
  dirs : List Name
  name : Name

namespace Slot

variable {s : Slot} {d d' d₀ : Disk} {content : Bytes} {h : Host} {e : Fault}

def place (s : Slot) : Place := s.base ++ (s.dirs ++ [s.name])

def backupPlace (s : Slot) : Place := s.base ++ (s.dirs ++ [s.name ++ UnitName.backupSuffix])

/-- The paths of a file, of its directory and of its backup lead where they say, on each tree that
keeps the directories of one. -/
structure Reached (d₀ : Disk) (s : Slot) : Prop where
  written : s.path.chars ≠ []
  backup_written : (UnitName.backup s.path).chars ≠ []
  base : d₀.look? s.base = some .directory
  home : Legible (Store.directoryOf s.path) → s.dirs = [] →
    ∀ d, Keeps d₀ d → d.Linkless → d.isDirectory (Store.directoryOf s.path) = true
  ladder : Legible (Store.directoryOf s.path) →
    Ladder d₀ s.base (Store.directoryOf s.path).ancestors s.dirs
  file : Legible s.path → Down d₀ s.path s.base (s.dirs ++ [s.name])
  backup : Legible (UnitName.backup s.path) →
    Down d₀ (UnitName.backup s.path) s.base (s.dirs ++ [s.name ++ UnitName.backupSuffix])

def way (s : Slot) : List Name :=
  if (Disk.refusal (Store.directoryOf s.path)).isNone then s.dirs else []

def fault? (s : Slot) (d : Disk) : Option Fault :=
  (Disk.refusal (Store.directoryOf s.path)).or (d.fault s.base s.dirs)

def bar? (p : Path) (n : Name) : Option Fault :=
  (Disk.refusal p).or (if maxName < width n then some .nameTooLong else none)

def unmade (s : Slot) (e : Fault) : Error :=
  .configuration
    ("unable to create directory " ++ (Store.directoryOf s.path).text ++ ": " ++ e.message)

/-- What a write answers in the directory of its file, and what is seen then of the file and of its
backup, after what was seen of both. -/
def attempt (s : Slot) (content : Bytes) (file backup : Option Sight) :
    Except Error Bool × Option Sight × Option Sight :=
  let aside := UnitName.backup s.path
  match bar? s.path s.name, file with
  | some e, _ => (.error (.io s.path e), file, backup)
  | none, none => (.ok true, some (.file content), backup)
  | none, some (.file old) =>
    if old = content then (.ok false, file, backup)
    else
      match bar? aside (s.name ++ UnitName.backupSuffix) with
      | some e => (.error (.io aside e), file, backup)
      | none =>
        if backup = some .directory then (.error (.io aside .isDirectory), file, backup)
        else (.ok true, some (.file content), some (.file old))
  | none, some _ => (.error (.io s.path .isDirectory), file, backup)

def Owns (s : Slot) (place : Place) : Prop := place = s.place ∨ place = s.backupPlace

theorem place_ne_backupPlace (s : Slot) : s.place ≠ s.backupPlace := by
  intro h
  have hn := List.append_cancel_left (List.append_cancel_left h)
  simp [UnitName.backupSuffix] at hn

namespace Reached

/-- On a later tree it is the same. -/
theorem keep (h : Reached d₀ s) (hk : Keeps d₀ d) : d.look? s.base = some .directory :=
  hk.directories _ h.base

/-- The directories on the way to the file are made that are missing in front of an obstacle. -/
theorem prepare (h : Reached d₀ s) (hs : d.Sound) (hk : Keeps d₀ d) :
    (d.isDirectory (Store.directoryOf s.path) = true ∧ s.fault? d = none ∨
      d.isDirectory (Store.directoryOf s.path) = false ∧ d.makeDirectories (Store.directoryOf s.path) =
        (Store.prepared d s.path, Disk.verdict (s.fault? d))) ∧
      Dug s.base s.way d (Store.prepared d s.path) := by
  have hwritten := Store.directoryOf_ne_nil s.path
  unfold fault? way Store.prepared
  cases hr : Disk.refusal (Store.directoryOf s.path) with
  | some e =>
    obtain ⟨hdir, hmake, htry⟩ := Disk.tryDirectory_error (Disk.find_refused hwritten hr d)
    have hne : e ≠ .notFound := fun he => Disk.refusal_ne_notFound _ (he ▸ hr)
    have hall : d.makeDirectories (Store.directoryOf s.path) = (d, .error e) := by
      rw [Disk.makeDirectories, Path.ancestors,
        Disk.makeFirst_cons hwritten (by simpa [hmake] using hne), htry, Disk.verdict]
    rw [hdir, hall]
    exact ⟨.inr ⟨rfl, rfl⟩, .nil s.base d⟩
  | none =>
    have hlegible := Disk.refusal_eq_none.mp hr
    have hladder := h.ladder hlegible
    simp only [Option.none_or, Option.isNone_none, if_true]
    by_cases hnil : s.dirs = []
    · rw [h.home hlegible hnil d hk hs.linkless, hnil]
      exact ⟨.inl ⟨rfl, rfl⟩, .nil s.base d⟩
    cases hd : d.isDirectory (Store.directoryOf s.path) with
    | true =>
      have hdown : Down d₀ (Store.directoryOf s.path) s.base s.dirs := by
        rw [Path.ancestors] at hladder
        generalize hdirs : s.dirs = ns at hladder
        cases hladder with
        | foot => exact absurd hdirs hnil
        | rung _ leads _ => exact leads
      obtain ⟨hthere, hfault⟩ := Disk.fault_of_isDirectory hs hk hdown hnil hd
      exact ⟨.inl ⟨rfl, hfault⟩, .refl fun place hp => hp.ne_none hs.parents hthere⟩
    | false =>
      obtain ⟨d', hfirst, hdug⟩ := hladder.makeFirst hnil hs hk (h.keep hk)
      have hall : d.makeDirectories (Store.directoryOf s.path) =
          (d', Disk.verdict (d.fault s.base s.dirs)) := hfirst
      rw [hall]
      exact ⟨.inr ⟨rfl, rfl⟩, hdug⟩

/-- Where the directory of the file can be made, it is there before the file is written. -/
theorem ready (h : Reached d₀ s) (hs : d.Sound) (hk : Keeps d₀ d) (hf : s.fault? d = none) :
    (Store.prepared d s.path).look? (s.base ++ s.dirs) = some .directory ∧
      (Store.prepared d s.path).block s.base s.dirs = none := by
  obtain ⟨-, hdug⟩ := h.prepare hs hk
  obtain ⟨hr, hfault⟩ := Option.or_eq_none_iff.mp hf
  rw [way, hr] at hdug
  have hblock := Disk.block_of_fault hfault
  refine ⟨?_, by rw [Disk.block_congr fun front _ _ => hdug.passable _, hblock]⟩
  by_cases hnil : s.dirs = []
  · rw [hnil, List.append_nil]
    rcases hdug.look? s.base with he | ⟨-, -, hd⟩
    · rw [he, h.keep hk]
    · exact hd
  · rcases hdug.look? (s.base ++ s.dirs) with he | ⟨-, -, hd⟩
    · rcases Disk.passable_of_block hnil hblock with hno | hthere
      · exact hdug.made _ ⟨s.dirs, hnil, List.prefix_rfl, rfl, hblock⟩ (Disk.sight_eq_none.mp hno)
      · rw [he, Disk.sight_eq_directory.mp hthere]
    · exact hd

end Reached

/-- What a path to a name in a directory finds. -/
theorem find_in_directory {p : Path} {base : Place} {dirs : List Name} {n : Name} (hs : d.Sound)
    (hk : Keeps d₀ d) (hwritten : p.chars ≠ []) (hp : Legible p → Down d₀ p base (dirs ++ [n]))
    (hd : d.look? (base ++ dirs) = some .directory) (hb : d.block base dirs = none)
    (last : Disk.Last) : d.find last p =
      match bar? p n with
      | some e => .error e
      | none => .ok ⟨base ++ (dirs ++ [n]), d.look? (base ++ (dirs ++ [n]))⟩ := by
  unfold bar?
  cases hr : Disk.refusal p with
  | some e => exact Disk.find_refused hwritten hr d last
  | none =>
    rw [hp (Disk.refusal_eq_none.mp hr) d hk hs.linkless last, Disk.descend_through hs.parents hd, hb,
      Option.none_or]
    simp only [Disk.descend_single, List.append_assoc]
    split <;> rfl

structure Lands (s : Slot) (d d' : Disk) (file backup : Option Sight) : Prop where
  grows : Grows s.Owns d d'
  file : d'.sight s.place = file
  backup : d'.sight s.backupPlace = backup
  others : ∀ place, ¬s.Owns place → d'.look? place = d.look? place

theorem Lands.refl (hs : d.Sound) : s.Lands d d (d.sight s.place) (d.sight s.backupPlace) :=
  ⟨.refl hs, rfl, rfl, fun _ _ => rfl⟩

end Slot

namespace Store

variable {p : Path} {content : Bytes} {h : Host} {d d₀ : Disk} {e : Fault} {s : Slot}

/-- Where nothing can be written because nothing can be found, there is nothing to be taken away. -/
theorem run_putContent_refused (hw : h.disk.write p content = .error e)
    (hr : h.disk.remove p = .error e) :
    ∃ log, (putContent p content none).run h = (.error (.io p e), ⟨h.disk, log⟩) := by
  have hg : (get : Action Host).run h = (.ok h, h) := rfl
  obtain ⟨log, hundo⟩ : ∃ log, (undoWrite p e none).run h = (.ok (), ⟨h.disk, log⟩) := by
    let r : LogRecord := ⟨.error, "Unable to write " ++ p.text ++ ": " ++ e.message, []⟩
    have hreport : (Action.report r).run h = (.ok (), ⟨h.disk, h.log ++ [r]⟩) := rfl
    have hg' : (get : Action Host).run ⟨h.disk, h.log ++ [r]⟩ = (.ok ⟨h.disk, h.log ++ [r]⟩, _) := rfl
    rw [undoWrite, run_bind_ok hreport, run_bind_ok hg']
    simp only [hr]
    cases e <;> exact ⟨_, rfl⟩
  refine ⟨log, ?_⟩
  rw [putContent, run_bind_ok hg]
  simp only [hw]
  rw [run_bind_ok hundo]
  rfl

/-- A file is written where nothing is. -/
theorem lands_write (hs : d.Sound) (hf : ∀ last, d.find last s.path = .ok ⟨s.place, none⟩)
    (content : Bytes) : d.write s.path content = .ok (d.setContent s.place content) ∧
      s.Lands d (d.setContent s.place content) (some (.file content)) (d.sight s.backupPlace) := by
  have hplace := (Spot.mk.inj (Disk.find_linkless hs.linkless (hf .writable))).1
  have hnone : d.look? s.place = none := (Disk.entry_of_find (hf .writable)).symm
  have hwrite : d.write s.path content = .ok (d.setContent s.place content) := by
    rw [Disk.write, hf]
  have hnil : s.place ≠ [] := by simp [Slot.place]
  obtain ⟨id, hid⟩ := Disk.look?_setContent d hnil content
  have hgrows := Disk.write_grows hs hwrite (hplace ▸ hnone)
  rw [← hplace] at hgrows
  exact ⟨hwrite, hgrows.mono fun _ he => .inl he, by rw [Disk.sight, hid]; rfl,
    Disk.sight_of_look? (Disk.look?_setContent_of_ne d s.place_ne_backupPlace.symm content),
    fun place ho => Disk.look?_setContent_of_ne d (fun he => ho (.inl he)) content⟩

/-- A file is moved to its backup. -/
theorem lands_rename {id : FileId} {old : Bytes} {e : Option Entry} (hs : d.Sound)
    (hf : ∀ last, d.find last s.path = .ok ⟨s.place, some (.file id old)⟩)
    (hf' : ∀ last, d.find last (UnitName.backup s.path) = .ok ⟨s.backupPlace, e⟩)
    (hne : e ≠ some .directory) :
    ∃ d', d.rename s.path (UnitName.backup s.path) = .ok d' ∧ Keeps d d' ∧
      s.Lands d d' none (some (.file old)) := by
  have hplace := (Spot.mk.inj (Disk.find_linkless hs.linkless (hf .name))).1
  have hplace' := (Spot.mk.inj (Disk.find_linkless hs.linkless (hf' .name))).1
  have hapart := s.place_ne_backupPlace
  have hnil : s.place ≠ [] := by simp [Slot.place]
  have hnil' : s.backupPlace ≠ [] := by simp [Slot.backupPlace]
  have hrename : d.rename s.path (UnitName.backup s.path) =
      .ok (d.move s.place s.backupPlace (.file id old)) := by
    rw [Disk.rename, hf, hf', Disk.move, if_neg hapart]
    rcases e with _ | ⟨_, _⟩ | _ | _
    · simp [hapart]
    · simp [hapart]
    · exact absurd rfl hne
    · simp [hapart]
  obtain ⟨hgrows, -⟩ := Disk.rename_grows hs hrename (hplace ▸ hplace' ▸ hapart)
  rw [← hplace, ← hplace'] at hgrows
  have hlook := Disk.look?_move d hnil hnil' hapart (.file id old)
  refine ⟨_, hrename, hgrows.keeps hs, hgrows, ?_, ?_, fun place ho => ?_⟩
  · rw [Disk.sight, hlook, if_neg hapart, if_pos rfl]
    rfl
  · rw [Disk.sight, hlook, if_pos rfl]
    rfl
  · rw [hlook, if_neg fun he => ho (.inr he), if_neg fun he => ho (.inl he)]

theorem run_writeReady_absent (hx : h.disk.exists? p = false) (content : Bytes) :
    (writeReady p content).run h = (putContent p content none).run h := by
  have hask : (Action.ask (·.exists? p)).run h = (.ok (h.disk.exists? p), h) := rfl
  rw [writeReady, run_bind_ok hask, hx]
  rfl

theorem run_writeReady_unread (hx : h.disk.exists? p = true) (hr : h.disk.read p = .error e)
    (content : Bytes) : (writeReady p content).run h = (.error (.io p e), h) := by
  have hask : (Action.ask (·.exists? p)).run h = (.ok (h.disk.exists? p), h) := rfl
  have hread := Action.run_reading p (·.read p) h
  rw [hr] at hread
  rw [writeReady, run_bind_ok hask, hx]
  exact run_bind_error hread _

/-- Other content than what is written is moved away first. -/
theorem run_writeReady_held {old : Bytes} (hx : h.disk.exists? p = true)
    (hr : h.disk.read p = .ok old) (content : Bytes) : (writeReady p content).run h =
      if old = content then (.ok false, h)
      else
        match h.disk.rename p (UnitName.backup p) with
        | .ok d => (putContent p content (some (UnitName.backup p))).run { h with disk := d }
        | .error e => (.error (.io (UnitName.backup p) e), h) := by
  have hask : (Action.ask (·.exists? p)).run h = (.ok (h.disk.exists? p), h) := rfl
  have hread := Action.run_reading p (·.read p) h
  rw [hr] at hread
  rw [writeReady, run_bind_ok hask, hx, if_pos rfl, run_bind_ok hread]
  split
  · rfl
  · have hg : (get : Action Host).run h = (.ok h, h) := rfl
    have hchange : (Action.changing (UnitName.backup p) (·.rename p (UnitName.backup p))).run h =
        match h.disk.rename p (UnitName.backup p) with
        | .ok d => (.ok (), { h with disk := d })
        | .error e => (.error (.io (UnitName.backup p) e), h) := by
      rw [Action.changing, run_bind_ok hg]
      cases h.disk.rename p (UnitName.backup p) <;> rfl
    cases hm : h.disk.rename p (UnitName.backup p) with
    | ok d =>
      rw [hm] at hchange
      exact run_bind_ok hchange _
    | error e =>
      rw [hm] at hchange
      exact run_bind_error hchange _

theorem run_putContent_written {d : Disk} {backup : Option Path} (hw : h.disk.write p content = .ok d) :
    (putContent p content backup).run h = (.ok true, { h with disk := d }) := by
  have hg : (get : Action Host).run h = (.ok h, h) := rfl
  rw [putContent, run_bind_ok hg]
  simp only [hw]
  rfl

def Gives (s : Slot) (content : Bytes) (h : Host)
    (after : Except Error Bool × Option Sight × Option Sight) : Prop :=
  ∃ d' log, (writeReady s.path content).run h = (after.1, ⟨d', log⟩) ∧
    s.Lands h.disk d' after.2.1 after.2.2

theorem run_writeReady_file {id : FileId} {old : Bytes}
    (hf : ∀ last, h.disk.find last s.path = .ok ⟨s.place, some (.file id old)⟩) (content : Bytes) :
    (writeReady s.path content).run h =
      if old = content then (.ok false, h)
      else
        match h.disk.rename s.path (UnitName.backup s.path) with
        | .ok d => (putContent s.path content (some (UnitName.backup s.path))).run { h with disk := d }
        | .error e => (.error (.io (UnitName.backup s.path) e), h) := by
  have hstat := Disk.stat_of_find (hf .target)
  refine run_writeReady_held ?_ (Disk.read_of_stat hstat) content
  rw [Disk.exists?, hstat]
  rfl

section

variable (hs : h.disk.Sound)

include hs

theorem gives_refused (hf : ∀ last, h.disk.find last s.path = .error e) : Gives s content h
    (.error (.io s.path e), h.disk.sight s.place, h.disk.sight s.backupPlace) := by
  have hwrite : h.disk.write s.path content = .error e := by rw [Disk.write, hf]
  have hremove : h.disk.remove s.path = .error e := by rw [Disk.remove, hf]
  have habsent : h.disk.exists? s.path = false := by
    rw [Disk.exists?, Disk.stat, hf]
    rfl
  obtain ⟨log, hput⟩ := run_putContent_refused hwrite hremove
  exact ⟨h.disk, log, run_writeReady_absent habsent _ ▸ hput, .refl hs⟩

theorem gives_fresh (hf : ∀ last, h.disk.find last s.path = .ok ⟨s.place, none⟩) :
    Gives s content h (.ok true, some (.file content), h.disk.sight s.backupPlace) := by
  have habsent : h.disk.exists? s.path = false := by
    rw [Disk.exists?, Disk.stat, hf]
    rfl
  obtain ⟨hwrite, hlands⟩ := lands_write hs hf content
  exact ⟨_, h.log, run_writeReady_absent habsent _ ▸ run_putContent_written hwrite, hlands⟩

theorem gives_directory (hf : h.disk.find .target s.path = .ok ⟨s.place, some .directory⟩) :
    Gives s content h
      (.error (.io s.path .isDirectory), h.disk.sight s.place, h.disk.sight s.backupPlace) := by
  have hstat := Disk.stat_of_find hf
  have hthere : h.disk.exists? s.path = true := by
    rw [Disk.exists?, hstat]
    rfl
  have hread : h.disk.read s.path = .error .isDirectory := by
    rw [Disk.read, Disk.openAt, hstat]
    rfl
  exact ⟨h.disk, h.log, run_writeReady_unread hthere hread _, .refl hs⟩

variable {id : FileId} {old : Bytes}
  (hf : ∀ last, h.disk.find last s.path = .ok ⟨s.place, some (.file id old)⟩)

include hf

theorem gives_same (hsame : old = content) :
    Gives s content h (.ok false, h.disk.sight s.place, h.disk.sight s.backupPlace) :=
  ⟨h.disk, h.log, by rw [run_writeReady_file hf, if_pos hsame], .refl hs⟩

theorem gives_bound (hne : old ≠ content)
    (hrename : h.disk.rename s.path (UnitName.backup s.path) = .error e) : Gives s content h
      (.error (.io (UnitName.backup s.path) e), h.disk.sight s.place, h.disk.sight s.backupPlace) :=
  ⟨h.disk, h.log, by rw [run_writeReady_file hf, if_neg hne, hrename], .refl hs⟩

/-- The former content is moved, and then nothing is in the way. -/
theorem gives_moved {b : Option Entry} (hne : old ≠ content)
    (hf' : ∀ last, h.disk.find last (UnitName.backup s.path) = .ok ⟨s.backupPlace, b⟩)
    (hb : b ≠ some .directory)
    (hlater : ∀ d, d.Sound → Keeps h.disk d → ∀ last,
      d.find last s.path = .ok ⟨s.place, d.look? s.place⟩) :
    Gives s content h (.ok true, some (.file content), some (.file old)) := by
  obtain ⟨d₁, hrename, hk₁, hlands⟩ := lands_rename hs hf hf' hb
  have hgone : d₁.look? s.place = none := Disk.sight_eq_none.mp hlands.file
  obtain ⟨hwrite, hlands'⟩ := lands_write hlands.grows.sound
    (fun last => hgone ▸ hlater d₁ hlands.grows.sound hk₁ last) content
  refine ⟨_, h.log, ?_, hlands.grows.trans hlands'.grows, hlands'.file, ?_,
    fun place ho => (hlands'.others place ho).trans (hlands.others place ho)⟩
  · rw [run_writeReady_file hf, if_neg hne, hrename]
    exact run_putContent_written hwrite
  · rw [hlands'.backup, hlands.backup]

end

/-- What a write does once the directory of the file is there. -/
theorem gives_attempt (hr : s.Reached d₀) (hs : h.disk.Sound) (hk : Keeps d₀ h.disk)
    (hd : h.disk.look? (s.base ++ s.dirs) = some .directory)
    (hb : h.disk.block s.base s.dirs = none) (content : Bytes) : Gives s content h
      (s.attempt content (h.disk.sight s.place) (h.disk.sight s.backupPlace)) := by
  have hfile (d : Disk) (hs' : d.Sound) (hk' : Keeps h.disk d) :=
    have hd' := hk'.directories _ hd
    Slot.find_in_directory hs' (hk.trans hk') hr.written hr.file hd'
      ((Disk.block_of_standing hs.parents hs'.parents hd hd').trans hb)
  have haside := Slot.find_in_directory hs hk hr.backup_written hr.backup hd hb
  unfold Slot.attempt
  cases hbar : Slot.bar? s.path s.name with
  | some e =>
    simp only [hbar] at hfile
    exact gives_refused hs (hfile _ hs (.refl _))
  | none =>
    simp only [hbar] at hfile
    have hnow (last : Disk.Last) : h.disk.find last s.path = .ok ⟨s.place, h.disk.look? s.place⟩ :=
      hfile _ hs (.refl _) last
    rcases hl : h.disk.look? s.place with _ | ⟨id, old⟩ | _ | target
    · rw [Disk.sight_eq_none.mpr hl]
      exact gives_fresh hs (hl ▸ hnow)
    · have hseen : h.disk.sight s.place = some (.file old) := by
        rw [Disk.sight, hl]
        rfl
      rw [hl] at hnow
      rw [hseen]
      by_cases hsame : old = content
      · simp only [if_pos hsame]
        exact hseen ▸ gives_same hs hnow hsame
      simp only [if_neg hsame]
      cases hbar' : Slot.bar? (UnitName.backup s.path) (s.name ++ UnitName.backupSuffix) with
      | some e =>
        simp only [hbar'] at haside
        exact hseen ▸ gives_bound hs hnow hsame (by rw [Disk.rename, hnow, haside])
      | none =>
        simp only [hbar'] at haside
        simp only [Disk.sight_eq_directory]
        split
        · rename_i hdir
          have haside : h.disk.find .name (UnitName.backup s.path) = .ok ⟨s.backupPlace, some .directory⟩ :=
            hdir ▸ haside .name
          exact hseen ▸ gives_bound hs hnow hsame (by rw [Disk.rename, hnow, haside])
        · rename_i hdir
          exact gives_moved hs hnow hsame haside hdir hfile
    · have hseen := Disk.sight_eq_directory.mpr hl
      rw [hseen]
      have hgives : Gives s content h
          (.error (.io s.path .isDirectory), h.disk.sight s.place, h.disk.sight s.backupPlace) :=
        gives_directory hs (hl ▸ hnow .target)
      rwa [hseen] at hgives
    · exact absurd hl (hs.linkless _ _)

/-- A write makes the directory of its file, or ends with what is in the way. -/
theorem run_writeBytes (hr : s.Reached d₀) (hs : h.disk.Sound) (hk : Keeps d₀ h.disk)
    (content : Bytes) : (writeBytes s.path content).run h =
      match s.fault? h.disk with
      | some e => (.error (s.unmade e), { h with disk := prepared h.disk s.path })
      | none => (writeReady s.path content).run { h with disk := prepared h.disk s.path } := by
  have hask : (Action.ask (·.isDirectory (directoryOf s.path))).run h =
      (.ok (h.disk.isDirectory (directoryOf s.path)), h) := rfl
  rw [writeBytes, run_bind_ok hask]
  rcases (hr.prepare hs hk).1 with ⟨hd, hf⟩ | ⟨hd, hm⟩
  · rw [hd, hf, prepared, if_pos hd]
    rfl
  · have hmake := Action.run_makeDirectories hm fun f =>
      .configuration ("unable to create directory " ++ (directoryOf s.path).text ++ ": " ++ f.message)
    rw [hd]
    simp only [Bool.not_false, if_true]
    cases hf : s.fault? h.disk with
    | some e =>
      rw [hf] at hmake
      exact run_bind_error hmake _
    | none =>
      rw [hf] at hmake
      exact run_bind_ok hmake _

end Store

namespace Slot

variable {s : Slot} {d d' d₀ : Disk} {content : Bytes} {h : Host}

/-- No directory on the way to a file is the file itself or its backup. -/
theorem not_passes (s : Slot) (d : Disk) {place : Place} (ho : s.Owns place) :
    ¬d.Passes s.base s.way place := by
  rintro ⟨front, -, hp, rfl, -⟩
  have hlong : front.length ≤ s.dirs.length := by
    unfold way at hp
    split at hp
    · exact hp.length_le
    · rw [List.prefix_nil.mp hp]
      exact Nat.zero_le _
  rcases ho with he | he
  · have hl := congrArg List.length (List.append_cancel_left he)
    simp only [List.length_append, List.length_singleton] at hl
    omega
  · have hl := congrArg List.length (List.append_cancel_left he)
    simp only [List.length_append, List.length_singleton] at hl
    omega

def result (s : Slot) (content : Bytes) (d : Disk) : Except Error Bool :=
  match s.fault? d with
  | some e => .error (s.unmade e)
  | none => (s.attempt content (d.sight s.place) (d.sight s.backupPlace)).1

def leaves (s : Slot) (content : Bytes) (d : Disk) : Option Sight × Option Sight :=
  match s.fault? d with
  | some _ => (d.sight s.place, d.sight s.backupPlace)
  | none => (s.attempt content (d.sight s.place) (d.sight s.backupPlace)).2

/-- What a write does to a tree: directories are made on the way to its file, and what is seen of the
file and of its backup is as told. -/
structure Written (s : Slot) (content : Bytes) (d d' : Disk) : Prop where
  grows : Grows s.Owns d d'
  file : d'.sight s.place = (s.leaves content d).1
  backup : d'.sight s.backupPlace = (s.leaves content d).2
  others : ∀ place, ¬s.Owns place → (d.Passes s.base s.way place ∧ d.look? place = none ∧
    d'.look? place = some .directory) ∨
      ((d.Passes s.base s.way place → d.look? place ≠ none) ∧ d'.look? place = d.look? place)

theorem others_of_dug (hdug : Dug s.base s.way d d') (place : Place) :
    (d.Passes s.base s.way place ∧ d.look? place = none ∧ d'.look? place = some .directory) ∨
      ((d.Passes s.base s.way place → d.look? place ≠ none) ∧ d'.look? place = d.look? place) := by
  by_cases hp : d.Passes s.base s.way place → d.look? place ≠ none
  · exact .inr ⟨hp, hdug.kept place hp⟩
  · obtain ⟨hp, hn⟩ := Classical.not_imp.mp hp
    exact .inl ⟨hp, not_not.mp hn, hdug.made place hp (not_not.mp hn)⟩

/-- What a write answers and does, whatever there is. -/
theorem Reached.run_writeBytes (hr : s.Reached d₀) (hs : h.disk.Sound) (hk : Keeps d₀ h.disk)
    (content : Bytes) : ∃ d' log, (Store.writeBytes s.path content).run h =
        (s.result content h.disk, ⟨d', log⟩) ∧ s.Written content h.disk d' := by
  have hdug := (hr.prepare hs hk).2
  have hg : Grows s.Owns h.disk (Store.prepared h.disk s.path) := by
    unfold Store.prepared
    split
    · exact .refl hs
    · exact Disk.makeFirst_grows hs _
  have hsame {place : Place} (ho : s.Owns place) :
      (Store.prepared h.disk s.path).sight place = h.disk.sight place :=
    Disk.sight_of_look? (hdug.kept place fun hp => absurd hp (s.not_passes h.disk ho))
  have hrun := Store.run_writeBytes hr hs hk content
  unfold result
  cases hf : s.fault? h.disk with
  | some e =>
    rw [hf] at hrun
    refine ⟨_, _, hrun, hg, ?_, ?_, fun place _ => others_of_dug hdug place⟩
    · rw [leaves, hf]
      exact hsame (.inl rfl)
    · rw [leaves, hf]
      exact hsame (.inr rfl)
  | none =>
    rw [hf] at hrun
    obtain ⟨hd, hb⟩ := hr.ready hs hk hf
    obtain ⟨d', log, hready, hlands⟩ := Store.gives_attempt
      (h := { h with disk := Store.prepared h.disk s.path }) hr hg.sound (hk.trans (hg.keeps hs)) hd hb
      content
    simp only [hsame (.inl rfl), hsame (.inr rfl)] at hready hlands
    refine ⟨d', log, hrun.trans hready, hg.trans hlands.grows, ?_, ?_, fun place ho => ?_⟩
    · rw [hlands.file, leaves, hf]
    · rw [hlands.backup, leaves, hf]
    · have hplace : d'.look? place = (Store.prepared h.disk s.path).look? place :=
        hlands.others place ho
      rw [hplace]
      exact others_of_dug hdug place

end Slot
end UnitCache
