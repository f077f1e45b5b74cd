import UnitCache.Proofs.CacheLocal
import UnitCache.Proofs.UnitSlots

namespace UnitCache

open Disk (Grows Sound Keeps placeOf names)
open UnitCache.Task (Local)

variable {κ η : Type} {cwd place base : Place} {root root' : Path} {f g : UnitFile} {c : Cache}
  {a b name text : String} {as bs : List String} {d : Disk} {way : List Name}

namespace UnitFile

/-- The places of a file and of its backup are below that of the root. -/
theorem below_of_fileOrBackup (h : FileOrBackup cwd (f.path root) place) :
    ∃ ns, ns ≠ [] ∧ place = placeOf cwd root ++ ns := by
  rw [FileOrBackup, placeOf_path, placeOf_backup_path] at h
  rcases h with rfl | rfl
  · exact ⟨_, by simp, rfl⟩
  · exact ⟨_, by simp, rfl⟩

theorem last_of_fileOrBackup (h : FileOrBackup cwd (f.path root) place) : ∃ above t,
    place = above ++ [f.stem ++ '.' :: t] ∧ (t = f.ext ∨ t = f.ext ++ UnitName.backupSuffix) := by
  rw [FileOrBackup, placeOf_path, placeOf_backup_path] at h
  rcases h with rfl | rfl
  · exact ⟨_, _, by rw [UnitFile.place, ← List.append_assoc]; rfl, .inl rfl⟩
  · exact ⟨_, _, by rw [UnitFile.backupPlace, ← List.append_assoc, backupName_eq], .inr rfl⟩

/-- Below one root different files and their backups stand at different places. -/
theorem eq_of_fileOrBackup (h : FileOrBackup cwd (f.path root) place)
    (h' : FileOrBackup cwd (g.path root) place) : f = g := by
  rw [FileOrBackup, placeOf_path, placeOf_backup_path] at h h'
  rcases h with h | h <;> rcases h' with h' | h' <;> rw [h] at h'
  · exact place_inj h'
  · exact absurd h' (place_ne_backupPlace _ f g)
  · exact absurd h'.symm (place_ne_backupPlace _ g f)
  · exact backupPlace_inj h'

/-- Sources and artifacts stand at different places, whatever their roots are. -/
theorem ext_eq_of_fileOrBackup (h : FileOrBackup cwd (f.path root) place)
    (h' : FileOrBackup cwd (g.path root') place) : f.ext = g.ext := by
  obtain ⟨above, t, rfl, ht⟩ := last_of_fileOrBackup h
  obtain ⟨above', t', he, ht'⟩ := last_of_fileOrBackup h'
  have hn := List.singleton_inj.mp (List.append_inj' he rfl).2
  obtain ⟨-, rfl⟩ := append_dot_inj f.stem_no_dot g.stem_no_dot hn
  have hbackup (f g : UnitFile) : f.ext ≠ g.ext ++ UnitName.backupSuffix := by
    intro he
    exact f.ext_cases.2.2 (he ▸ List.mem_append_right _ (by decide))
  rcases ht with rfl | rfl <;> rcases ht' with ht' | ht'
  · exact ht'
  · exact absurd ht' (hbackup f g)
  · exact absurd ht'.symm (hbackup g f)
  · exact List.append_cancel_right ht'

end UnitFile

namespace Cache

inductive Writes (c : Cache) (name : String) (emitted : List String) : Path → UnitFile → Prop
  | text {root : Path} {f : UnitFile} (staged : c.sourceRoot = some root) (own : f.name = name)
      (source : f.ext = UnitName.sourceExtension) : Writes c name emitted root f
  | artifact {root : Path} {f : UnitFile} (kept : c.artifactRoot = some root)
      (own : f.name ∈ emitted) (compiled : f.ext = UnitName.binaryExtension) :
      Writes c name emitted root f

def ToSources (c : Cache) (cwd place : Place) : Prop :=
  ∃ root, c.sourceRoot = some root ∧ place <+: placeOf cwd root

def OnWay (c : Cache) (cwd place : Place) : Prop :=
  c.ToSources cwd place ∨ ∃ above n, place = above ++ [n] ∧ '.' ∉ n

/-- The places that a load may write to. Where a source root has to be is no file. -/
def Own (c : Cache) (cwd : Place) (name : String) (emitted : List String) (place : Place) : Prop :=
  (∃ root f, c.Writes name emitted root f ∧ FileOrBackup cwd (f.path root) place) ∧
    ¬c.ToSources cwd place

/-- Different units with different artifacts are written to different places. -/
theorem Writes.apart (h : c.Writes a as root f) (h' : c.Writes b bs root' g) (hne : a ≠ b)
    (hd : as.Disjoint bs) (hp : FileOrBackup cwd (f.path root) place) :
    ¬FileOrBackup cwd (g.path root') place := by
  intro hp'
  have hext := UnitFile.ext_eq_of_fileOrBackup hp hp'
  cases h with
  | text staged own source =>
    cases h' with
    | text staged' own' source' =>
      obtain rfl := Option.some.inj (staged.symm.trans staged')
      obtain rfl := UnitFile.eq_of_fileOrBackup hp hp'
      exact hne (own.symm.trans own')
    | artifact kept' own' compiled' =>
      rw [source, compiled'] at hext
      exact absurd hext (by decide)
  | artifact kept own compiled =>
    cases h' with
    | text staged' own' source' =>
      rw [compiled, source'] at hext
      exact absurd hext (by decide)
    | artifact kept' own' compiled' =>
      obtain rfl := Option.some.inj (kept.symm.trans kept')
      obtain rfl := UnitFile.eq_of_fileOrBackup hp hp'
      exact hd own own'

theorem Own.not_onWay (h : c.Own cwd name as place) : ¬c.OnWay cwd place := by
  obtain ⟨⟨root, f, -, hp⟩, hno⟩ := h
  rintro (hto | ⟨above, n, he, hn⟩)
  · exact hno hto
  · obtain ⟨above', t, rfl, -⟩ := UnitFile.last_of_fileOrBackup hp
    have hn' := List.singleton_inj.mp (List.append_inj' he rfl).2
    exact hn (hn' ▸ by simp)

theorem Own.apart (h : c.Own cwd a as place) (hne : a ≠ b) (hd : as.Disjoint bs) :
    ¬c.Own cwd b bs place := by
  rintro ⟨⟨root', g, hw', hp'⟩, -⟩
  obtain ⟨⟨root, f, hw, hp⟩, -⟩ := h
  exact hw.apart hw' hne hd hp hp'

/-- The directories that lead from a root to a unit have names without dots. -/
theorem onWay_dirs {front : List Name} (hp : front <+: f.dirs) (hne : front ≠ []) (base : Place) :
    c.OnWay cwd (base ++ front) := by
  obtain ⟨rest, n, rfl⟩ := (List.eq_nil_or_concat' front).resolve_left hne
  exact .inr ⟨base ++ rest, n, by rw [List.append_assoc],
    UnitFile.no_dot_of_mem (List.mem_append_left _ (hp.subset List.mem_concat_self))⟩

end Cache

/-- What a slot owns are the places of the file and of its backup. -/
theorem UnitFile.slot_owns (hr : placeOf cwd root = base ++ way) (f : UnitFile) :
    (f.slot root base way).Owns place ↔ FileOrBackup cwd (f.path root) place := by
  rw [FileOrBackup, placeOf_path, placeOf_backup_path, hr, UnitFile.place, UnitFile.backupPlace,
    Slot.Owns, Slot.place, Slot.backupPlace]
  simp only [slot, List.append_assoc]
  rfl

namespace Cache

variable {C : Disk → Prop}

/-- The text that is staged has the source root above it. -/
theorem granted_text (hroot : c.sourceRoot = some root) (hr : placeOf cwd root = base ++ way)
    (hname : f.name = name) (hext : f.ext = UnitName.sourceExtension) :
    (f.slot root base way).Granted (c.Own cwd name as) (c.OnWay cwd) C := by
  refine ⟨fun place ho => .inl ?_, fun front hne hp => ?_⟩
  · have hplace := (f.slot_owns hr).mp ho
    refine ⟨⟨root, f, .text hroot hname hext, hplace⟩, ?_⟩
    rintro ⟨root', hroot', hpre⟩
    obtain rfl := Option.some.inj (hroot.symm.trans hroot')
    obtain ⟨ns, hns, rfl⟩ := UnitFile.below_of_fileOrBackup hplace
    have hlong := hpre.length_le
    have := List.length_pos_iff.mpr hns
    simp only [List.length_append] at hlong
    omega
  · have hway : c.OnWay cwd (base ++ front) := by
      have hp : front <+: way ++ f.dirs := hp
      obtain ⟨rest, hrest⟩ := hp
      rcases List.append_eq_append_iff.mp hrest with ⟨more, hmore, -⟩ | ⟨more, hmore, hdirs⟩
      · refine .inl ⟨root, hroot, ?_⟩
        rw [hr, hmore, ← List.append_assoc]
        exact List.prefix_append _ _
      · by_cases hnil : more = []
        · have hsame : placeOf cwd root = base ++ front := by rw [hr, hmore, hnil, List.append_nil]
          exact .inl ⟨root, hroot, hsame ▸ List.prefix_rfl⟩
        · rw [hmore, ← List.append_assoc]
          exact onWay_dirs ⟨rest, hdirs.symm⟩ hnil _
    exact ⟨hway, fun ho => ho.not_onWay hway⟩

/-- An artifact that would stand above the source root finds a directory in its place. -/
theorem granted_artifact (hroot : c.artifactRoot = some root)
    (hC : ∀ d, C d → ∀ place, c.ToSources cwd place → d.look? place = some .directory)
    (hname : f.name ∈ as) (hext : f.ext = UnitName.binaryExtension) :
    (f.slot root (placeOf cwd root) []).Granted (c.Own cwd name as) (c.OnWay cwd) C := by
  refine ⟨fun place ho => ?_, fun front hne hp => ?_⟩
  · have hplace := (f.slot_owns (by rw [List.append_nil])).mp ho
    by_cases hto : c.ToSources cwd place
    · exact .inr fun d hd => hC d hd place hto
    · exact .inl ⟨⟨root, f, .artifact hroot hname hext, hplace⟩, hto⟩
  · have hway : c.OnWay cwd (placeOf cwd root ++ front) := onWay_dirs hp hne _
    exact ⟨hway, fun ho => ho.not_onWay hway⟩

/-- A text that was staged has the source root and all that leads to it for directories. -/
theorem directory_of_staged (hs : d.Sound) (hst : c.Staged name text d)
    (hv : UnitName.isValid name = true) (hto : c.ToSources d.cwd place) :
    d.look? place = some .directory := by
  obtain ⟨root, hroot, hpre⟩ := hto
  let f : UnitFile := ⟨name, UnitName.sourceExtension, hv, .inl rfl⟩
  obtain ⟨there, id, hstat⟩ := Disk.stat_of_read (hst root hroot).read
  obtain ⟨hplace, he⟩ := Disk.Spot.mk.inj (Disk.find_linkless hs.linkless (Disk.find_of_stat hstat))
  have hthere : there = f.place (placeOf d.cwd root) := hplace.trans (f.placeOf_path d.cwd root)
  have hbelow : place <+: there := by
    rw [hthere]
    exact hpre.trans (List.prefix_append _ _)
  refine hs.parents.directory_of_prefix hbelow ?_ (by rw [hplace, ← he]; simp)
  rintro rfl
  have hlong := hpre.length_le
  rw [hthere, UnitFile.place] at hlong
  simp only [List.length_append, List.length_singleton] at hlong
  omega

/-- Nothing is captured, archives are open, artifacts are persisted if there is a root for them, and
neither root overlaps with a directory on the classpath. -/
structure Station.InOrder (s : Station) : Prop where
  sound : s.host.disk.Sound
  outputs : s.outputs = .empty
  archives : s.cache.registry.capture.classpath.HoldsArchives s.host.disk
  artifacts : ∀ root, s.cache.artifactRoot = some root → s.host.disk.isDirectory root = true
  apart : ∀ p, .directory p ∈ s.cache.registry.capture.classpath.entries → ∀ root,
    s.cache.sourceRoot = some root ∨ s.cache.artifactRoot = some root →
      ¬placeOf s.host.disk.cwd root <+: placeOf s.host.disk.cwd p ∧
        ¬placeOf s.host.disk.cwd p <+: placeOf s.host.disk.cwd root

/-- The source root and the paths on the classpath take no step up, or lead to directories. -/
structure Station.Straight (s : Station) : Prop where
  sources : ∀ root, s.cache.sourceRoot = some root → ['.', '.'] ∈ names root →
    s.host.disk.isDirectory root = true
  classpath : ∀ p, .directory p ∈ s.cache.registry.capture.classpath.entries →
    ['.', '.'] ∈ names p → s.host.disk.isDirectory p = true

namespace Station

variable {s : Station}

def emitted (s : Station) (name text : String) : List String :=
  ((Operation.compile Lua.compiler name text).leaves s).map Prod.fst

/-- Where nothing was captured before, these are the artifacts that a compile answers with. -/
theorem mem_emitted {context : κ} {r : CompileResult} {w : Workbench κ} (ho : s.outputs = .empty)
    (hc : (compileSource Lua.compiler name text).run (s.bench context) = (.ok r, w)) (n : String) :
    n ∈ s.emitted name text ↔ r.contains n = true := by
  unfold emitted
  simp only [Operation.leaves]
  cases hx : compiling Lua.compiler name text s with
  | error e =>
    obtain ⟨h, hr⟩ := run_compileSource_error context hx
    cases hr.symm.trans hc
  | ok found =>
    obtain ⟨ds, new⟩ := found
    obtain ⟨w', hr, -⟩ := run_compileSource_ok context hx
    cases hr.symm.trans hc
    rw [ho]
    exact (NameMap.isSome_get?_insertAll new n).symm

def Own (s : Station) (name text : String) (place : Place) : Prop :=
  s.cache.Own s.host.disk.cwd name (s.emitted name text) place

def OnWay (s : Station) (place : Place) : Prop := s.cache.OnWay s.host.disk.cwd place

def Below (s : Station) (place : Place) : Prop :=
  ∃ root, (s.cache.sourceRoot = some root ∨ s.cache.artifactRoot = some root) ∧
    placeOf s.host.disk.cwd root <+: place

theorem below_of_own (h : s.Own name text place) : s.Below place := by
  obtain ⟨⟨root, f, hw, hp⟩, -⟩ := h
  obtain ⟨ns, -, rfl⟩ := UnitFile.below_of_fileOrBackup hp
  refine ⟨root, ?_, List.prefix_append _ _⟩
  cases hw with
  | text staged _ _ => exact .inl staged
  | artifact kept _ _ => exact .inr kept

def Later (s : Station) (d : Disk) : Prop := Grows s.Below s.host.disk d

def Staged (s : Station) (d : Disk) : Prop :=
  s.Later d ∧ ∀ place, s.cache.ToSources s.host.disk.cwd place → d.look? place = some .directory

theorem Later.grows {d' : Disk} (h : s.Later d) (hg : Grows (s.Own name text) d d') : s.Later d' :=
  Disk.Grows.trans h (hg.mono fun _ ho => below_of_own ho)

theorem Staged.grows {d' : Disk} (h : s.Staged d) (hg : Grows (s.Own name text) d d') : s.Staged d' :=
  ⟨h.1.grows hg, fun place hto => hg.directories place (h.2 place hto)⟩

namespace InOrder

variable (h : s.InOrder) (hstraight : s.Straight)

include h hstraight

/-- The same modules are found as long as the tree only grows below the roots. -/
theorem find (hl : s.Later d) :
    s.cache.registry.capture.find d = s.cache.registry.capture.find s.host.disk := by
  refine Classpath.find_spared hl h.sound (fun p hp ns n hbelow => ?_) h.archives fun p hp hup _ => ?_
  · obtain ⟨root, hroot, hpre⟩ := hbelow
    obtain ⟨hno, hno'⟩ := h.apart p hp root hroot
    exact (List.prefix_or_prefix_of_prefix hpre (List.prefix_append _ _)).elim hno hno'
  · exact hstraight.classpath p hp hup

/-- The text of a load is written as it would be on any later tree that is alike. -/
theorem local_text (hroot : s.cache.sourceRoot = some root) (hv : UnitName.isValid name = true)
    (w : Workbench κ) : Local (s.Own name text) s.OnWay s.Later s.Later
      (Task.act (Store.writeText (UnitName.path root name UnitName.sourceExtension) text)) w := by
  let f : UnitFile := ⟨name, UnitName.sourceExtension, hv, .inl rfl⟩
  obtain ⟨base, way, hplace, hreached⟩ := UnitFile.exists_slot h.sound (hstraight.sources root hroot)
  have hgranted : (f.slot root base way).Granted (s.Own name text) s.OnWay s.Later :=
    granted_text hroot hplace rfl rfl
  exact hgranted.local_write (hreached f) (fun d hl => ⟨hl.sound, hl.keeps h.sound⟩)
    (fun d d' hl hg => hl.grows hg) (Utf8.encode text) w

omit hstraight in
/-- So is an artifact, once the text is staged. -/
theorem local_artifact (hroot : s.cache.artifactRoot = some root) (hn : name ∈ s.emitted a text)
    (hv : UnitName.isValid name = true) (bytes : Bytes) (w : Workbench κ) :
    Local (s.Own a text) s.OnWay s.Staged s.Staged
      (Task.act (Store.writeBytes (UnitName.path root name UnitName.binaryExtension) bytes)) w := by
  let f : UnitFile := ⟨name, UnitName.binaryExtension, hv, .inr rfl⟩
  have hrooted := Disk.Rooted.of_isDirectory h.sound (h.artifacts root hroot)
  have hgranted : (f.slot root (placeOf s.host.disk.cwd root) []).Granted (s.Own a text) s.OnWay
      s.Staged := granted_artifact hroot (fun d hd => hd.2) hn rfl
  exact hgranted.local_write (f.reached_rooted hrooted) (fun d hd => ⟨hd.1.sound, hd.1.keeps h.sound⟩)
    (fun d d' hd hg => hd.grows hg) bytes w

end InOrder
end Station
end Cache
end UnitCache
