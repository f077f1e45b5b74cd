import UnitCache.Proofs.ClasspathOpening
import UnitCache.Proofs.DiskGrowth
import UnitCache.Proofs.ModuleFiles

namespace UnitCache

open Disk (Grows Sound Spells Keeps Spot placeOf)

variable {d d' : Disk} {S : Place → Prop} {root : Path} {s : List Char} {ns : List Name} {n : Name}

namespace Disk

theorem isFile_iff {p : Path} :
    d.isFile p = true ↔ ∃ place id content, d.stat p = .ok (place, .file id content) := by
  unfold isFile
  split
  · rename_i place id content hs
    simp [hs]
  · rename_i hno
    constructor
    · exact fun h => nomatch h
    · rintro ⟨place, id, content, hs⟩
      exact absurd hs (hno place id content)

/-- A directory on the classpath that only comes to be while the tree grows is not spelled with a
step up. -/
def NoDetour (d d' : Disk) (root : Path) : Prop :=
  ['.', '.'] ∈ names root → d'.isDirectory root = true → d.isDirectory root = true

/-- What is found below a directory after the tree has grown, where nothing was touched, was found
before. -/
theorem Grows.find_before (hg : Grows S d d') (hs : d.Sound) (hx : Spells s ns)
    (hd : NoDetour d d' root) {spot : Spot} (he : d.look? spot.place = spot.entry)
    (hf : d'.find .target (root.join ⟨s⟩) = .ok spot) (hfile : d'.isFile (root.join ⟨s⟩) = true) :
    d.find .target (root.join ⟨s⟩) = .ok spot := by
  have hk := hg.keeps hs
  have hsome : spot.entry ≠ none := by
    obtain ⟨place, id, content, hstat⟩ := isFile_iff.mp hfile
    rw [← Except.ok.inj ((find_of_stat hstat).symm.trans hf)]
    simp
  have hw := walk_of_find hf
  have hproper (n : Name) (hn : n ∈ ns) : n ≠ ['.', '.'] := (hx.proper n hn).ne_up
  refine find_of_walk hf ?_
  rw [hk.start, hx.names_join] at hw
  rw [hx.names_join]
  by_cases hup : ['.', '.'] ∈ names root
  · have hroot : root.chars ≠ [] := by
      intro hr
      obtain rfl : root = ⟨[]⟩ := congrArg Path.mk hr
      cases hup
    obtain ⟨base, hbase⟩ : ∃ base, d.stat root = .ok (base, .directory) := by
      have hdir := hd hup (hx.isDirectory hg.sound.parents hroot hfile)
      unfold isDirectory at hdir
      split at hdir
      · exact ⟨_, ‹_›⟩
      · cases hdir
    obtain ⟨links, hleads, -⟩ := leads_of_walk_target (walk_of_find (find_of_stat hbase))
    have hleads' := hleads.mono hk.directories fun place target => (hk.links place target).mpr
    rw [hx.start_join] at hw ⊢
    rw [hleads'.walk_append hx.ne_nil] at hw
    rw [hleads.walk_append hx.ne_nil]
    exact walk_before hs hg.linkless hproper hsome he hw
  · refine walk_before hs hg.linkless (fun n hn => ?_) hsome he hw
    rcases List.mem_append.mp hn with hn | hn
    · exact fun hne => hup (hne ▸ hn)
    · exact hproper n hn

/-- Below a directory the same files are found while the tree grows elsewhere. -/
theorem Grows.stat_join (hg : Grows S d d') (hs : d.Sound) (hx : Spells s ns)
    (huntouched : ¬S (placeOf d.cwd (root.join ⟨s⟩))) (hd : NoDetour d d' root) {place : Place}
    {id : FileId} {content : Bytes} : d'.stat (root.join ⟨s⟩) = .ok (place, .file id content) ↔
      d.stat (root.join ⟨s⟩) = .ok (place, .file id content) := by
  have hk := hg.keeps hs
  constructor
  · intro h
    have hf := find_of_stat h
    obtain ⟨hplace, he⟩ := Spot.mk.inj (find_linkless hg.linkless hf)
    rw [hk.cwd] at hplace
    have hl : d.look? place = some (.file id content) := by
      rcases hg.others place (hplace ▸ huntouched) with ho | ⟨-, ho⟩
      · rw [← ho, he, hk.cwd, hplace]
      · rw [hk.cwd, ← hplace, ho] at he
        cases he
    exact stat_of_find (hg.find_before hs hx hd hl hf (isFile_iff.mpr ⟨_, _, _, h⟩))
  · intro h
    obtain ⟨rfl, he⟩ := Spot.mk.inj (find_linkless hs.linkless (find_of_stat h))
    exact hk.stat h ((hg.toTouches.look? huntouched (by simp [← he])).trans he.symm)

end Disk

namespace Classpath

def HoldsArchives (c : Classpath) (d : Disk) : Prop :=
  ∀ p file members, .archive p file members ∈ c.entries → (d.contentOf? file).isSome

variable {c : Classpath} {name : String}

/-- A classpath has just been opened: its archives are. -/
theorem holdsArchives_of_new {ps : List Path} {out : Option Path} {g g' : Host} (hs : g.disk.Sound)
    (h : (Classpath.new ps out).run g = (.ok c, g')) : c.HoldsArchives g'.disk := by
  obtain ⟨hd, ho⟩ := new_ok h
  intro p file members he
  obtain ⟨content, hopen⟩ := ho.archive_mem he
  unfold Disk.openAt at hopen
  split at hopen <;> cases hopen
  rename_i place hstat
  obtain ⟨rfl, hl⟩ := Spot.mk.inj (Disk.find_linkless hs.linkless (Disk.find_of_stat hstat))
  rw [hd, hs.ordered.contentOf?_iff.mpr (.inl ⟨_, hl.symm⟩)]
  rfl

/-- Archives stay open while files keep what they hold. -/
theorem HoldsArchives.retains (h : c.HoldsArchives d) (hr : Disk.Retains d d') : c.HoldsArchives d' := by
  intro p file members he
  obtain ⟨content, hc⟩ := Option.isSome_iff_exists.mp (h p file members he)
  rw [hr file content hc]
  rfl

/-- An archive that is open has the same members as long as it keeps what it holds. -/
theorem inEntry_archive {p : Path} {file : FileId} {members : List Zip.Member}
    (h : (d.contentOf? file).isSome) (hr : Disk.Retains d d') (name f : String) :
    inEntry d' name f (.archive p file members) = inEntry d name f (.archive p file members) := by
  obtain ⟨bytes, hb⟩ := Option.isSome_iff_exists.mp h
  simp only [inEntry, hb, hr file bytes hb]

/-- A directory has a module as long as the same file is found for it. -/
theorem inEntry_directory {f : String} (name : String)
    (hstat : ∀ {place : Place} {id : FileId} {content : Bytes},
      d'.stat (root.join (.ofString f)) = .ok (place, .file id content) ↔
        d.stat (root.join (.ofString f)) = .ok (place, .file id content)) :
    inEntry d' name f (.directory root) = inEntry d name f (.directory root) := by
  let p := root.join (.ofString f)
  have hfile : d'.isFile p = d.isFile p := by
    rw [Bool.eq_iff_iff, Disk.isFile_iff, Disk.isFile_iff]
    simp only [p, hstat]
  rw [inEntry, inEntry]
  by_cases hb : d.isFile p = true
  · obtain ⟨place, id, content, h⟩ := Disk.isFile_iff.mp hb
    have htext : d'.readText p = d.readText p := by
      rw [Disk.readText, Disk.read, Disk.openAt, hstat.mpr h, Disk.readText, Disk.read, Disk.openAt, h]
    rw [if_pos hb, if_pos (hfile.trans hb), htext]
  · rw [if_neg hb, if_neg (hfile ▸ hb)]

/-- Modules are found that the entries have. -/
theorem find_congr (h : ∀ name, UnitName.isValid name = true → ∀ e ∈ c.entries,
    ∀ f ∈ candidates name, inEntry d' name f e = inEntry d name f e) : c.find d' = c.find d := by
  funext name
  by_cases hn : UnitName.isValid name = true
  · have hentries (e : ClasspathEntry) (he : e ∈ c.entries) :
        (candidates name).map (fun f => inEntry d' name f e) =
          (candidates name).map (fun f => inEntry d name f e) :=
      List.map_congr_left fun f hf => h name hn e he f hf
    rw [find, find, List.flatMap_congr hentries]
  · simp [find, hn]

def Spares (c : Classpath) (cwd : Place) (S : Place → Prop) : Prop :=
  ∀ root, .directory root ∈ c.entries → ∀ ns n, ¬S (placeOf cwd root ++ (ns ++ [n ++ ".lua".toList]))

/-- The same modules are found while the tree grows and none of them is written. -/
theorem find_spared (hg : Grows S d d') (hs : d.Sound) (hS : c.Spares d.cwd S)
    (harchives : c.HoldsArchives d)
    (hd : ∀ root, .directory root ∈ c.entries → Disk.NoDetour d d' root) : c.find d' = c.find d := by
  refine find_congr fun name hn e he f hf => ?_
  cases e with
  | archive p file members => exact inEntry_archive (harchives p file members he) hg.retains name f
  | directory root =>
    obtain ⟨ns, n, hx⟩ := spells_candidate hn hf
    have hplace := hx.placeOf_join d root
    exact inEntry_directory name (hg.stat_join hs hx (hplace ▸ hS root he ns n) (hd root he))

def SparesSources (S : Place → Prop) : Prop := ∀ above n, ¬S (above ++ [n ++ ".lua".toList])

/-- The same modules are found while the tree grows and no source is written. -/
theorem find_steady (hg : Grows S d d') (hs : d.Sound) (hS : SparesSources S)
    (harchives : c.HoldsArchives d)
    (hd : ∀ root, .directory root ∈ c.entries → Disk.NoDetour d d' root) : c.find d' = c.find d :=
  find_spared hg hs (fun root _ ns n => List.append_assoc .. ▸ hS (placeOf d.cwd root ++ ns) n) harchives
    hd

end Classpath
end UnitCache
