import UnitCache.Proofs.ClasspathSteady
import UnitCache.Proofs.StoreStaging

namespace UnitCache

open Disk (Settles Spells IsProper Spot)

variable {d d' : Disk} {S : Place → Prop} {root : Path} {base : Place} {s : List Char} {ns : List Name}

namespace Disk

/-- The path of a directory that was there leads to it only since the tree changed. -/
def Completes (d d' : Disk) (root : Path) : Prop :=
  ∃ base, d'.Stands root base ∧ d.look? base = some .directory ∧ ¬d.Stands root base

/-- What stands below a directory is found by going down, if going down further was not too much for
the names. -/
theorem IsTree.descend {here : Place} {spot : Spot} (ht : d.IsTree) (hsome : d.look? (here ++ ns) ≠ none)
    (h : d'.descend here ns = .ok spot) : d.descend here ns = .ok ⟨here ++ ns, d.look? (here ++ ns)⟩ := by
  induction ns generalizing here with
  | nil => rw [List.append_nil, Disk.descend]
  | cons n rest ih =>
    rw [Disk.descend] at h ⊢
    split at h
    · cases h
    rename_i hshort
    rw [if_neg hshort]
    by_cases hr : rest = []
    · subst hr
      split
      · rw [Disk.descend]
      · rw [if_pos rfl]
    · have hd : d.look? (here ++ [n]) = some .directory := by
        have hp : here ++ [n] <+: here ++ n :: rest := ⟨rest, by simp⟩
        refine ht.directory_of_prefix hp (fun he => ?_) hsome
        have hl := congrArg List.length he
        simp only [List.length_append, List.length_cons, List.length_nil] at hl
        exact hr (List.length_eq_zero_iff.mp (by omega))
      rw [if_pos hd]
      split at h
      · simpa using ih (by simpa using hsome) h
      · split at h <;> cases h

/-- What a path below a directory finds stands below it, where there are no links. -/
theorem Spells.stands_of_stat {place : Place} {e : Entry} (hx : Spells s ns) (ht : d.IsTree)
    (h : d.stat (root.join ⟨s⟩) = .ok (place, e)) : ∃ base, d.Stands root base ∧
      (d.NoLinks base → place = base ++ ns ∧ d.look? place = some e ∧
        d.descend base ns = .ok ⟨place, some e⟩) := by
  have hwalk := walk_of_find (find_of_stat h)
  rw [hx.names_join, hx.start_join, hx.endsInSlash_join] at hwalk
  obtain ⟨links, base, hleads, hwalk⟩ := leads_of_walk hx.ne_nil hwalk
  obtain ⟨n, rest, rfl⟩ := List.exists_cons_of_ne_nil hx.ne_nil
  have hsome := look?_of_walk (hx.proper n List.mem_cons_self).isPlain hwalk (by simp)
  refine ⟨base, ⟨links, hleads, ht base n hsome⟩, fun hn => ?_⟩
  rw [walk_eq_descend (fun m hm => (hx.proper m hm).isPlain) hn] at hwalk
  obtain ⟨hplace, he⟩ := Spot.mk.inj (descend_ok hwalk)
  exact ⟨hplace, hplace ▸ he.symm, hwalk⟩

/-- Below a directory the same files are found after a change elsewhere. -/
theorem Settles.stat_join (h : Settles S d d') (ho : d.Ordered) (hx : Spells s ns)
    (hs : ∀ base, d'.Stands root base → d'.NoLinks base ∧ ¬S (base ++ ns))
    (hc : ¬Completes d d' root) {place : Place} {id : FileId} {content : Bytes} :
    d'.stat (root.join ⟨s⟩) = .ok (place, .file id content) ↔
      d.stat (root.join ⟨s⟩) = .ok (place, .file id content) := by
  have hlinks (base : Place) (hb : d'.Stands root base) : d.NoLinks base := fun ms target hl =>
    (hs base hb).1 ms target ((h.keeps.links _ target).mpr hl)
  constructor
  · intro hstat
    obtain ⟨base, hb, hall⟩ := hx.stands_of_stat h.ordered.parents hstat
    obtain ⟨rfl, hl, hdown⟩ := hall (hs base hb).1
    have hbefore : d.look? (base ++ ns) = some (.file id content) := by
      rcases h.others _ (hs base hb).2 with he | ⟨-, hd⟩
      · rw [← he, hl]
      · cases hl.symm.trans hd
    have hne : base ≠ base ++ ns := fun he => hx.ne_nil (List.append_right_eq_self.mp he.symm)
    have hbase : d.look? base = some .directory :=
      ho.parents.directory_of_prefix ⟨ns, rfl⟩ hne (by simp [hbefore])
    obtain ⟨links, hleads, -⟩ : d.Stands root base :=
      Classical.byContradiction fun hno => hc ⟨base, hb, hbase, hno⟩
    refine stat_of_find (find_of_walk (find_of_stat hstat) ?_)
    rw [hx.start_join, hx.names_join, hx.endsInSlash_join, hleads.walk_append hx.ne_nil,
      walk_eq_descend (fun m hm => (hx.proper m hm).isPlain) (hlinks base hb),
      ho.parents.descend (by simp [hbefore]) hdown, hbefore]
  · intro hstat
    obtain ⟨base, hb, hall⟩ := hx.stands_of_stat ho.parents hstat
    obtain ⟨rfl, hl, -⟩ := hall (hlinks base (h.stands hb))
    refine h.keeps.stat hstat ?_
    rcases h.others _ (hs base (h.stands hb)).2 with he | ⟨hn, -⟩
    · rw [he, hl]
    · cases hl.symm.trans hn

end Disk

/-- The same modules are found after a change that is apart from the directories of a classpath. -/
theorem Classpath.find_apart {c : Classpath} (h : Settles S d d') (ho : d.Ordered)
    (harchives : c.HoldsArchives d)
    (hd : ∀ root, .directory root ∈ c.entries → ¬Disk.Completes d d' root ∧
      ∀ base, d'.Stands root base → d'.NoLinks base ∧ ∀ ns, ¬S (base ++ ns)) :
    c.find d' = c.find d := by
  refine find_congr fun name hn e he f hf => ?_
  cases e with
  | archive p file members => exact inEntry_archive (harchives p file members he) h.retains name f
  | directory root =>
    obtain ⟨ns, n, hx⟩ := spells_candidate hn hf
    obtain ⟨hc, hbase⟩ := hd root he
    exact inEntry_directory name (h.stat_join ho hx (fun base hb => ⟨(hbase base hb).1,
      (hbase base hb).2 _⟩) hc)

end UnitCache
