import UnitCache.Proofs.DiskGrowth
import UnitCache.Proofs.ModuleFiles

namespace UnitCache.Disk

variable {d : Disk} {last : Last} {links : Nat} {here : Place} {slash : Bool} {root : Path}
  {s : List Char} {ns : List Name} {content : Bytes}

/-- A walk that does not run out of links ends alike when more of them may be followed. -/
theorem walk_more_links (more : Nat) (h : walk d last links here slash ns ≠ .error .tooManyLinks) :
    walk d last (links + more) here slash ns = walk d last links here slash ns := by
  fun_induction walk d last links here slash ns with
  | case1 => rw [walk]
  | case2 links here slash rest ih =>
    rw [walk, if_pos rfl]
    exact ih h
  | case3 links here slash rest hdot ih =>
    rw [walk, if_neg hdot, if_pos rfl]
    exact ih h
  | case4 links here slash n rest hdot hup hslash => rw [walk, if_neg hdot, if_neg hup, if_pos hslash]
  | case5 links here slash n rest hdot hup hslash hlong =>
    rw [walk, if_neg hdot, if_neg hup, if_neg hslash, if_pos hlong]
  | case6 links here slash n hdot hup hlong place hf hslash =>
    rw [walk, if_neg hdot, if_neg hup, if_neg hslash, if_neg hlong]
    simp only [show d.look? (here ++ [n]) = none from hf]
    rw [if_true]
  | case7 links here slash n rest hdot hup hslash hlong place hf hr =>
    rw [walk, if_neg hdot, if_neg hup, if_neg hslash, if_neg hlong]
    simp only [show d.look? (here ++ [n]) = none from hf]
    rw [if_neg hr]
  | case8 links here slash n rest hdot hup hslash hlong place hf ih =>
    rw [walk, if_neg hdot, if_neg hup, if_neg hslash, if_neg hlong]
    simp only [show d.look? (here ++ [n]) = some .directory from hf]
    exact ih h
  | case9 links here slash n rest hdot hup hslash hlong place id content hf hr =>
    rw [walk, if_neg hdot, if_neg hup, if_neg hslash, if_neg hlong]
    simp only [show d.look? (here ++ [n]) = some (.file id content) from hf]
    rw [if_pos hr]
  | case10 links here slash n rest hdot hup hslash hlong place id content hf hr =>
    rw [walk, if_neg hdot, if_neg hup, if_neg hslash, if_neg hlong]
    simp only [show d.look? (here ++ [n]) = some (.file id content) from hf]
    rw [if_neg hr]
  | case11 links here slash n rest hdot hup hslash hlong place target hf hr =>
    rw [walk, if_neg hdot, if_neg hup, if_neg hslash, if_neg hlong]
    simp only [show d.look? (here ++ [n]) = some (.link target) from hf]
    rw [if_pos hr]
  | case12 => exact absurd rfl h
  | case13 here slash n rest hdot hup hslash hlong place target hf hr links ih =>
    rw [Nat.succ_add, walk, if_neg hdot, if_neg hup, if_neg hslash, if_neg hlong]
    simp only [show d.look? (here ++ [n]) = some (.link target) from hf]
    rw [if_neg hr]
    exact ih h

/-- Names lead to a place with fewer links left to follow, or as many. -/
theorem Leads.links_le {links' : Nat} {there : Place} (h : Leads d links here ns links' there) :
    links' ≤ links := by
  induction h with
  | stop => exact Nat.le_refl _
  | stay _ ih => exact ih
  | up _ ih => exact ih
  | down _ _ _ _ ih => exact ih
  | follow _ _ _ _ ih => exact Nat.le_succ_of_le ih

/-- The directory at a path has a regular file under a relative path, which may go over links. -/
def HasFile (d : Disk) (root : Path) (ns : List Name) (content : Bytes) : Prop :=
  ∃ links base place id, Leads d maxLinks (d.start root) (names root) links base ∧
    walk d .target maxLinks base false ns = .ok ⟨place, some (.file id content)⟩

/-- A path is refused for its length, or for the links that it goes over. -/
def Refused (d : Disk) (p : Path) : Prop := ¬Legible p ∨ d.stat p = .error .tooManyLinks

namespace Spells

theorem join_ne_nil (hx : Spells s ns) (root : Path) : (root.join ⟨s⟩).chars ≠ [] := by
  intro hnil
  have hlast := Path.getLast?_join_of_relative root hx.relative hx.chars_ne_nil
  rw [hnil] at hlast
  exact hx.chars_ne_nil (List.getLast?_eq_none_iff.mp hlast.symm)

/-- What is read under a joined path is a file of the directory. -/
theorem hasFile (hx : Spells s ns) (h : d.read (root.join ⟨s⟩) = .ok content) :
    d.HasFile root ns content := by
  obtain ⟨place, id, hstat⟩ := stat_of_read h
  have hwalk := walk_of_find (find_of_stat hstat)
  rw [hx.names_join, hx.start_join, hx.endsInSlash_join] at hwalk
  obtain ⟨links, base, hleads, hwalk⟩ := leads_of_walk hx.ne_nil hwalk
  have hmore := walk_more_links (maxLinks - links) (by rw [hwalk]; simp)
  rw [Nat.add_sub_of_le hleads.links_le, hwalk] at hmore
  exact ⟨links, base, place, id, hleads, hmore⟩

/-- A file of the directory is read under the joined path if that is not refused. -/
theorem read_join (hx : Spells s ns) (h : d.HasFile root ns content)
    (hr : ¬d.Refused (root.join ⟨s⟩)) : d.read (root.join ⟨s⟩) = .ok content := by
  obtain ⟨links, base, place, id, hleads, hwalk⟩ := h
  obtain ⟨hlegible, hlinks⟩ := not_or.mp hr
  have hfind := find_of_legible d .target (hx.join_ne_nil root) (not_not.mp hlegible)
  rw [hx.names_join, hx.start_join, hx.endsInSlash_join, hleads.walk_append hx.ne_nil] at hfind
  -- The walk from the directory is not refused for its links, as the one along the whole path is not.
  have hnot : walk d .target links base false ns ≠ .error .tooManyLinks := by
    intro he
    rw [he] at hfind
    exact hlinks (by rw [stat, hfind])
  have hmore := walk_more_links (maxLinks - links) hnot
  rw [Nat.add_sub_of_le hleads.links_le, hwalk] at hmore
  exact read_of_stat (stat_of_find (hfind.trans hmore.symm))

end Spells

end UnitCache.Disk
