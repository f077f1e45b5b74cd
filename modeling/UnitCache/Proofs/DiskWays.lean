import UnitCache.Proofs.DirectoryFiles
import UnitCache.Proofs.StoreStaging

namespace UnitCache

namespace Path

variable {p : Path} {front : List (List Char)} {n : List Char}

/-- A path with a name at its end, and no slash after it, is the front of it joined with the name. -/
theorem exists_join (hn : Disk.names p = front ++ [n]) (hs : Disk.endsInSlash p = false) :
    ∃ q : Path, p = q.join ⟨n⟩ ∧ IsPiece n ∧ Disk.names q = front := by
  obtain ⟨cs⟩ := p
  obtain ⟨ps, s, hcut⟩ := (List.eq_nil_or_concat' (cutAt '/' cs)).resolve_left (cutAt_ne_nil '/' cs)
  have hps (t : List Char) (ht : t ∈ ps) : '/' ∉ t :=
    not_mem_of_mem_cutAt (hcut ▸ List.mem_append_left _ ht)
  have hpaste : pasteWith '/' (ps ++ [s]) = cs := hcut ▸ pasteWith_cutAt '/' cs
  -- Without a slash at the end the last piece is not empty.
  have hne : s ≠ [] := by
    intro hnil
    by_cases hp : ps = []
    · rw [hp, hnil] at hpaste
      rw [← hpaste] at hn
      exact List.concat_ne_nil n front hn.symm
    · rw [pasteWith_concat '/' hp, hnil] at hpaste
      rw [← hpaste, Disk.endsInSlash, List.getLast?_concat] at hs
      simp at hs
  have hpiece : IsPiece s := ⟨hne, not_mem_of_mem_cutAt (hcut ▸ List.mem_concat_self)⟩
  rw [Disk.names, hcut, List.filter_append, List.filter_cons_of_pos (by simpa using hne)] at hn
  obtain ⟨rfl, hlast⟩ := List.append_inj' hn rfl
  obtain rfl : s = n := (List.cons.inj hlast).1
  by_cases hp : ps = []
  · subst hp
    exact ⟨⟨[]⟩, by rw [join_of_empty rfl hpiece.not_absolute, ← hpaste]; rfl, hpiece, rfl⟩
  · refine ⟨⟨pasteWith '/' ps ++ ['/']⟩, ?_, hpiece, ?_⟩
    · rw [join, hpiece.not_absolute, if_neg (by simp), if_pos (.inr (by simp)), ← hpaste,
        pasteWith_concat '/' hp, List.append_cons]
    · rw [names_slash, names_paste hps]
      exact List.append_nil _

end Path

namespace Disk

variable {d d' : Disk} {last : Last} {links links' k : Nat} {here there base place : Place} {p q : Path}
  {slash : Bool} {n : Name} {ns : List Name} {spot : Spot}

/-- With more links to follow names lead to the same place. -/
theorem Leads.more (m : Nat) (h : Leads d links here ns links' there) :
    Leads d (links + m) here ns (links' + m) there := by
  induction h with
  | stop _ _ => exact .stop _ _
  | stay _ ih => exact .stay ih
  | up _ ih => exact .up ih
  | down plain short found _ ih => exact .down plain short found ih
  | follow plain short found _ ih =>
    rw [Nat.succ_add]
    exact .follow plain short found ih

/-- No link at a place leads anywhere, when so many may be followed. -/
def IsBlind (d : Disk) (k : Nat) (place : Place) : Prop :=
  ∀ above n target, place = above ++ [n] → d.look? place = some (.link target) → ∀ links < k,
    ∀ links' there, ¬Leads d links (if target.isAbsolute then [] else above) (names target) links' there

theorem IsBlind.mono {m : Nat} (h : d.IsBlind k place) (hm : m ≤ k) : d.IsBlind m place :=
  fun above n target hp ht links hl => h above n target hp ht links (Nat.lt_of_lt_of_le hl hm)

/-- Names lead around a link that leads nowhere. -/
theorem Leads.around (hd : ∀ p, d.look? p = some .directory → d'.look? p = some .directory)
    (hl : ∀ p target, p ≠ place → d.look? p = some (.link target) → d'.look? p = some (.link target))
    (hb : d.IsBlind links place) (h : Leads d links here ns links' there) :
    Leads d' links here ns links' there := by
  induction h with
  | stop _ _ => exact .stop _ _
  | stay _ ih => exact .stay (ih hb)
  | up _ ih => exact .up (ih hb)
  | down plain short found _ ih => exact .down plain short (hd _ found) (ih hb)
  | @follow links _ here _ n _ target plain short found rest ih =>
    by_cases hp : here ++ [n] = place
    · obtain ⟨m, there, hlink, -⟩ := rest.split
      exact absurd hlink (hb here n target hp.symm (hp ▸ found) links (Nat.lt_succ_self _) m there)
    · exact .follow plain short (hl _ _ hp found) (ih (hb.mono (Nat.le_succ _)))

theorem of_look?_erase {e : Entry} (hp : place ≠ []) (h : (d.erase place).look? there = some e) :
    there ≠ place ∧ d.look? there = some e := by
  rw [look?_erase d hp] at h
  split at h
  · cases h
  · rename_i hne
    exact ⟨hne, h⟩

/-- Names that lead somewhere without what stands at a place lead there with it. -/
theorem Leads.of_erase (hp : place ≠ []) (h : Leads (d.erase place) links here ns links' there) :
    Leads d links here ns links' there :=
  h.mono (fun _ hd => (of_look?_erase hp hd).2) fun _ _ hl => (of_look?_erase hp hl).2

structure Way (d : Disk) (q : Path) (n : Name) (links : Nat) (base : Place) : Prop where
  proper : IsProper n
  short : ¬maxName < width n
  legible : Legible (q.join ⟨n⟩)
  leads : Leads d maxLinks (d.start q) (names q) links base

namespace Way

theorem start (h : Way d q n links base) (d' : Disk) : d'.start (q.join ⟨n⟩) = d'.start q := by
  rw [Disk.start, Disk.start, Path.isAbsolute_join q h.proper.toIsPiece]

/-- What is wanted of the path is wanted of its last name. -/
theorem find (h : Way d q n links base) (last : Last) :
    d.find last (q.join ⟨n⟩) = walk d last links base false [n] := by
  have hn := h.proper.toIsPiece
  rw [find_of_legible d last (Path.join_ne_nil q hn) h.legible, h.start, Path.names_join q hn,
    Path.endsInSlash_join q hn]
  exact h.leads.walk_append (by simp)

theorem find_name (h : Way d q n links base) :
    d.find .name (q.join ⟨n⟩) = .ok ⟨base ++ [n], d.look? (base ++ [n])⟩ := by
  rw [h.find, walk, if_neg h.proper.ne_dot, if_neg h.proper.ne_up, if_neg (by simp), if_neg h.short]
  rcases hl : d.look? (base ++ [n]) with _ | ⟨id, content⟩ | _ | target
  · simp [hl]
  · simp [hl]
  · simp [hl, walk]
  · simp [hl]

theorem find_file {id : FileId} {content : Bytes} (h : Way d q n links base)
    (hf : d.look? (base ++ [n]) = some (.file id content)) (last : Last) :
    d.find last (q.join ⟨n⟩) = .ok ⟨base ++ [n], some (.file id content)⟩ := by
  rw [h.find, walk, if_neg h.proper.ne_dot, if_neg h.proper.ne_up, if_neg (by simp), if_neg h.short]
  simp [hf]

theorem find_directory (h : Way d q n links base) (hd : d.look? (base ++ [n]) = some .directory)
    (last : Last) : d.find last (q.join ⟨n⟩) = .ok ⟨base ++ [n], some .directory⟩ := by
  rw [h.find, walk, if_neg h.proper.ne_dot, if_neg h.proper.ne_up, if_neg (by simp), if_neg h.short]
  simp [hd, walk]

/-- Nothing is in the way of a file at the end of a path that leads to a directory. -/
theorem find_nothing (h : Way d q n links base) (hn : d.look? (base ++ [n]) = none) (last : Last) :
    d.find last (q.join ⟨n⟩) = .ok ⟨base ++ [n], none⟩ := by
  rw [h.find, walk, if_neg h.proper.ne_dot, if_neg h.proper.ne_up, if_neg (by simp), if_neg h.short]
  simp [hn]

/-- With what was taken away the way is the same. -/
theorem of_erase (h : Way (d.erase place) q n links base) (hp : place ≠ []) : Way d q n links base := by
  have hleads := h.leads.of_erase hp
  rw [Disk.start, cwd_erase] at hleads
  exact ⟨h.proper, h.short, h.legible, hleads⟩

/-- Nothing is led over a file. -/
theorem erase (h : Way d q n links base) (hp : place ≠ []) (hl : IsLoose (d.look? place)) :
    Way (d.erase place) q n links base := by
  have hkept (e : Entry) (p : Place) (he : ¬IsLoose (some e)) (hlook : d.look? p = some e) :
      (d.erase place).look? p = some e := by
    rw [look?_erase d hp, if_neg, hlook]
    rintro rfl
    exact he (hlook ▸ hl)
  have hleads := h.leads.mono (fun p => hkept _ p not_false) fun p target => hkept _ p not_false
  refine ⟨h.proper, h.short, h.legible, ?_⟩
  rwa [Disk.start, cwd_erase]

theorem unique {k : Nat} (h : Way d q n links base) (h' : Way d q n k there) : base = there :=
  (h.leads.unique h'.leads).1

end Way

/-- What can be followed to a name goes to a directory before it. -/
theorem way_of_join (hn : IsProper n) (hf : d.find last (q.join ⟨n⟩) = .ok spot) :
    ∃ links base, Way d q n links base := by
  have hlegible := legible_of_find (ne_nil_of_find hf) (.inl ⟨_, hf⟩)
  have hwalk := walk_of_find hf
  rw [Path.names_join q hn.toIsPiece, Disk.start, Path.isAbsolute_join q hn.toIsPiece] at hwalk
  obtain ⟨links, base, hleads, hwalk⟩ := leads_of_walk (by simp) hwalk
  rw [walk, if_neg hn.ne_dot, if_neg hn.ne_up] at hwalk
  split at hwalk
  · cases hwalk
  split at hwalk
  · cases hwalk
  · rename_i hshort
    exact ⟨links, base, hn, hshort, hlegible, hleads⟩

/-- A path that leads to no directory has a name at its end. -/
theorem way_of_find (ho : d.Ordered) (hf : d.find last p = .ok spot) (hs : endsInSlash p = false)
    (hne : spot.entry ≠ some .directory) :
    ∃ q n links base, p = q.join ⟨n⟩ ∧ Way d q n links base := by
  have hwalk := walk_of_find hf
  have hstart := ho.start p
  rcases List.eq_nil_or_concat' (names p) with hnil | ⟨front, n, hn⟩
  · rw [hnil, walk] at hwalk
    cases hwalk
    exact absurd hstart hne
  obtain ⟨q, rfl, hpiece, -⟩ := Path.exists_join hn hs
  rw [hn] at hwalk
  obtain ⟨links, base, hleads, hwalk⟩ := leads_of_walk (by simp) hwalk
  have hbase := hleads.directory ho.parents hstart
  rw [walk] at hwalk
  split at hwalk
  · rw [walk] at hwalk
    cases hwalk
    exact absurd hbase hne
  split at hwalk
  · rw [walk] at hwalk
    cases hwalk
    exact absurd (ho.parents.dropLast hbase) hne
  · rename_i hdot hup
    obtain ⟨links, base, hway⟩ := way_of_join ⟨⟨hpiece, hdot⟩, hup⟩ hf
    exact ⟨q, n, links, base, rfl, hway⟩

/-- What a slash follows is no file. -/
theorem walk_slash_ne_file {id : FileId} {content : Bytes} (ht : d.IsTree)
    (hh : d.look? here = some .directory) (hs : slash = true) :
    walk d .target links here slash ns ≠ .ok ⟨place, some (.file id content)⟩ := by
  fun_induction walk d .target links here slash ns with
  | case1 links here slash =>
    rw [hh]
    intro h
    cases h
  | case2 links here slash rest ih => exact ih hh hs
  | case3 links here slash rest hdot ih => exact ih (ht.dropLast hh) hs
  | case8 links here slash n rest hdot hup hslash hlong place hf ih => exact ih hf hs
  | case13 here slash n rest hdot hup hslash hlong place target hf hr links ih =>
    refine ih ?_ (by rw [hs, Bool.true_or])
    split
    · rfl
    · exact hh
  | _ => grind

/-- A file that is read is no directory. -/
theorem endsInSlash_of_read {content : Bytes} (ho : d.Ordered) (h : d.read p = .ok content) :
    endsInSlash p = false := by
  obtain ⟨place, id, hstat⟩ := stat_of_read h
  by_contra hs
  exact walk_slash_ne_file ho.parents (ho.start p) (by simpa using hs) (walk_of_find (find_of_stat hstat))

/-- A link through which a file is read leads to no directory. -/
theorem Way.isBlind {content : Bytes} (h : Way d q n links base) (ho : d.Ordered)
    (hr : d.read (q.join ⟨n⟩) = .ok content) (k : Nat) : d.IsBlind k (base ++ [n]) := by
  intro above m target hplace hlink more hmore links' there hleads
  obtain ⟨rfl, -⟩ := List.append_inj' hplace rfl
  obtain ⟨place, id, hstat⟩ := stat_of_read hr
  have hbase := h.leads.directory ho.parents (ho.start q)
  have hwalk := h.find .target
  rw [find_of_stat hstat, walk, if_neg h.proper.ne_dot, if_neg h.proper.ne_up, if_neg (by simp),
    if_neg h.short] at hwalk
  simp only [hlink, reduceCtorEq, and_false, if_false, List.append_nil, decide_true, Bool.true_and,
    Bool.false_or] at hwalk
  cases links with
  | zero => cases hwalk
  | succ left =>
    have hthrough : walk d .target left (if target.isAbsolute then [] else base)
        (endsInSlash target) (names target) =
          .ok ⟨place, some (.file id content)⟩ := hwalk.symm
    -- Both ways are followed with the links of both.
    have hfile := walk_more_links more (by rw [hthrough]; simp)
    have hthere := hleads.directory ho.parents (by split; rfl; exact hbase)
    have hdirectory := (hleads.more left).walk_target hthere (endsInSlash target)
    rw [Nat.add_comm, hfile, hthrough] at hdirectory
    cases hdirectory

/-- Something that nothing is led over is to get another name in its directory. -/
structure Shift (d : Disk) (base : Place) (n m : Name) (e : Entry) : Prop where
  apart : n ≠ m
  found : d.look? (base ++ [n]) = some e
  moves : e ≠ .directory
  loose : d.look? (base ++ [m]) ≠ some .directory
  blind : ∀ k, d.IsBlind k (base ++ [n])

namespace Shift

variable {m : Name} {e : Entry}

theorem places_apart (h : Shift d base n m e) : base ++ [n] ≠ base ++ [m] := by
  intro hp
  exact h.apart (List.cons.inj (List.append_cancel_left hp)).1

theorem look? (h : Shift d base n m e) (p : Place) : (d.move (base ++ [n]) (base ++ [m]) e).look? p =
    if p = base ++ [m] then some e else if p = base ++ [n] then none else d.look? p :=
  look?_move d (by simp) (by simp) h.places_apart e p

/-- What is neither moved nor replaced stands where it stood. -/
theorem look?_of_ne (h : Shift d base n m e) {p : Place} (hp : p ≠ base ++ [m])
    (hp' : p ≠ base ++ [n]) : (d.move (base ++ [n]) (base ++ [m]) e).look? p = d.look? p := by
  rw [h.look?, if_neg hp, if_neg hp']

theorem look?_moved (h : Shift d base n m e) {p : Place} {x : Entry} (hp : p ≠ base ++ [m])
    (hx : (d.move (base ++ [n]) (base ++ [m]) e).look? p = some x) :
    (d.erase (base ++ [m])).look? p = some x := by
  rw [h.look?, if_neg hp] at hx
  split at hx
  · cases hx
  · rw [look?_erase d (by simp), if_neg hp, hx]

/-- Names that lead somewhere without what is replaced do so when it is replaced. -/
theorem leads_of_erase (h : Shift d base n m e)
    (hl : Leads (d.erase (base ++ [m])) links here ns links' there) :
    Leads (d.move (base ++ [n]) (base ++ [m]) e) links here ns links' there := by
  have hm : base ++ [m] ≠ [] := by simp
  have hblind : (d.erase (base ++ [m])).IsBlind links (base ++ [n]) := by
    intro above x target hplace hlink more hmore left there' hleads
    exact h.blind _ above x target hplace (of_look?_erase hm hlink).2 more hmore left there'
      (hleads.of_erase hm)
  refine hl.around (fun p hp => ?_) (fun p target hne hp => ?_) hblind
  · obtain ⟨hne, hd⟩ := of_look?_erase hm hp
    rw [h.look?_of_ne hne, hd]
    rintro rfl
    exact h.moves (Option.some.inj (h.found.symm.trans hd))
  · obtain ⟨hne', hd⟩ := of_look?_erase hm hp
    rw [h.look?_of_ne hne' hne, hd]

theorem erase_of_blind (h : Shift d base n m e)
    (hb : (d.move (base ++ [n]) (base ++ [m]) e).IsBlind links (base ++ [m]))
    (hl : Leads (d.move (base ++ [n]) (base ++ [m]) e) links here ns links' there) :
    Leads (d.erase (base ++ [m])) links here ns links' there := by
  refine hl.around (fun p hp => h.look?_moved ?_ hp) (fun p target hne hp => h.look?_moved hne hp) hb
  rintro rfl
  rw [h.look?, if_pos rfl] at hp
  exact h.moves (Option.some.inj hp)

/-- What was moved leads nowhere under its new name either: before it could be reached once more it
would have to lead somewhere with fewer links to follow. -/
theorem isBlind (h : Shift d base n m e) (k : Nat) :
    (d.move (base ++ [n]) (base ++ [m]) e).IsBlind k (base ++ [m]) := by
  induction k using Nat.strong_induction_on with
  | _ k ih =>
    intro above x target hplace hlink more hmore left there hleads
    obtain ⟨rfl, -⟩ := List.append_inj' hplace rfl
    rw [h.look?, if_pos rfl] at hlink
    have hbefore := (h.erase_of_blind (ih more hmore) hleads).of_erase (by simp)
    exact h.blind k base n target rfl (h.found.trans hlink) more hmore left there hbefore

/-- What is moved and what it replaces are on no way after that. -/
theorem leads_iff (h : Shift d base n m e) :
    Leads (d.move (base ++ [n]) (base ++ [m]) e) links here ns links' there ↔
      Leads (d.erase (base ++ [m])) links here ns links' there :=
  ⟨h.erase_of_blind (h.isBlind _), h.leads_of_erase⟩

theorem way_iff {x : Name} (h : Shift d base n m e) :
    Way (d.move (base ++ [n]) (base ++ [m]) e) q x links there ↔
      Way (d.erase (base ++ [m])) q x links there := by
  have hstart : (d.move (base ++ [n]) (base ++ [m]) e).start q = (d.erase (base ++ [m])).start q := by
    rw [Disk.start, Disk.start, cwd_move, cwd_erase]
  constructor
  · intro hw
    exact ⟨hw.proper, hw.short, hw.legible, h.leads_iff.mp (hstart ▸ hw.leads)⟩
  · intro hw
    exact ⟨hw.proper, hw.short, hw.legible, hstart ▸ h.leads_iff.mpr hw.leads⟩

end Shift

end Disk
end UnitCache
