import UnitCache.Proofs.DiskLadder
import UnitCache.Proofs.StoreStaging

namespace UnitCache

namespace Path

variable {p q r : Path} {absolute : Bool} {ps qs : List (List Char)}

structure Heads (q p : Path) : Prop where
  chars : q.chars <+: p.chars
  names : Disk.names q <+: Disk.names p

theorem Heads.trans (h : Heads r q) (h' : Heads q p) : Heads r p :=
  ⟨h.chars.trans h'.chars, h.names.trans h'.names⟩

theorem heads_ofBody (h : ∀ s ∈ qs, '/' ∉ s) (hp : ps <+: qs) :
    Heads (ofBody absolute ps) (ofBody absolute qs) := by
  obtain ⟨rest, rfl⟩ := hp
  have hps (s : List Char) (hs : s ∈ ps) : '/' ∉ s := h s (List.mem_append_left _ hs)
  constructor
  · have hpaste := prefix_pasteWith '/' ps rest
    cases absolute with
    | false => exact hpaste
    | true => exact (List.prefix_cons_inj '/').mpr hpaste
  · rw [names_ofBody _ hps, names_ofBody _ h, List.filter_append]
    exact List.prefix_append _ _

/-- What is left without noise at the end is a front. -/
theorem prefix_dropNoise {s : List Char} (h : dropNoise absolute ps = s :: qs) :
    (s :: qs).reverse <+: ps.reverse := by
  obtain ⟨noise, hps, -⟩ := dropNoise_eq absolute ps
  rw [hps, h, List.reverse_append]
  exact List.prefix_append _ _

theorem isChain_ancestorsOf (hs : ∀ s ∈ ps, '/' ∉ s) (hp : Heads (ofBody absolute ps.reverse) p) :
    List.IsChain (fun p q => Heads q p) (p :: ancestorsOf absolute ps) := by
  have hslash (s : List Char) (h : s ∈ ps.reverse) : '/' ∉ s := hs s (List.mem_reverse.mp h)
  fun_induction ancestorsOf absolute ps generalizing p with
  | case1 ps h =>
    exact .cons_cons ((heads_ofBody hslash List.nil_prefix).trans hp) (.singleton _)
  | case2 ps q qs h ih =>
    have hfront := prefix_dropNoise h
    have hqs (s : List Char) (hm : s ∈ (q :: qs).reverse) : '/' ∉ s := hslash s (hfront.mem hm)
    rw [List.isChain_cons_cons]
    refine ⟨(heads_ofBody hslash hfront).trans hp, ih ?_ ?_ ?_⟩
    · intro s hm
      exact hqs s (List.mem_reverse.mpr (List.mem_cons_of_mem _ hm))
    · apply heads_ofBody hqs
      rw [List.reverse_cons]
      exact List.prefix_append _ _
    · intro s hm
      exact hqs s (by rw [List.reverse_cons]; exact List.mem_append_left _ hm)

/-- Each of the ancestors of a path is the front of the one before it. -/
theorem isChain_ancestors (p : Path) : List.IsChain (fun p q => Heads q p) p.ancestors := by
  have hslash (s : List Char) (hm : s ∈ p.body) : '/' ∉ s := no_slash_of_mem_body hm
  rw [ancestors, ancestorsOf]
  split
  · exact .singleton p
  · rename_i q qs h
    have hfront := prefix_dropNoise h
    rw [List.reverse_reverse, List.reverse_cons] at hfront
    have habove : qs.reverse <+: p.body := (List.prefix_append _ _).trans hfront
    refine isChain_ancestorsOf (fun s hm => ?_) ?_
    · exact hslash s (habove.mem (List.mem_reverse.mpr hm))
    · have hheads : Heads (ofBody p.isAbsolute qs.reverse) (ofBody p.isAbsolute p.body) :=
        heads_ofBody hslash habove
      rwa [ofBody_body] at hheads

end Path

namespace Disk

variable {d d' : Disk} {p q : Path} {place : Place} {ps : List Path} {e e' : Fault}

/-- Above a directory there are directories. -/
theorem isDirectory_of_heads (ho : d.Ordered) (h : Path.Heads q p) (hq : q.chars ≠ [])
    (hd : d.isDirectory p = true) : d.isDirectory q = true := by
  unfold isDirectory at hd
  split at hd
  · rename_i place hstat
    have hfind := find_of_stat hstat
    have hlegible := legible_of_find (ne_nil_of_find hfind) (.inl ⟨_, hfind⟩)
    obtain ⟨links, hleads, -⟩ := leads_of_walk_target (walk_of_find hfind)
    obtain ⟨rest, hrest⟩ := h.names
    rw [← hrest] at hleads
    obtain ⟨k, there, hfront, -⟩ := hleads.split
    have hstart : d.start q = d.start p := by
      obtain ⟨c, cs, hcs⟩ := List.exists_cons_of_ne_nil hq
      obtain ⟨more, hmore⟩ := h.chars
      rw [start, start, Path.isAbsolute, Path.isAbsolute, ← hmore, hcs]
      rfl
    have hthere := hfront.directory ho.parents (ho.start p)
    rw [← hstart] at hfront
    exact Stands.isDirectory ⟨k, hfront, hthere⟩ hq (hlegible.of_prefix h.chars)
  · cases hd

theorem isDirectory_tryDirectory (h : d.tryDirectory p = (d', .error e)) : d'.isDirectory p = false := by
  rw [tryDirectory] at h
  split at h
  · cases h
  · obtain ⟨rfl, hr⟩ := Prod.mk.inj h
    split at hr
    · cases hr
    · rename_i hd
      simpa using hd

/-- Making directories ends badly at the first of them, or above it. -/
theorem makeFirst_error (h : d.makeFirst (p :: ps) = (d', .error e)) : p.chars ≠ [] ∧
    ((∃ d₁ : Disk, d₁.tryDirectory p = (d', .error e)) ∨ d.makeFirst ps = (d', .error e)) := by
  by_cases hp : p.chars = []
  · rw [makeFirst, if_pos (by simpa [Path.isEmpty] using hp)] at h
    cases h
  refine ⟨hp, ?_⟩
  by_cases hm : d.makeDirectory p = .error .notFound
  · rw [makeFirst_cons_notFound hp hm] at h
    split at h
    · rename_i hparents
      cases h
      exact .inr hparents
    · exact .inl ⟨_, h⟩
  · rw [makeFirst_cons hp hm] at h
    exact .inl ⟨_, h⟩

/-- What cannot be made is not there afterwards: neither is the parent, if that cannot be made. -/
theorem isDirectory_makeFirst (ho : d.Ordered)
    (hc : List.IsChain (fun p q => Path.Heads q p) (p :: ps))
    (h : d.makeFirst (p :: ps) = (d', .error e)) : d'.isDirectory p = false := by
  induction ps generalizing p d' e with
  | nil =>
    obtain ⟨hp, htry⟩ := makeFirst_error h
    rcases htry with ⟨d₁, htry⟩ | hparents
    · exact isDirectory_tryDirectory htry
    · cases hparents
  | cons q rest ih =>
    obtain ⟨hp, htry⟩ := makeFirst_error h
    rcases htry with ⟨d₁, htry⟩ | hparents
    · exact isDirectory_tryDirectory htry
    obtain ⟨hheads, hrest⟩ := List.isChain_cons_cons.mp hc
    have ho' : d'.Ordered := by
      have hsettles := makeFirst_settles (S := fun _ => False) ho (q :: rest)
      rw [hparents] at hsettles
      exact hsettles.ordered
    by_contra hd
    have habove := isDirectory_of_heads ho' hheads (makeFirst_error hparents).1 (by simpa using hd)
    rw [ih hrest hparents] at habove
    cases habove

/-- A name under which there is nothing in a directory. -/
theorem plain_of_walk_none {links : Nat} {here : Place} {slash : Bool} {n : Name} (ht : d.IsTree)
    (hh : d.look? here = some .directory)
    (h : walk d .name links here slash [n] = .ok ⟨place, none⟩) :
    n ≠ ['.'] ∧ n ≠ ['.', '.'] ∧ ¬maxName < width n ∧ place = here ++ [n] := by
  rw [walk] at h
  split at h
  · rw [walk, hh] at h
    cases h
  split at h
  · rw [walk, ht.dropLast hh] at h
    cases h
  split at h
  · cases h
  split at h
  · cases h
  rename_i hdot hup _ hlong
  refine ⟨hdot, hup, hlong, ?_⟩
  rcases hl : d.look? (here ++ [n]) with _ | ⟨id, content⟩ | _ | target
  · simp only [hl] at h
    cases h
    rfl
  · simp [hl] at h
  · simp [hl, walk] at h
  · simp [hl] at h

/-- A directory that is made is there. -/
theorem stat_makeDirectory (ho : d.Ordered) (h : d.makeDirectory p = .ok d') :
    ∃ place, d.look? place = none ∧ d' = d.set place .directory ∧ d'.stat p = .ok (place, .directory) := by
  have hkeeps := makeDirectory_keeps h
  obtain ⟨place, hfind, rfl⟩ := makeDirectory_ok h
  have hnone : d.look? place = none := (entry_of_find hfind).symm
  have hplace : place ≠ [] := by
    rintro rfl
    cases hnone
  have hmade := look?_set_self d hplace .directory
  refine ⟨place, hnone, rfl, stat_of_find ?_⟩
  have hwalk := walk_of_find hfind
  have hstart := ho.start p
  apply find_of_walk hfind
  rw [hkeeps.start]
  rcases List.eq_nil_or_concat' (names p) with hnil | ⟨front, n, hn⟩
  · rw [hnil, walk] at hwalk
    cases hstart.symm.trans (Spot.mk.inj (Except.ok.inj hwalk)).2
  rw [hn] at hwalk ⊢
  obtain ⟨links, base, hleads, hwalk⟩ := leads_of_walk (by simp) hwalk
  have hbase := hleads.directory ho.parents hstart
  have hleads' : Leads (d.set place .directory) maxLinks (d.start p) front links base :=
    hleads.mono hkeeps.directories fun q target => (hkeeps.links q target).mpr
  obtain ⟨hdot, hup, hshort, rfl⟩ := plain_of_walk_none ho.parents hbase hwalk
  rw [hleads'.walk_append (by simp), walk, if_neg hdot, if_neg hup, if_neg (by simp), if_neg hshort]
  simp only [hmade]
  rw [walk, hmade]

/-- Directories were added, each of them where one of some paths leads. -/
structure Widens (ps : List Path) (d d' : Disk) : Prop where
  keeps : Keeps d d'
  ordered : d'.Ordered
  look : ∀ place, d'.look? place = d.look? place ∨ d.look? place = none ∧
    ∃ p ∈ ps, d'.stat p = .ok (place, .directory)

theorem Widens.refl (ho : d.Ordered) (ps : List Path) : Widens ps d d := ⟨.refl d, ho, fun _ => .inl rfl⟩

theorem Widens.makeDirectory {d'' : Disk} (h : Widens ps d d') (hp : p ∈ ps)
    (hm : d'.makeDirectory p = .ok d'') : Widens ps d d'' := by
  have hkeeps := makeDirectory_keeps hm
  have hsettles : Settles (fun _ => False) d' d'' := makeDirectory_settles h.ordered hm
  obtain ⟨made, hnone, rfl, hstat⟩ := stat_makeDirectory h.ordered hm
  refine ⟨h.keeps.trans hkeeps, hsettles.ordered, fun place => ?_⟩
  by_cases hplace : place = made
  · subst hplace
    rcases h.look place with hsame | ⟨hnone', -⟩
    · exact .inr ⟨hsame ▸ hnone, p, hp, hstat⟩
    · exact .inr ⟨hnone', p, hp, hstat⟩
  · rw [look?_set_of_ne d' hplace]
    rcases h.look place with hsame | ⟨hnone', q, hq, hstat'⟩
    · exact .inl hsame
    · refine .inr ⟨hnone', q, hq, hkeeps.stat hstat' ?_⟩
      rw [look?_set_of_ne d' hplace]
      exact (entry_of_find (find_of_stat hstat')).symm

theorem makeFirst_widens (ho : d.Ordered) (ps : List Path) : Widens ps d (d.makeFirst ps).1 :=
  makeFirst_induction_mem (fun hp h hm => h.makeDirectory hp hm) (.refl ho ps)

end Disk

end UnitCache
