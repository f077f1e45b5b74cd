import Mathlib
import UnitCache.Proofs.DiskBelow

namespace UnitCache.Disk

variable {d d' : Disk} {p q root : Path} {base place source target : Place} {ms : List Name}
  {content : Bytes}

def contentAt? (d : Disk) (place : Place) : Option Bytes :=
  match d.look? place with
  | some (.file _ content) => some content
  | _ => none

theorem contentAt?_of_look? {id : FileId} (h : d.look? place = some (.file id content)) :
    d.contentAt? place = some content := by
  rw [contentAt?, h]

theorem look?_of_contentAt? (h : d.contentAt? place = some content) :
    ∃ id, d.look? place = some (.file id content) := by
  unfold contentAt? at h
  split at h
  · rename_i id c hf
    exact ⟨id, Option.some.inj h ▸ hf⟩
  · cases h

theorem find_of_read (h : d.read p = .ok content) : ∃ spot, d.find .target p = .ok spot := by
  unfold read openAt stat at h
  cases hf : d.find .target p with
  | error e =>
    rw [hf] at h
    cases h
  | ok spot => exact ⟨spot, rfl⟩

/-- Reading a path that leads down to a place gives what stands there. -/
theorem read_of_find {e : Option Entry} (h : d.find .target p = .ok ⟨place, e⟩)
    (he : e = d.look? place) : d.read p = .ok content ↔ d.contentAt? place = some content := by
  subst he
  rw [read, openAt, stat, h, contentAt?]
  rcases d.look? place with _ | ⟨id, c⟩ | _ | t
  · simp [bind, Except.bind]
  · simp [bind, Except.bind, Opened.read]
  · simp [bind, Except.bind, Opened.read]
  · simp [bind, Except.bind]

/-- A walk ends at a place with what stands there. -/
theorem entry_of_walk {last : Last} {links : Nat} {here : Place} {slash : Bool} {ns : List Name}
    {spot : Spot} (h : walk d last links here slash ns = .ok spot) :
    spot.entry = d.look? spot.place := by
  fun_induction walk d last links here slash ns with
  | case1 => exact Except.ok.inj h ▸ rfl
  | case2 _ _ _ _ ih => exact ih h
  | _ => grind

theorem entry_of_find {last : Last} {spot : Spot} (h : d.find last p = .ok spot) :
    spot.entry = d.look? spot.place := by
  unfold find at h
  split at h
  · cases h
  · split at h
    · cases h
    · split at h
      · cases h
      · exact entry_of_walk h

/-- What stands below the root is listed. -/
theorem mem_entries {e : Entry} (h : d.look? place = some e) (hp : place ≠ []) :
    (place, e) ∈ d.entries := by
  rw [look?, if_neg hp] at h
  obtain ⟨x, hx, he⟩ := Option.map_eq_some_iff.mp h
  have hplace : x.1 = place := by simpa using List.find?_some hx
  have hm := List.mem_of_find?_eq_some hx
  rwa [← he, ← hplace]

theorem mem_of_look? {id : FileId} (h : d.look? place = some (.file id content)) :
    (place, .file id content) ∈ d.entries := by
  refine mem_entries h ?_
  rintro rfl
  cases h

/-- What is read is the content of a file of the tree. -/
theorem mem_of_read (h : d.read p = .ok content) : ∃ x ∈ d.entries, ∃ id, x.2 = .file id content := by
  obtain ⟨spot, hf⟩ := find_of_read h
  obtain ⟨id, hl⟩ := look?_of_contentAt? ((read_of_find hf (entry_of_find hf)).mp h)
  exact ⟨_, mem_of_look? hl, id, rfl⟩

theorem look?_setContent (d : Disk) (h : place ≠ []) (content : Bytes) :
    ∃ id, (d.setContent place content).look? place = some (.file id content) := by
  unfold setContent
  split
  · exact ⟨_, look?_set_self d h _⟩
  · exact ⟨d.nextId, look?_set_self d h _⟩

theorem look?_setContent_of_ne (d : Disk) {there : Place} (h : there ≠ place) (content : Bytes) :
    (d.setContent place content).look? there = d.look? there := by
  unfold setContent
  split
  · exact look?_set_of_ne d h _
  · exact look?_set_of_ne d h _

theorem cwd_setContent (d : Disk) (place : Place) (content : Bytes) :
    (d.setContent place content).cwd = d.cwd := by
  unfold setContent
  split <;> rfl

theorem write_ok (h : d.write p content = .ok d') : ∃ place e, d.find .writable p = .ok ⟨place, e⟩ ∧
    e ≠ some .directory ∧ d' = d.setContent place content := by
  unfold write at h
  split at h
  · cases h
  · cases h
  · rename_i place e hne hf
    cases h
    exact ⟨place, e, hf, hne, rfl⟩

def move (d : Disk) (source target : Place) (e : Entry) : Disk :=
  if source = target then d
  else { d.release target with
    entries := (d.release target).entries.filter (fun x => x.1 ≠ source) }.set target e

theorem rename_ok (h : d.rename p q = .ok d') : ∃ source e target e',
    d.find .name p = .ok ⟨source, some e⟩ ∧ d.find .name q = .ok ⟨target, e'⟩ ∧
      e ≠ .directory ∧ e' ≠ some .directory ∧ d' = d.move source target e := by
  unfold rename at h
  split at h
  case h_6 source e target e' hne hne' hp hq =>
    refine ⟨source, e, target, e', hp, hq, hne, hne', ?_⟩
    rw [move]
    split at h
    · rename_i hs
      rw [if_pos hs]
      cases h
      rfl
    · rename_i hs
      rw [if_neg hs]
      cases h
      rfl
  all_goals cases h

theorem entries_release (d : Disk) (place : Place) : (d.release place).entries = d.entries := by
  unfold release
  split <;> rfl

theorem lookup_filter_self (es : List (Place × Entry)) (place : Place) :
    lookup (es.filter (fun x => x.1 ≠ place)) place = none := by
  rw [lookup, Option.map_eq_none_iff, List.find?_eq_none]
  intro x hx
  simpa using (List.mem_filter.mp hx).2

theorem look?_move (d : Disk) (hs : source ≠ []) (ht : target ≠ []) (hne : source ≠ target)
    (e : Entry) (place : Place) : (d.move source target e).look? place =
      if place = target then some e else if place = source then none else d.look? place := by
  rw [move, if_neg hne]
  split
  · rename_i hp
    rw [hp, look?_set_self _ ht]
  · rename_i hp
    rw [look?_set_of_ne _ hp]
    by_cases hsrc : place = source
    · subst hsrc
      rw [if_pos rfl, look?, if_neg hs]
      exact lookup_filter_self _ _
    · rw [if_neg hsrc, look?, look?]
      refine ite_congr rfl (fun _ => rfl) fun _ => ?_
      rw [← entries_release d target]
      exact lookup_filter_ne _ hsrc

theorem cwd_move (d : Disk) (source target : Place) (e : Entry) :
    (d.move source target e).cwd = d.cwd := by
  unfold move release
  split
  · rfl
  · split <;> rfl

theorem makeDirectory_ok (h : d.makeDirectory p = .ok d') :
    ∃ place, d.find .name p = .ok ⟨place, none⟩ ∧ d' = d.set place .directory := by
  unfold makeDirectory at h
  split at h
  · cases h
  · cases h
  · rename_i place hf
    cases h
    exact ⟨place, hf, rfl⟩

theorem makeDirectory_notFound (h : d.makeDirectory p = .error .notFound) :
    d.find .name p = .error .notFound := by
  unfold makeDirectory at h
  split at h
  · rename_i e hf
    cases h
    exact hf
  · cases h
  · cases h

/-- The ways in which making a directory after those that it needs goes well. -/
theorem makeFirst_cons_ok {parents : List Path} (hp : p.chars ≠ [])
    (h : d.makeFirst (p :: parents) = (d', .ok ())) :
    d.makeDirectory p = .ok d' ∨ d' = d ∧ d.isDirectory p = true ∨
      (d.makeDirectory p = .error .notFound ∧ ∃ d₁, d.makeFirst parents = (d₁, .ok ()) ∧
        (d₁.makeDirectory p = .ok d' ∨ d' = d₁ ∧ d₁.isDirectory p = true)) := by
  have hthere {d d' : Disk} {e : Fault}
      (h : (d, if d.isDirectory p then .ok () else .error e) = (d', Except.ok ())) :
      d' = d ∧ d.isDirectory p = true := by
    obtain ⟨rfl, hr⟩ := Prod.mk.inj h
    split at hr
    · exact ⟨rfl, ‹_›⟩
    · cases hr
  rw [makeFirst, if_neg (by simpa [Path.isEmpty] using hp)] at h
  split at h
  · rename_i d₁ hd
    cases h
    exact .inl hd
  · rename_i hd
    refine .inr (.inr ⟨hd, ?_⟩)
    split at h
    · cases h
    · rename_i d₁ hf
      refine ⟨d₁, hf, ?_⟩
      split at h
      · rename_i d₂ hd₂
        cases h
        exact .inl hd₂
      · exact .inr (hthere h)
  · exact .inr (.inl (hthere h))

/-- What is kept when one of some directories is made is kept when they are made, however that ends. -/
theorem makeFirst_induction_mem {P : Disk → Prop} {ps : List Path}
    (step : ∀ {d d' : Disk} {p : Path}, p ∈ ps → P d → d.makeDirectory p = .ok d' → P d') (h : P d) :
    P (d.makeFirst ps).1 := by
  induction ps with
  | nil => exact h
  | cons p parents ih =>
    have hparents := ih fun hm => step (List.mem_cons_of_mem _ hm)
    rw [makeFirst]
    split
    · exact h
    split
    · rename_i d₁ hd
      exact step List.mem_cons_self h hd
    · split
      · rename_i d₁ e hf
        rw [hf] at hparents
        exact hparents
      · rename_i d₁ hf
        rw [hf] at hparents
        split
        · rename_i d₂ hd
          exact step List.mem_cons_self hparents hd
        · exact hparents
    · exact h

theorem makeFirst_induction {P : Disk → Prop}
    (step : ∀ {d d' : Disk} {p : Path}, P d → d.makeDirectory p = .ok d' → P d') (h : P d)
    (ps : List Path) : P (d.makeFirst ps).1 :=
  makeFirst_induction_mem (fun _ => step) h

/-- A file or nothing: what may come and go without changing where paths lead. -/
def IsLoose : Option Entry → Prop
  | none => True
  | some (.file _ _) => True
  | _ => False

theorem isLoose_of_ne {e : Option Entry} (hd : e ≠ some .directory)
    (hl : ∀ target, e ≠ some (.link target)) : IsLoose e := by
  rcases e with _ | ⟨id, c⟩ | _ | t
  · trivial
  · trivial
  · exact absurd rfl hd
  · exact absurd rfl (hl t)

theorem Keeps.of_loose (hc : d'.cwd = d.cwd)
    (h : ∀ p, d'.look? p = d.look? p ∨ IsLoose (d.look? p) ∧ IsLoose (d'.look? p)) : Keeps d d' := by
  refine ⟨hc, fun p hp => ?_, fun p target => ?_⟩
  · rcases h p with he | ⟨hl, -⟩
    · rw [he, hp]
    · rw [hp] at hl
      exact hl.elim
  · rcases h p with he | ⟨hl, hl'⟩
    · rw [he]
    · constructor <;> intro ht
      · rw [ht] at hl'
        exact hl'.elim
      · rw [ht] at hl
        exact hl.elim

theorem keeps_setContent (hne : place ≠ []) (h : IsLoose (d.look? place)) (content : Bytes) :
    Keeps d (d.setContent place content) := by
  refine .of_loose (cwd_setContent d place content) fun p => ?_
  by_cases hp : p = place
  · subst hp
    obtain ⟨id, hs⟩ := look?_setContent d hne content
    exact .inr ⟨h, hs ▸ trivial⟩
  · exact .inl (look?_setContent_of_ne d hp content)

theorem keeps_move (hs : source ≠ []) (ht : target ≠ []) (hne : source ≠ target) {id : FileId}
    (hf : d.look? source = some (.file id content)) (hl : IsLoose (d.look? target)) :
    Keeps d (d.move source target (.file id content)) := by
  refine .of_loose (cwd_move d source target _) fun p => ?_
  have hp := look?_move d hs ht hne (.file id content) p
  split at hp
  · rename_i h
    exact .inr ⟨h ▸ hl, hp ▸ trivial⟩
  · split at hp
    · rename_i h
      exact .inr ⟨by rw [h, hf]; trivial, hp ▸ trivial⟩
    · exact .inl hp

/-- What stands at a place after two changes, each of which leaves it or makes a directory there. -/
theorem added_trans {e e' e'' : Option Entry} {P : Prop}
    (h : e' = e ∨ e = none ∧ e' = some .directory ∧ P)
    (h' : e'' = e' ∨ e' = none ∧ e'' = some .directory ∧ P) :
    e'' = e ∨ e = none ∧ e'' = some .directory ∧ P := by
  rcases h' with rfl | ⟨hn, hd, hp⟩
  · exact h
  · rcases h with rfl | ⟨-, hd', -⟩
    · exact .inr ⟨hn, hd, hp⟩
    · cases hn.symm.trans hd'

structure Made (base : Place) (ms : List Name) (d d' : Disk) : Prop where
  cwd : d'.cwd = d.cwd
  look : ∀ place, d'.look? place = d.look? place ∨
    d.look? place = none ∧ d'.look? place = some .directory ∧
      ∃ front, front ≠ [] ∧ front <+: ms ∧ place = base ++ front

namespace Made

theorem refl (base : Place) (ms : List Name) (d : Disk) : Made base ms d d := ⟨rfl, fun _ => .inl rfl⟩

theorem trans {d'' : Disk} (h : Made base ms d d') (h' : Made base ms d' d'') :
    Made base ms d d'' :=
  ⟨h'.cwd.trans h.cwd, fun place => added_trans (h.look place) (h'.look place)⟩

theorem mono {ns : List Name} (h : Made base ms d d') (hp : ms <+: ns) : Made base ns d d' := by
  refine ⟨h.cwd, fun place => (h.look place).imp_right ?_⟩
  rintro ⟨hn, hd, front, hne, hf, he⟩
  exact ⟨hn, hd, front, hne, hf.trans hp, he⟩

theorem keeps (h : Made base ms d d') : Keeps d d' := by
  refine ⟨h.cwd, fun place hp => ?_, fun place target => ?_⟩
  · rcases h.look place with hs | ⟨hn, -, -⟩
    · rw [hs, hp]
    · exact absurd (hn.symm.trans hp) (by simp)
  · rcases h.look place with hs | ⟨hn, hd, -⟩
    · rw [hs]
    · simp [hn, hd]

theorem set (hne : ms ≠ []) (hn : d.look? (base ++ ms) = none) :
    Made base ms d (d.set (base ++ ms) .directory) := by
  refine ⟨rfl, fun place => ?_⟩
  by_cases hp : place = base ++ ms
  · subst hp
    exact .inr ⟨hn, look?_set_self d (by simp [hne]) _, ms, hne, List.prefix_rfl, rfl⟩
  · exact .inl (look?_set_of_ne d hp _)

end Made

theorem makeDirectory_made (h : Rooted d root base) (hm : ∀ m ∈ ms, IsProper m) (hne : ms ≠ [])
    (hr : d.makeDirectory (root.below ms) = .ok d') : Made base ms d d' := by
  obtain ⟨place, hf, rfl⟩ := makeDirectory_ok hr
  have hp := Path.below_ne_nil h.ne_nil fun m hmem => (hm m hmem).toIsPiece
  rw [h.find_below hm hne (legible_of_find hp (.inl ⟨_, hf⟩))] at hf
  obtain ⟨rfl, hn⟩ := Spot.mk.inj (descend_ok hf)
  exact .set hne hn.symm

/-- Making the directory that some names lead to from a root, with its parents. -/
theorem makeFirst_made (h : Rooted d root base) (hm : ∀ m ∈ ms, IsProper m) (hne : ms ≠ [])
    (hr : d.makeFirst (root.below ms).ancestors = (d', .ok ())) : Made base ms d d' := by
  induction ms using List.reverseRecOn generalizing d' with
  | nil => exact absurd rfl hne
  | append_singleton ms m ih =>
    have hfront (n : Name) (hn : n ∈ ms) : IsProper n := hm n (List.mem_append_left _ hn)
    have hp := Path.below_ne_nil h.ne_nil fun n hn => (hm n hn).toIsPiece
    rcases makeFirst_cons_ok hp hr with hd | ⟨rfl, -⟩ | ⟨hd, d₁, hf, hr'⟩
    · exact makeDirectory_made h hm hne hd
    · exact .refl base _ d'
    · -- Something is missing above, which is not the root.
      have hmiss := makeDirectory_notFound hd
      rw [h.find_below hm hne (legible_of_find hp (.inr hmiss))] at hmiss
      have hms : ms ≠ [] := fun hnil => descend_single_ne d base m (by simpa [hnil] using hmiss)
      have hanc := Path.ancestors_below root (fun n hn => (hm n hn).toIsNamed) hms
      rw [List.cons.inj hanc |>.2] at hf
      have hmade := (ih hfront hms hf).mono (List.prefix_append ms [m])
      rcases hr' with hd' | ⟨rfl, -⟩
      · exact hmade.trans (makeDirectory_made (h.keep hmade.keeps) hm hne hd')
      · exact hmade

end UnitCache.Disk
