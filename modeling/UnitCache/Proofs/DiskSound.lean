import UnitCache.Proofs.ReadBack

namespace UnitCache

def Entry.isNumbered (k : FileId) : Entry → Bool
  | .file id _ => id < k
  | .directory => true
  | .link _ => false

def Entry.agrees : Entry → Entry → Bool
  | .file id a, .file id' b => id ≠ id' || a = b
  | _, _ => true

namespace Disk

variable {d d' : Disk} {p q : Path} {place there source target : Place} {id : FileId}
  {content : Bytes} {last : Last} {n : Name}

/-- A tree without links in which all that stands somewhere can be reached. What is listed for a
place stands there, a file has one content under all its names, and its number is not given away
again. -/
structure Sound (d : Disk) : Prop where
  linkless : d.Linkless
  parents : d.IsTree
  cwd : d.look? d.cwd = some .directory
  placed : ∀ x ∈ d.entries, d.look? x.1 = some x.2
  shared : ∀ p q id a b, d.look? p = some (.file id a) → d.look? q = some (.file id b) → a = b
  numbered : ∀ p id content, d.look? p = some (.file id content) → id < d.nextId
  nameless : ∀ x ∈ d.nameless, x.1 < d.nextId

def isSound (d : Disk) : Bool :=
  d.look? d.cwd = some .directory && d.nameless.all (fun x => x.1 < d.nextId) &&
    d.entries.all fun x => d.look? x.1 = some x.2 && d.look? x.1.dropLast = some .directory &&
      x.2.isNumbered d.nextId && d.entries.all (fun y => x.2.agrees y.2)

def lost? (d : Disk) (id : FileId) : Option Bytes :=
  (d.nameless.find? (fun x => x.1 = id)).map (·.2)

def IsNamed (d : Disk) (id : FileId) : Prop := ∃ place content, d.look? place = some (.file id content)

/-- What a file holds that is open, with or without a name, it goes on holding. -/
def Retains (d d' : Disk) : Prop :=
  ∀ id content, d.contentOf? id = some content → d'.contentOf? id = some content

structure Ordered (d : Disk) : Prop where
  parents : d.IsTree
  cwd : d.look? d.cwd = some .directory
  placed : ∀ x ∈ d.entries, d.look? x.1 = some x.2
  shared : ∀ p q id a b, d.look? p = some (.file id a) → d.look? q = some (.file id b) → a = b
  numbered : ∀ p id content, d.look? p = some (.file id content) → id < d.nextId
  nameless : ∀ x ∈ d.nameless, x.1 < d.nextId

theorem Sound.ordered (h : d.Sound) : d.Ordered :=
  ⟨h.parents, h.cwd, h.placed, h.shared, h.numbered, h.nameless⟩

theorem Ordered.sound (h : d.Ordered) (hl : d.Linkless) : d.Sound :=
  ⟨hl, h.parents, h.cwd, h.placed, h.shared, h.numbered, h.nameless⟩

namespace IsTree

/-- The directory above a directory is one. -/
theorem dropLast (h : d.IsTree) (hd : d.look? place = some .directory) :
    d.look? place.dropLast = some .directory := by
  rcases List.eq_nil_or_concat' place with rfl | ⟨above, n, rfl⟩
  · exact hd
  · rw [List.dropLast_concat]
    exact h above n (by simp [hd])

/-- What stands somewhere has directories on the way to it. -/
theorem directory_of_prefix (h : d.IsTree) (hp : place <+: there) (hne : place ≠ there)
    (ht : d.look? there ≠ none) : d.look? place = some .directory := by
  induction there using List.reverseRecOn with
  | nil => exact absurd (List.prefix_nil.mp hp) hne
  | append_singleton above n ih =>
    have habove := h above n ht
    rcases List.prefix_concat_iff.mp hp with he | hp
    · exact absurd he hne
    · by_cases he : place = above
      · rw [he, habove]
      · exact ih hp he (by simp [habove])

theorem grounded (h : d.IsTree) (hd : d.look? place = some .directory) : Grounded d place := by
  intro above hp
  by_cases he : above = place
  · rw [he, hd]
  · exact h.directory_of_prefix hp he (by simp [hd])

end IsTree

namespace Sound

/-- Whether a tree is in order is seen by its entries. -/
theorem iff_isSound : d.Sound ↔ d.isSound = true := by
  simp only [isSound, Bool.and_eq_true, List.all_eq_true, decide_eq_true_eq]
  constructor
  · intro h
    refine ⟨⟨h.cwd, h.nameless⟩, fun x hx => ⟨⟨⟨h.placed x hx, ?_⟩, ?_⟩, fun y hy => ?_⟩⟩
    · rcases List.eq_nil_or_concat' x.1 with hx | ⟨above, n, hp⟩
      · rw [hx]
        rfl
      · rw [hp, List.dropLast_concat]
        exact h.parents above n (by simp [← hp, h.placed x hx])
    · have hl := h.placed x hx
      cases he : x.2 with
      | directory => rfl
      | link target => exact absurd (he ▸ hl) (h.linkless _ _)
      | file id content => simpa [Entry.isNumbered] using h.numbered _ _ _ (he ▸ hl)
    · have hl := h.placed x hx
      have hl' := h.placed y hy
      unfold Entry.agrees
      split
      · rename_i id a id' b he he'
        rw [he] at hl
        rw [he'] at hl'
        by_cases hid : id = id'
        · subst hid
          simp [h.shared _ _ _ _ _ hl hl']
        · simp [hid]
      · rfl
  · rintro ⟨⟨hcwd, hnameless⟩, hall⟩
    refine ⟨fun place target hl => ?_, fun place n hl => ?_, hcwd, fun x hx => (hall x hx).1.1.1,
      fun p q id a b hp hq => ?_, fun p id content hp => ?_, hnameless⟩
    · have hne : d.look? place ≠ some .directory := by simp [hl]
      cases (hall _ (mem_entries hl (ne_root hne))).1.2
    · obtain ⟨e, he⟩ := Option.ne_none_iff_exists'.mp hl
      simpa using (hall _ (mem_entries he (by simp))).1.1.2
    · simpa [Entry.agrees] using (hall _ (mem_of_look? hp)).2 _ (mem_of_look? hq)
    · simpa [Entry.isNumbered] using (hall _ (mem_of_look? hp)).1.2

instance : Decidable d.Sound := decidable_of_iff _ iff_isSound.symm

end Sound

/-- What an open file holds is what it holds under its names, or what is kept of it without one. -/
theorem Ordered.contentOf?_iff (h : d.Ordered) : d.contentOf? id = some content ↔
    (∃ place, d.look? place = some (.file id content)) ∨
      ¬d.IsNamed id ∧ d.lost? id = some content := by
  unfold contentOf?
  dsimp only
  generalize hn : d.entries.findSome? _ = named
  cases named with
  | none =>
    rw [List.findSome?_eq_none_iff] at hn
    have hno : ¬d.IsNamed id := by
      rintro ⟨place, content, hl⟩
      simpa using hn _ (mem_of_look? hl)
    constructor
    · exact fun hc => .inr ⟨hno, hc⟩
    · rintro (⟨place, hl⟩ | ⟨-, hc⟩)
      · exact absurd ⟨place, content, hl⟩ hno
      · exact hc
  | some c =>
    obtain ⟨⟨place, e⟩, hx, he⟩ := List.exists_of_findSome?_eq_some hn
    have hplaced := h.placed _ hx
    cases e with
    | directory => cases he
    | link target => cases he
    | file i content' =>
      simp only [Option.ite_none_right_eq_some, Option.some.injEq] at he
      obtain ⟨rfl, rfl⟩ := he
      constructor
      · intro hc
        cases hc
        exact .inl ⟨place, hplaced⟩
      · rintro (⟨place', hl⟩ | ⟨hno, -⟩)
        · exact congrArg some (h.shared _ _ _ _ _ hplaced hl)
        · exact absurd ⟨place, content', hplaced⟩ hno

/-- Open files keep what they hold if no number is given to another file, names go on, and what has
lost its names is kept. -/
theorem Retains.of_files (h : d.Ordered) (h' : d'.Ordered)
    (hfrom : ∀ p id c, d'.look? p = some (.file id c) →
      (∃ q, d.look? q = some (.file id c)) ∨ d.nextId ≤ id)
    (hgone : ∀ p id c, d.look? p = some (.file id c) →
      (∃ q, d'.look? q = some (.file id c)) ∨ d'.lost? id = some c)
    (hlost : ∀ id, ¬d.IsNamed id → d'.lost? id = d.lost? id) : Retains d d' := by
  intro id content hc
  rw [h'.contentOf?_iff]
  have hold {p : Place} {c : Bytes} (hl : d'.look? p = some (.file id c)) (hb : id < d.nextId) :
      ∃ q, d.look? q = some (.file id c) := (hfrom p id c hl).resolve_right (Nat.not_le.mpr hb)
  rcases h.contentOf?_iff.mp hc with ⟨place, hl⟩ | ⟨hno, hk⟩
  · by_cases hn : d'.IsNamed id
    · obtain ⟨there, c, hl'⟩ := hn
      obtain ⟨q, hq⟩ := hold hl' (h.numbered _ _ _ hl)
      exact .inl ⟨there, h.shared _ _ _ _ _ hq hl ▸ hl'⟩
    · refine (hgone place id content hl).imp_right fun hk => ⟨hn, hk⟩
  · refine .inr ⟨?_, by rw [hlost id hno, hk]⟩
    rintro ⟨there, c, hl'⟩
    have hb : id < d.nextId := by
      obtain ⟨x, hx, -⟩ := Option.map_eq_some_iff.mp hk
      have hid : x.1 = id := by simpa using List.find?_some hx
      exact hid ▸ h.nameless x (List.mem_of_find?_eq_some hx)
    obtain ⟨q, hq⟩ := hold hl' hb
    exact hno ⟨q, c, hq⟩

def put (d : Disk) (place : Place) (e : Entry) (nextId : FileId) : Disk :=
  { d.set place e with nextId }

theorem look?_put (d : Disk) (h : place ≠ []) (e : Entry) (k : FileId) (there : Place) :
    (d.put place e k).look? there = if there = place then some e else d.look? there := by
  split
  · rename_i ht
    rw [ht]
    exact look?_set_self d h e
  · rename_i ht
    exact look?_set_of_ne d ht e

structure Fresh (d : Disk) (place : Place) (e : Entry) (k : FileId) : Prop where
  nothing : d.look? place = none
  above : ∃ above n, place = above ++ [n] ∧ d.look? above = some .directory
  no_link : ∀ target, e ≠ .link target
  later : d.nextId ≤ k
  number : ∀ id content, e = .file id content → d.nextId ≤ id ∧ id < k

namespace Fresh

variable {e : Entry} {k : FileId}

theorem ne_nil (h : Fresh d place e k) : place ≠ [] := by
  rintro rfl
  cases h.nothing

theorem look? (h : Fresh d place e k) (there : Place) :
    (d.put place e k).look? there = if there = place then some e else d.look? there :=
  look?_put d h.ne_nil e k there

/-- What stood somewhere still stands there. -/
theorem look?_of_ne_none (h : Fresh d place e k) (ht : d.look? there ≠ none) :
    (d.put place e k).look? there = d.look? there := by
  rw [h.look?, if_neg]
  rintro rfl
  exact ht h.nothing

theorem file (h : Fresh d place e k) {p : Place} {id : FileId} {c : Bytes}
    (hp : (d.put place e k).look? p = some (.file id c)) :
    d.look? p = some (.file id c) ∨ p = place ∧ e = .file id c := by
  rw [h.look?] at hp
  split at hp
  · rename_i he
    exact .inr ⟨he, Option.some.inj hp⟩
  · exact .inl hp

theorem ordered (h : Fresh d place e k) (hs : d.Ordered) : (d.put place e k).Ordered where
  parents p n hp := by
    rw [h.look?] at hp
    have hdir : d.look? p = some .directory := by
      split at hp
      · rename_i he
        obtain ⟨above, m, rfl, ha⟩ := h.above
        rw [(List.append_inj' he rfl).1, ha]
      · exact hs.parents p n hp
    rw [h.look?_of_ne_none (by simp [hdir]), hdir]
  cwd := by
    have hcwd : d.look? (d.put place e k).cwd = some .directory := hs.cwd
    rw [h.look?_of_ne_none (by simp [hcwd]), hcwd]
  placed x hx := by
    rcases List.mem_cons.mp hx with rfl | hx
    · exact (h.look? _).trans (if_pos rfl)
    · obtain ⟨hx, hne⟩ := List.mem_filter.mp hx
      rw [h.look?, if_neg (by simpa using hne)]
      exact hs.placed x hx
  shared p q id a b hp hq := by
    rcases h.file hp with hp | ⟨-, he⟩ <;> rcases h.file hq with hq | ⟨-, he'⟩
    · exact hs.shared _ _ _ _ _ hp hq
    · exact absurd (hs.numbered _ _ _ hp) (Nat.not_lt.mpr (h.number _ _ he').1)
    · exact absurd (hs.numbered _ _ _ hq) (Nat.not_lt.mpr (h.number _ _ he).1)
    · exact (Entry.file.inj (he.symm.trans he')).2
  numbered p id c hp := by
    rcases h.file hp with hp | ⟨-, he⟩
    · exact Nat.lt_of_lt_of_le (hs.numbered _ _ _ hp) h.later
    · exact (h.number _ _ he).2
  nameless x hx := Nat.lt_of_lt_of_le (hs.nameless x hx) h.later

theorem sound (h : Fresh d place e k) (hs : d.Sound) : (d.put place e k).Sound := by
  refine (h.ordered hs.ordered).sound fun p target hp => ?_
  rw [h.look?] at hp
  split at hp
  · exact h.no_link target (Option.some.inj hp)
  · exact hs.linkless p target hp

theorem retains (h : Fresh d place e k) (hs : d.Ordered) : Retains d (d.put place e k) := by
  refine .of_files hs (h.ordered hs) (fun p id c hp => ?_) (fun p id c hp => ?_) fun id _ => rfl
  · exact (h.file hp).imp (fun hp => ⟨p, hp⟩) fun ⟨_, he⟩ => (h.number _ _ he).1
  · exact .inl ⟨p, by rw [h.look?_of_ne_none (by simp [hp]), hp]⟩

end Fresh

structure Moving (d : Disk) (source target : Place) (id : FileId) (content : Bytes) : Prop where
  apart : source ≠ target
  file : d.look? source = some (.file id content)
  loose : d.look? target ≠ some .directory
  above : ∃ above n, target = above ++ [n] ∧ d.look? above = some .directory

theorem nameless_move (d : Disk) (h : source ≠ target) (e : Entry) :
    (d.move source target e).nameless = (d.release target).nameless := by
  rw [move, if_neg h]
  rfl

theorem nextId_move (d : Disk) (source target : Place) (e : Entry) :
    (d.move source target e).nextId = d.nextId := by
  unfold move release
  split
  · rfl
  · split <;> rfl

theorem mem_nameless_release {x : FileId × Bytes} (h : x ∈ (d.release place).nameless) :
    d.look? place = some (.file x.1 x.2) ∨ x ∈ d.nameless := by
  unfold release at h
  split at h
  · rename_i id content hl
    rcases List.mem_cons.mp h with rfl | h
    · exact .inl hl
    · exact .inr h
  · exact .inr h

theorem lost?_release_self (h : d.look? place = some (.file id content)) :
    (d.release place).lost? id = some content := by
  rw [release, h, lost?]
  simp

theorem lost?_release_of_ne (h : ∀ content, d.look? place ≠ some (.file id content)) :
    (d.release place).lost? id = d.lost? id := by
  unfold release
  split
  · rename_i i content hl
    have hi : i ≠ id := fun he => h content (he ▸ hl)
    simp [lost?, hi]
  · rfl

namespace Moving

theorem source_ne_directory (h : Moving d source target id content) :
    d.look? source ≠ some .directory := by
  simp [h.file]

theorem look? (h : Moving d source target id content) (p : Place) :
    (d.move source target (.file id content)).look? p =
      if p = target then some (.file id content) else if p = source then none else d.look? p :=
  look?_move d (ne_root h.source_ne_directory) (ne_root h.loose) h.apart _ p

/-- Directories stay where they are. -/
theorem directory (h : Moving d source target id content) {p : Place} :
    (d.move source target (.file id content)).look? p = some .directory ↔
      d.look? p = some .directory := by
  rw [h.look?]
  split
  · rename_i hp
    simpa [hp] using h.loose
  split
  · rename_i hp
    simpa [hp] using h.source_ne_directory
  · rfl

/-- The files are those that there were. -/
theorem named (h : Moving d source target id content) {p : Place} {i : FileId} {c : Bytes}
    (hp : (d.move source target (.file id content)).look? p = some (.file i c)) :
    ∃ q, d.look? q = some (.file i c) := by
  rw [h.look?] at hp
  split at hp
  · cases hp
    exact ⟨source, h.file⟩
  split at hp
  · cases hp
  · exact ⟨p, hp⟩

theorem ordered (h : Moving d source target id content) (hs : d.Ordered) :
    (d.move source target (.file id content)).Ordered where
  parents p n hp := by
    rw [h.directory]
    rw [h.look?] at hp
    split at hp
    · rename_i he
      obtain ⟨above, m, rfl, ha⟩ := h.above
      rw [(List.append_inj' he rfl).1, ha]
    split at hp
    · exact absurd rfl hp
    · exact hs.parents p n hp
  cwd := by
    rw [cwd_move, h.directory]
    exact hs.cwd
  placed x hx := by
    rw [move, if_neg h.apart] at hx
    rcases List.mem_cons.mp hx with rfl | hx
    · rw [h.look?, if_pos rfl]
    · obtain ⟨hx, htarget⟩ := List.mem_filter.mp hx
      obtain ⟨hx, hsource⟩ := List.mem_filter.mp hx
      rw [h.look?, if_neg (by simpa using htarget), if_neg (by simpa using hsource)]
      exact hs.placed x (entries_release d target ▸ hx)
  shared p q i a b hp hq := by
    obtain ⟨p', hp'⟩ := h.named hp
    obtain ⟨q', hq'⟩ := h.named hq
    exact hs.shared _ _ _ _ _ hp' hq'
  numbered p i c hp := by
    obtain ⟨p', hp'⟩ := h.named hp
    rw [nextId_move]
    exact hs.numbered _ _ _ hp'
  nameless x hx := by
    rw [nameless_move d h.apart] at hx
    rw [nextId_move]
    rcases mem_nameless_release hx with hl | hx
    · exact hs.numbered _ _ _ hl
    · exact hs.nameless x hx

theorem sound (h : Moving d source target id content) (hs : d.Sound) :
    (d.move source target (.file id content)).Sound := by
  refine (h.ordered hs.ordered).sound fun p link hp => ?_
  rw [h.look?] at hp
  split at hp
  · cases hp
  split at hp
  · cases hp
  · exact hs.linkless p link hp

theorem retains (h : Moving d source target id content) (hs : d.Ordered) :
    Retains d (d.move source target (.file id content)) := by
  have hlost (i : FileId) : (d.move source target (.file id content)).lost? i =
      (d.release target).lost? i := by
    rw [lost?, nameless_move d h.apart]
    rfl
  refine .of_files hs (h.ordered hs) (fun p i c hp => .inl (h.named hp)) (fun p i c hp => ?_)
    fun i hi => ?_
  · by_cases ht : p = target
    · exact .inr (by rw [hlost, lost?_release_self (ht ▸ hp)])
    · by_cases hsource : p = source
      · rw [hsource, h.file] at hp
        cases hp
        exact .inl ⟨target, by rw [h.look?, if_pos rfl]⟩
      · exact .inl ⟨p, by rw [h.look?, if_neg ht, if_neg hsource, hp]⟩
  · rw [hlost, lost?_release_of_ne fun c hc => hi ⟨target, c, hc⟩]

end Moving

/-- Where a path ends at no directory there is a directory above. -/
theorem above_of_walk {links : Nat} {here : Place} {slash : Bool} {ns : List Name} {spot : Spot}
    (ht : d.IsTree) (hh : d.look? here = some .directory)
    (h : walk d last links here slash ns = .ok spot) (hne : spot.entry ≠ some .directory) :
    ∃ above n, spot.place = above ++ [n] ∧ d.look? above = some .directory := by
  fun_induction walk d last links here slash ns with
  | case1 links here slash =>
    cases h
    exact absurd hh hne
  | case2 links here slash rest ih => exact ih hh h
  | case3 links here slash rest hdot ih => exact ih (ht.dropLast hh) h
  | case8 links here slash n rest hdot hup hslash hlong place hf ih => exact ih hf h
  | case13 here slash n rest hdot hup hslash hlong place target hf hr links ih =>
    refine ih ?_ h
    split
    · rfl
    · exact hh
  | case6 | case9 | case11 =>
    cases h
    exact ⟨_, _, rfl, hh⟩
  | _ => cases h

theorem above_of_find {spot : Spot} (hs : d.Ordered) (hf : d.find last p = .ok spot)
    (hne : spot.entry ≠ some .directory) :
    ∃ above n, spot.place = above ++ [n] ∧ d.look? above = some .directory :=
  above_of_walk hs.parents ((hs.parents.grounded hs.cwd).start p (d.start p) List.prefix_rfl)
    (walk_of_find hf) hne

end Disk
end UnitCache
