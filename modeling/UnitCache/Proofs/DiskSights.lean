import UnitCache.Proofs.DiskGrowth

namespace UnitCache

inductive Sight where
  | file (content : Bytes)
  | directory
  | link (target : Path)
  deriving DecidableEq, Repr

def Entry.sight : Entry → Sight
  | .file _ content => .file content
  | .directory => .directory
  | .link target => .link target

namespace Disk

variable {d d' d'' : Disk} {here place : Place} {n : Name} {ms ns : List Name} {e : Fault}

def sight (d : Disk) (place : Place) : Option Sight := (d.look? place).map Entry.sight

theorem sight_eq_none : d.sight place = none ↔ d.look? place = none := Option.map_eq_none_iff

theorem sight_eq_directory : d.sight place = some .directory ↔ d.look? place = some .directory := by
  rw [sight]
  rcases d.look? place with _ | ⟨_, _⟩ | _ | _ <;> simp [Entry.sight]

theorem sight_of_look? (h : d'.look? place = d.look? place) : d'.sight place = d.sight place := by
  rw [sight, sight, h]

def Passable (d : Disk) (place : Place) : Prop :=
  d.sight place = none ∨ d.sight place = some .directory

instance : Decidable (d.Passable place) := inferInstanceAs (Decidable (_ ∨ _))

theorem Passable.of_look? (h : d.look? place = none ∨ d.look? place = some .directory) :
    d.Passable place := h.imp sight_eq_none.mpr sight_eq_directory.mpr

/-- Why there can be no directory of a name; `e` if it is because of what is there. -/
def obstacle (d : Disk) (e : Fault) (here : Place) (n : Name) : Option Fault :=
  if maxName < width n then some .nameTooLong
  else if d.Passable (here ++ [n]) then none
  else some e

theorem obstacle_ne_notFound (he : e ≠ .notFound) : d.obstacle e here n ≠ some .notFound := by
  unfold obstacle
  split
  · simp
  split
  · simp
  · simpa using he

def block (d : Disk) (here : Place) : List Name → Option Fault
  | [] => none
  | n :: ns => (d.obstacle .notDirectory here n).or (d.block (here ++ [n]) ns)

def fault (d : Disk) (here : Place) (ns : List Name) : Option Fault :=
  match ns.getLast? with
  | none => none
  | some n => (d.block here ns.dropLast).or (d.obstacle .exists (here ++ ns.dropLast) n)

@[simp] theorem block_nil (d : Disk) (here : Place) : d.block here [] = none := rfl

theorem block_append (d : Disk) (here : Place) (ms ns : List Name) :
    d.block here (ms ++ ns) = (d.block here ms).or (d.block (here ++ ms) ns) := by
  induction ms generalizing here with
  | nil => simp
  | cons m ms ih => rw [List.cons_append, block, ih, block, Option.or_assoc, List.append_assoc]; rfl

theorem block_concat (d : Disk) (here : Place) (ms : List Name) (n : Name) :
    d.block here (ms ++ [n]) = (d.block here ms).or (d.obstacle .notDirectory (here ++ ms) n) := by
  rw [block_append, block, block_nil, Option.or_none]

theorem block_ne_notFound : d.block here ns ≠ some .notFound := by
  induction ns generalizing here with
  | nil => simp
  | cons n ns ih =>
    rw [block, ne_eq, Option.or_eq_some_iff]
    rintro (h | ⟨-, h⟩)
    · exact obstacle_ne_notFound (by simp) h
    · exact ih h

@[simp] theorem fault_nil (d : Disk) (here : Place) : d.fault here [] = none := rfl

theorem fault_concat (d : Disk) (here : Place) (ms : List Name) (n : Name) :
    d.fault here (ms ++ [n]) = (d.block here ms).or (d.obstacle .exists (here ++ ms) n) := by
  simp [fault]

/-- What is in the way is the same thing by either name where nothing stands at the end. -/
theorem fault_eq_block (h : d.Passable (here ++ ns)) : d.fault here ns = d.block here ns := by
  rcases List.eq_nil_or_concat' ns with rfl | ⟨ms, n, rfl⟩
  · rfl
  · have hn : d.Passable (here ++ ms ++ [n]) := by rwa [List.append_assoc]
    rw [fault_concat, block_concat, obstacle, obstacle, if_pos hn, if_pos hn]

theorem block_of_fault (h : d.fault here ns = none) : d.block here ns = none := by
  rcases List.eq_nil_or_concat' ns with rfl | ⟨ms, n, rfl⟩
  · rfl
  · rw [fault_concat, Option.or_eq_none_iff] at h
    have hn := h.2
    unfold obstacle at hn
    split at hn
    · cases hn
    split at hn
    · rename_i hlong hpass
      rw [block_concat, h.1, obstacle, if_neg hlong, if_pos hpass]
      rfl
    · cases hn

/-- Whether a way is blocked depends on which of its places can be passed. -/
theorem obstacle_congr (h : d'.Passable (here ++ [n]) ↔ d.Passable (here ++ [n])) (e : Fault) :
    d'.obstacle e here n = d.obstacle e here n := by
  simp only [obstacle, h]

theorem block_congr (h : ∀ front, front ≠ [] → front <+: ns →
    (d'.Passable (here ++ front) ↔ d.Passable (here ++ front))) :
    d'.block here ns = d.block here ns := by
  induction ns using List.reverseRecOn with
  | nil => rfl
  | append_singleton ms n ih =>
    have hn := h (ms ++ [n]) (by simp) List.prefix_rfl
    rw [← List.append_assoc] at hn
    rw [block_concat, block_concat, obstacle_congr hn,
      ih fun front hne hp => h front hne (hp.trans (List.prefix_append ms [n]))]

theorem fault_congr (h : ∀ front, front ≠ [] → front <+: ns →
    (d'.Passable (here ++ front) ↔ d.Passable (here ++ front))) :
    d'.fault here ns = d.fault here ns := by
  rcases List.eq_nil_or_concat' ns with rfl | ⟨ms, n, rfl⟩
  · rfl
  · have hn := h (ms ++ [n]) (by simp) List.prefix_rfl
    rw [← List.append_assoc] at hn
    rw [fault_concat, fault_concat, obstacle_congr hn,
      block_congr fun front hne hp => h front hne (hp.trans (List.prefix_append ms [n]))]

/-- Where all directories are there the same names are obstacles. -/
theorem block_of_standing (ht : d.IsTree) (ht' : d'.IsTree) (hd : d.look? (here ++ ns) = some .directory)
    (hd' : d'.look? (here ++ ns) = some .directory) : d'.block here ns = d.block here ns := by
  refine block_congr fun front _ hp => ?_
  have hfront := (List.prefix_append_right_inj here).mpr hp
  exact iff_of_true (.of_look? (.inr (ht'.grounded hd' _ hfront)))
    (.of_look? (.inr (ht.grounded hd _ hfront)))

/-- At the end of a way that is not blocked there can be a directory. -/
theorem passable_of_block (hne : ns ≠ []) (h : d.block here ns = none) : d.Passable (here ++ ns) := by
  obtain ⟨ms, n, rfl⟩ := (List.eq_nil_or_concat' ns).resolve_left hne
  rw [block_concat, Option.or_eq_none_iff] at h
  have hn := h.2
  unfold obstacle at hn
  split at hn
  · cases hn
  split at hn
  · rename_i hpass
    rwa [← List.append_assoc]
  · cases hn

/-- The places on a way down that are not behind an obstacle. -/
def Passes (d : Disk) (here : Place) (ns : List Name) (place : Place) : Prop :=
  ∃ front, front ≠ [] ∧ front <+: ns ∧ place = here ++ front ∧ d.block here front = none

theorem Passes.congr (h : ∀ front, front ≠ [] → front <+: ns →
    (d'.Passable (here ++ front) ↔ d.Passable (here ++ front))) :
    d'.Passes here ns place ↔ d.Passes here ns place := by
  refine exists_congr fun front => and_congr_right fun hne => and_congr_right fun hp => ?_
  rw [block_congr fun front' hne' hp' => h front' hne' (hp'.trans hp)]

theorem passes_concat : d.Passes here (ms ++ [n]) place ↔
    d.Passes here ms place ∨ place = here ++ (ms ++ [n]) ∧ d.block here (ms ++ [n]) = none := by
  constructor
  · rintro ⟨front, hne, hp, rfl, hb⟩
    rcases List.prefix_concat_iff.mp hp with rfl | hp
    · exact .inr ⟨rfl, hb⟩
    · exact .inl ⟨front, hne, hp, rfl, hb⟩
  · rintro (⟨front, hne, hp, rfl, hb⟩ | ⟨rfl, hb⟩)
    · exact ⟨front, hne, hp.trans (List.prefix_append ms [n]), rfl, hb⟩
    · exact ⟨ms ++ [n], by simp, List.prefix_rfl, rfl, hb⟩

/-- Where a way leads to a directory there is something on all of it. -/
theorem Passes.ne_none (ht : d.IsTree) (hd : d.look? (here ++ ns) = some .directory)
    (h : d.Passes here ns place) : d.look? place ≠ none := by
  obtain ⟨front, -, hp, rfl, -⟩ := h
  rw [ht.grounded hd _ ((List.prefix_append_right_inj here).mpr hp)]
  simp

/-- The directories on a way down are made that are missing in front of the first obstacle. -/
structure Dug (here : Place) (ns : List Name) (d d' : Disk) : Prop where
  made : ∀ place, d.Passes here ns place → d.look? place = none → d'.look? place = some .directory
  kept : ∀ place, (d.Passes here ns place → d.look? place ≠ none) → d'.look? place = d.look? place

namespace Dug

theorem refl (h : ∀ place, d.Passes here ns place → d.look? place ≠ none) : Dug here ns d d :=
  ⟨fun place hp hn => absurd hn (h place hp), fun _ _ => rfl⟩

/-- To go nowhere nothing is made. -/
theorem nil (here : Place) (d : Disk) : Dug here [] d d :=
  .refl fun _ ⟨_, hne, hp, _⟩ => absurd (List.prefix_nil.mp hp) hne

/-- Each place is as it was or has a new directory. -/
theorem look? (h : Dug here ns d d') (place : Place) : d'.look? place = d.look? place ∨
    d.Passes here ns place ∧ d.look? place = none ∧ d'.look? place = some .directory := by
  by_cases hp : d.Passes here ns place ∧ d.look? place = none
  · exact .inr ⟨hp.1, hp.2, h.made place hp.1 hp.2⟩
  · exact .inl (h.kept place fun hp' hn => hp ⟨hp', hn⟩)

theorem passable (h : Dug here ns d d') (place : Place) : d'.Passable place ↔ d.Passable place := by
  rcases h.look? place with he | ⟨-, hn, hd⟩
  · rw [Passable, Passable, sight_of_look? he]
  · exact iff_of_true (.of_look? (.inr hd)) (.of_look? (.inl hn))

/-- The last directory of a way is made where the others are there. -/
theorem last (h : ∀ place, d.Passes here ms place → d.look? place ≠ none)
    (hb : d.block here (ms ++ [n]) = none) (hn : d.look? (here ++ (ms ++ [n])) = none) :
    Dug here (ms ++ [n]) d (d.set (here ++ (ms ++ [n])) .directory) := by
  refine ⟨fun place hp hnone => ?_, fun place hp => look?_set_of_ne d ?_ _⟩
  · rcases passes_concat.mp hp with hp | ⟨rfl, -⟩
    · exact absurd hnone (h place hp)
    · exact look?_set_self d (by simp) _
  · rintro rfl
    exact hp (passes_concat.mpr (.inr ⟨rfl, hb⟩)) hn

/-- Behind an obstacle nothing is made. -/
theorem stuck (h : Dug here ms d d') (hb : d.block here ms ≠ none) : Dug here (ms ++ [n]) d d' := by
  have hpasses (place : Place) : d.Passes here (ms ++ [n]) place ↔ d.Passes here ms place := by
    rw [passes_concat, block_concat, Option.or_eq_none_iff]
    exact or_iff_left fun h => hb h.2.1
  exact ⟨fun place hp => h.made place ((hpasses place).mp hp),
    fun place hp => h.kept place fun hp' => hp ((hpasses place).mpr hp')⟩

/-- What is missing further down can be made after what is missing above. -/
theorem trans (h : Dug here ms d d') (h' : Dug here (ms ++ [n]) d' d'') :
    Dug here (ms ++ [n]) d d'' := by
  have hpasses (place : Place) : d'.Passes here (ms ++ [n]) place ↔ d.Passes here (ms ++ [n]) place :=
    Passes.congr fun _ _ _ => h.passable _
  refine ⟨fun place hp hn => ?_, fun place hp => ?_⟩
  · rcases h.look? place with hsame | ⟨-, -, hmade⟩
    · exact h'.made place ((hpasses place).mpr hp) (hsame.trans hn)
    · rw [h'.kept place fun _ => by simp [hmade], hmade]
  · have hsame : d'.look? place = d.look? place :=
      h.kept place fun hp' => hp (passes_concat.mpr (.inl hp'))
    rw [h'.kept place fun hp' => hsame ▸ hp ((hpasses place).mp hp'), hsame]

end Dug

end Disk
end UnitCache
