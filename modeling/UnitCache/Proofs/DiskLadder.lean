import UnitCache.Proofs.DiskSights
import UnitCache.Proofs.StoreGrowth

namespace UnitCache.Disk

variable {d d' d₀ : Disk} {here base place : Place} {n : Name} {ms ns : List Name} {p : Path}
  {ps : List Path} {e : Fault}

/-- The way down is free: what follows it is found from its end. -/
theorem descend_through (ht : d.IsTree) (hd : d.look? (here ++ ms) = some .directory) :
    d.descend here (ms ++ ns) =
      match d.block here ms with
      | some e => .error e
      | none => d.descend (here ++ ms) ns := by
  induction ms generalizing here with
  | nil => simp
  | cons m ms ih =>
    have hm : d.look? (here ++ [m]) = some .directory :=
      ht.grounded hd _ ⟨ms, by simp⟩
    have hpass : d.Passable (here ++ [m]) := .of_look? (.inr hm)
    have hrest := @ih (here ++ [m]) (by simpa using hd)
    rw [List.cons_append, descend, block, obstacle, if_pos hpass]
    by_cases hlong : maxName < width m
    · simp [if_pos hlong]
    · rw [if_neg hlong, if_neg hlong, if_pos hm, hrest, Option.none_or]
      simp

/-- The way down is not there to its end: going down ends at the first obstacle, in front of which all
directories are there, or where something is missing. -/
theorem descend_missing (hl : d.Linkless) (ht : d.IsTree) (hh : d.look? here = some .directory)
    (hd : d.look? (here ++ ms) ≠ some .directory) (n : Name) :
    (∃ e, d.descend here (ms ++ [n]) = .error e ∧ e ≠ .notFound ∧ d.block here ms = some e ∧
        ∀ place, d.Passes here ms place → d.look? place = some .directory) ∨
      d.descend here (ms ++ [n]) = .error .notFound ∧ d.look? (here ++ ms) = none := by
  induction ms generalizing here with
  | nil => exact absurd (by simpa using hh) hd
  | cons m ms ih =>
    have hsplit : here ++ m :: ms = here ++ [m] ++ ms := by simp
    have hpast {e : Fault} (hb : d.obstacle .notDirectory here m = some e) (place : Place) :
        ¬d.Passes here (m :: ms) place := by
      rintro ⟨front, hne, hp, -, hf⟩
      obtain ⟨x, front, rfl⟩ := List.exists_cons_of_ne_nil hne
      obtain rfl : x = m := (List.cons_prefix_cons.mp hp).1
      rw [block, hb] at hf
      cases hf
    rw [List.cons_append, descend]
    by_cases hlong : maxName < width m
    · have hb : d.obstacle .notDirectory here m = some .nameTooLong := if_pos hlong
      exact .inl ⟨_, if_pos hlong, by simp, by rw [block, hb]; rfl, fun place hp =>
        absurd hp (hpast hb place)⟩
    rw [if_neg hlong]
    rcases hm : d.look? (here ++ [m]) with _ | ⟨id, content⟩ | _ | target
    · refine .inr ⟨by simp, ?_⟩
      by_contra hsome
      have hp : here ++ [m] <+: here ++ m :: ms := ⟨ms, by simp⟩
      by_cases he : here ++ [m] = here ++ m :: ms
      · exact hsome (he ▸ hm)
      · cases hm.symm.trans (ht.directory_of_prefix hp he hsome)
    · have hb : d.obstacle .notDirectory here m = some .notDirectory := by
        rw [obstacle, if_neg hlong, if_neg]
        rintro (h | h)
        · cases hm.symm.trans (sight_eq_none.mp h)
        · cases hm.symm.trans (sight_eq_directory.mp h)
      exact .inl ⟨.notDirectory, by simp, by simp, by rw [block, hb]; rfl, fun place hp =>
        absurd hp (hpast hb place)⟩
    · have hb : d.obstacle .notDirectory here m = none := by
        rw [obstacle, if_neg hlong, if_pos (.of_look? (.inr hm))]
      rw [if_pos rfl, block, hb, Option.none_or, hsplit]
      refine (ih hm (hsplit ▸ hd)).imp_left ?_
      rintro ⟨e, he, hne, hblock, hall⟩
      refine ⟨e, he, hne, hblock, ?_⟩
      rintro place ⟨front, hfront, hp, rfl, hf⟩
      obtain ⟨x, front, rfl⟩ := List.exists_cons_of_ne_nil hfront
      obtain ⟨rfl, hrest⟩ := List.cons_prefix_cons.mp hp
      by_cases hfront : front = []
      · rw [hfront, hm]
      · rw [block, hb, Option.none_or] at hf
        exact hall _ ⟨front, hfront, hrest, by simp, hf⟩
    · exact absurd hm (hl _ _)

def Down (d₀ : Disk) (p : Path) (base : Place) (ms : List Name) : Prop :=
  ∀ d, Keeps d₀ d → d.Linkless → ∀ last, d.find last p = d.descend base ms

/-- Paths that lead down from a directory, each a name further than the one after it. -/
inductive Ladder (d₀ : Disk) (base : Place) : List Path → List Name → Prop
  | foot (ps : List Path) : Ladder d₀ base ps []
  | rung {p : Path} {ps : List Path} {ms : List Name} {n : Name} (written : p.chars ≠ [])
      (leads : Down d₀ p base (ms ++ [n])) (rest : Ladder d₀ base ps ms) :
      Ladder d₀ base (p :: ps) (ms ++ [n])

def verdict : Option Fault → Except Fault Unit
  | none => .ok ()
  | some e => .error e

def tryDirectory (d : Disk) (p : Path) : Disk × Except Fault Unit :=
  match d.makeDirectory p with
  | .ok d' => (d', .ok ())
  | .error e => (d, if d.isDirectory p then .ok () else .error e)

theorem makeFirst_cons (hp : p.chars ≠ []) (h : d.makeDirectory p ≠ .error .notFound)
    (ps : List Path) : d.makeFirst (p :: ps) = d.tryDirectory p := by
  rw [makeFirst, if_neg (by simpa [Path.isEmpty] using hp), tryDirectory]
  split
  · rename_i hd
    simp only [hd]
  · exact absurd ‹_› h
  · rename_i hd
    simp only [hd]

/-- If something is missing on the way the parents are made first. -/
theorem makeFirst_cons_notFound (hp : p.chars ≠ []) (h : d.makeDirectory p = .error .notFound)
    (ps : List Path) : d.makeFirst (p :: ps) =
      match d.makeFirst ps with
      | (d', .error e) => (d', .error e)
      | (d', .ok ()) => d'.tryDirectory p := by
  rw [makeFirst, if_neg (by simpa [Path.isEmpty] using hp), h]
  rfl

theorem descend_single (d : Disk) (here : Place) (n : Name) : d.descend here [n] =
    if maxName < width n then .error .nameTooLong
    else .ok ⟨here ++ [n], d.look? (here ++ [n])⟩ := by
  rw [descend]
  split
  · rfl
  split
  · rw [descend]
  · rfl

/-- A path that is not found to its end is no directory, and none can be made there. -/
theorem tryDirectory_error (h : ∀ last, d.find last p = .error e) :
    d.isDirectory p = false ∧ d.makeDirectory p = .error e ∧
      d.tryDirectory p = (d, verdict (some e)) := by
  have hdir : d.isDirectory p = false := by rw [isDirectory, stat, h]
  have hmake : d.makeDirectory p = .error e := by rw [makeDirectory, h]
  refine ⟨hdir, hmake, ?_⟩
  rw [tryDirectory, hmake, hdir]
  rfl

/-- At the end of a path that is found a directory is made if nothing is there. -/
theorem tryDirectory_found (hl : d.Linkless)
    (h : ∀ last, d.find last p = .ok ⟨place, d.look? place⟩) :
    d.makeDirectory p ≠ .error .notFound ∧ d.tryDirectory p =
      match d.look? place with
      | none => (d.set place .directory, .ok ())
      | some .directory => (d, .ok ())
      | some _ => (d, .error .exists) := by
  rw [tryDirectory, makeDirectory, isDirectory, stat, h, h]
  rcases hp : d.look? place with _ | ⟨id, content⟩ | _ | target
  · simp
  · simp
  · simp
  · exact absurd hp (hl _ _)

/-- Where all directories above it are there, a directory that a path leads down to is there, or is
made, unless there is an obstacle. -/
theorem tryDirectory_down (hs : d.Sound) (hk : Keeps d₀ d) (hp : Down d₀ p base (ms ++ [n]))
    (hd : d.look? (base ++ ms) = some .directory) : d.makeDirectory p ≠ .error .notFound ∧
      ∃ d', d.tryDirectory p = (d', verdict (d.fault base (ms ++ [n]))) ∧
        Dug base (ms ++ [n]) d d' := by
  have hfind (last : Last) := (hp d hk hs.linkless last).trans (descend_through hs.parents hd)
  have habove (place : Place) (h : d.Passes base ms place) := h.ne_none hs.parents hd
  -- The tree can stay as it is unless the end is open and nothing is there.
  have hstay (h : d.block base (ms ++ [n]) = none → d.look? (base ++ (ms ++ [n])) ≠ none) :
      Dug base (ms ++ [n]) d d := .refl fun place hp =>
    (passes_concat.mp hp).elim (habove place) fun hend => hend.1 ▸ h hend.2
  have hfault := fault_concat d base ms n
  have hblock := block_concat d base ms n
  cases hb : d.block base ms with
  | some e =>
    simp only [hb] at hfind
    rw [hb, Option.some_or] at hfault hblock
    obtain ⟨-, hmake, htry⟩ := tryDirectory_error hfind
    refine ⟨fun hnone => ?_, d, by rw [htry, hfault], hstay fun hopen => ?_⟩
    · cases hmake.symm.trans hnone
      exact block_ne_notFound hb
    · cases hblock.symm.trans hopen
  | none =>
    simp only [hb, descend_single] at hfind
    rw [hb, Option.none_or] at hfault hblock
    by_cases hlong : maxName < width n
    · simp only [hlong, if_true] at hfind
      rw [obstacle, if_pos hlong] at hfault hblock
      obtain ⟨-, hmake, htry⟩ := tryDirectory_error hfind
      refine ⟨by simp [hmake], d, by rw [htry, hfault], hstay fun hopen => ?_⟩
      cases hblock.symm.trans hopen
    simp only [hlong, if_false] at hfind
    rw [List.append_assoc] at hfind
    rw [obstacle, if_neg hlong, List.append_assoc] at hfault hblock
    obtain ⟨hmake, htry⟩ := tryDirectory_found hs.linkless hfind
    refine ⟨hmake, ?_⟩
    rcases hl : d.look? (base ++ (ms ++ [n])) with _ | ⟨id, content⟩ | _ | target <;>
      rw [hl] at htry
    · have hpass : d.Passable (base ++ (ms ++ [n])) := .of_look? (.inl hl)
      rw [if_pos hpass] at hfault hblock
      exact ⟨_, by rw [htry, hfault]; rfl, .last habove hblock hl⟩
    · have hno : ¬d.Passable (base ++ (ms ++ [n])) := by
        rw [Passable, sight_eq_none, sight_eq_directory, hl]
        simp
      rw [if_neg hno] at hfault
      exact ⟨d, by rw [htry, hfault]; rfl, hstay fun _ => by simp [hl]⟩
    · have hpass : d.Passable (base ++ (ms ++ [n])) := .of_look? (.inr hl)
      rw [if_pos hpass] at hfault
      exact ⟨d, by rw [htry, hfault]; rfl, hstay fun _ => by simp [hl]⟩
    · exact absurd hl (hs.linkless _ _)

/-- Making the directory that a ladder leads down to makes what is missing in front of the first
obstacle, and ends with that. -/
theorem Ladder.makeFirst (hl : Ladder d₀ base ps ns) (hne : ns ≠ []) (hs : d.Sound)
    (hk : Keeps d₀ d) (hb : d.look? base = some .directory) :
    ∃ d', d.makeFirst ps = (d', verdict (d.fault base ns)) ∧ Dug base ns d d' := by
  induction hl with
  | foot => exact absurd rfl hne
  | @rung p ps ms n written leads rest ih =>
    by_cases hd : d.look? (base ++ ms) = some .directory
    · obtain ⟨hfound, hall⟩ := tryDirectory_down hs hk leads hd
      rwa [makeFirst_cons written hfound]
    have hfind := leads d hk hs.linkless
    rcases descend_missing hs.linkless hs.parents hb hd n with
      ⟨e, he, hfound, hblock, hthere⟩ | ⟨he, hnone⟩
    · obtain ⟨-, hmake, htry⟩ := tryDirectory_error fun last => (hfind last).trans he
      refine ⟨d, ?_, .stuck (.refl fun place h => by simp [hthere place h]) (by simp [hblock])⟩
      rw [makeFirst_cons written (by simpa [hmake] using hfound), htry, fault_concat, hblock,
        Option.some_or]
    · -- The parents are made first.
      have hms : ms ≠ [] := by
        rintro rfl
        rw [List.append_nil, hb] at hnone
        cases hnone
      obtain ⟨d₁, hfirst, hdug⟩ := ih hms
      rw [fault_eq_block (.of_look? (.inl hnone))] at hfirst
      obtain ⟨-, hmissing, -⟩ := tryDirectory_error fun last => (hfind last).trans he
      rw [makeFirst_cons_notFound written hmissing, hfirst]
      cases hblock : d.block base ms with
      | some e =>
        refine ⟨d₁, ?_, hdug.stuck (by simp [hblock])⟩
        rw [fault_concat, hblock]
        rfl
      | none =>
        have hg : Grows (fun _ => False) d (d.makeFirst ps).1 := makeFirst_grows hs ps
        rw [hfirst] at hg
        have hwhole : d₁.look? (base ++ ms) = some .directory :=
          hdug.made _ ⟨ms, hms, List.prefix_rfl, rfl, hblock⟩ hnone
        obtain ⟨-, d₂, htry, hdug'⟩ :=
          tryDirectory_down hg.sound (hk.trans (hg.keeps hs)) leads hwhole
        refine ⟨d₂, ?_, hdug.trans hdug'⟩
        rw [← fault_congr fun front _ _ => hdug.passable (base ++ front)]
        exact htry

end UnitCache.Disk
