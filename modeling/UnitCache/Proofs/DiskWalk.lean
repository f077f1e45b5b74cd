import UnitCache.Disk.Files

namespace UnitCache.Disk

variable {d : Disk} {last : Last} {links links' : Nat} {here there : Place} {slash : Bool}
  {n : Name} {ns ms : List Name}

def IsPlain (n : Name) : Prop := n ≠ ['.'] ∧ n ≠ ['.', '.']

/-- Names that lead from one place to another, each of them to a directory, with the number of links
that may be followed before and after. -/
inductive Leads (d : Disk) : Nat → Place → List Name → Nat → Place → Prop
  | stop (links : Nat) (here : Place) : Leads d links here [] links here
  | stay {links links' : Nat} {here there : Place} {ns : List Name}
      (rest : Leads d links here ns links' there) : Leads d links here (['.'] :: ns) links' there
  | up {links links' : Nat} {here there : Place} {ns : List Name}
      (rest : Leads d links here.dropLast ns links' there) :
      Leads d links here (['.', '.'] :: ns) links' there
  | down {links links' : Nat} {here there : Place} {n : Name} {ns : List Name} (plain : IsPlain n)
      (short : ¬maxName < width n) (found : d.look? (here ++ [n]) = some .directory)
      (rest : Leads d links (here ++ [n]) ns links' there) : Leads d links here (n :: ns) links' there
  | follow {links links' : Nat} {here there : Place} {n : Name} {ns : List Name} {target : Path}
      (plain : IsPlain n) (short : ¬maxName < width n)
      (found : d.look? (here ++ [n]) = some (.link target))
      (rest : Leads d links (if target.isAbsolute then [] else here) (names target ++ ns) links'
        there) : Leads d (links + 1) here (n :: ns) links' there

/-- One step of a walk, when more names follow. -/
theorem walk_cons_of_ne_nil (d : Disk) (last : Last) (links : Nat) (here : Place) (slash : Bool)
    (n : Name) (h : ns ≠ []) :
    walk d last links here slash (n :: ns) =
      if n = ['.'] then walk d last links here slash ns
      else if n = ['.', '.'] then walk d last links here.dropLast slash ns
      else if maxName < width n then .error .nameTooLong
      else
        match d.look? (here ++ [n]) with
        | none => .error .notFound
        | some .directory => walk d last links (here ++ [n]) slash ns
        | some (.file _ _) => .error .notDirectory
        | some (.link target) =>
          match links with
          | 0 => .error .tooManyLinks
          | links + 1 =>
            walk d last links (if target.isAbsolute then [] else here) slash (names target ++ ns) := by
  have hw := walk.eq_2 d last links here slash n ns
  simp only [h, false_and, decide_false, Bool.false_and, Bool.or_false, if_false] at hw
  exact hw

/-- What comes after names that lead somewhere is walked from there. -/
theorem Leads.walk_append (h : Leads d links here ns links' there) (hm : ms ≠ []) :
    walk d last links here slash (ns ++ ms) = walk d last links' there slash ms := by
  induction h with
  | stop _ _ => rfl
  | @stay _ _ _ _ ns rest ih =>
    rw [List.cons_append, walk_cons_of_ne_nil _ _ _ _ _ _ (by simp [hm]), if_pos rfl, ih]
  | @up _ _ _ _ ns rest ih =>
    rw [List.cons_append, walk_cons_of_ne_nil _ _ _ _ _ _ (by simp [hm]), if_neg (by decide),
      if_pos rfl, ih]
  | @down _ _ _ _ n ns plain short found rest ih =>
    rw [List.cons_append, walk_cons_of_ne_nil _ _ _ _ _ _ (by simp [hm]), if_neg plain.1,
      if_neg plain.2, if_neg short, found]
    exact ih
  | @follow _ _ _ _ n ns target plain short found rest ih =>
    rw [List.cons_append, walk_cons_of_ne_nil _ _ _ _ _ _ (by simp [hm]), if_neg plain.1,
      if_neg plain.2, if_neg short, found, ← ih, List.append_assoc]

/-- A walk that goes well has been led somewhere by each part of its names but the last. -/
theorem leads_of_walk (hm : ms ≠ []) {spot : Spot} {links : Nat} {here : Place} {ns : List Name}
    (h : walk d last links here slash (ns ++ ms) = .ok spot) :
    ∃ links' there, Leads d links here ns links' there ∧
      walk d last links' there slash ms = .ok spot := by
  cases ns with
  | nil => exact ⟨links, here, .stop _ _, h⟩
  | cons n ns =>
    rw [List.cons_append, walk_cons_of_ne_nil _ _ _ _ _ _ (by simp [hm])] at h
    split at h
    · rename_i hn
      obtain ⟨links', there, hl, hw⟩ := leads_of_walk hm h
      exact ⟨links', there, hn ▸ .stay hl, hw⟩
    split at h
    · rename_i hn
      obtain ⟨links', there, hl, hw⟩ := leads_of_walk hm h
      exact ⟨links', there, hn ▸ .up hl, hw⟩
    split at h
    · cases h
    rename_i hdot hup hlong
    split at h
    · cases h
    · rename_i found
      obtain ⟨links', there, hl, hw⟩ := leads_of_walk hm h
      exact ⟨links', there, .down ⟨hdot, hup⟩ hlong found hl, hw⟩
    · cases h
    · rename_i target found
      cases links with
      | zero => cases h
      | succ k =>
        simp only [← List.append_assoc] at h
        obtain ⟨links', there, hl, hw⟩ := leads_of_walk hm h
        exact ⟨links', there, .follow ⟨hdot, hup⟩ hlong found hl, hw⟩
termination_by (links, ns.length)

/-- Names lead to where they end if that is a directory. -/
theorem Leads.walk_target (h : Leads d links here ns links' there)
    (ht : d.look? there = some .directory) (slash : Bool) :
    walk d .target links here slash ns = .ok ⟨there, some .directory⟩ := by
  induction h generalizing slash with
  | stop _ _ => rw [walk, ht]
  | @stay _ _ _ _ ns rest ih => rw [walk, if_pos rfl, ih ht]
  | @up _ _ _ _ ns rest ih => rw [walk, if_neg (by decide), if_pos rfl, ih ht]
  | @down _ _ _ _ n ns plain short found rest ih =>
    rw [walk, if_neg plain.1, if_neg plain.2, if_neg (by simp), if_neg short]
    simp only [found]
    exact ih ht slash
  | @follow _ _ _ _ n ns target plain short found rest ih =>
    rw [walk, if_neg plain.1, if_neg plain.2, if_neg (by simp), if_neg short]
    simp only [found]
    rw [if_neg (by simp)]
    exact ih ht _

/-- A walk that ends at a directory has been led there. -/
theorem leads_of_walk_target {links : Nat} {here : Place} {slash : Bool} {ns : List Name}
    (h : walk d .target links here slash ns = .ok ⟨there, some .directory⟩) :
    ∃ links', Leads d links here ns links' there ∧ d.look? there = some .directory := by
  cases ns with
  | nil =>
    rw [walk] at h
    injection h with h
    injection h with hp he
    exact ⟨links, hp ▸ .stop _ _, hp ▸ he⟩
  | cons n ns =>
    rw [walk] at h
    split at h
    · rename_i hn
      obtain ⟨links', hl, ht⟩ := leads_of_walk_target h
      exact ⟨links', hn ▸ .stay hl, ht⟩
    split at h
    · rename_i hn
      obtain ⟨links', hl, ht⟩ := leads_of_walk_target h
      exact ⟨links', hn ▸ .up hl, ht⟩
    split at h
    · cases h
    split at h
    · cases h
    rename_i hdot hup _ hlong
    simp only at h
    split at h
    · split at h <;> cases h
    · rename_i found
      obtain ⟨links', hl, ht⟩ := leads_of_walk_target h
      exact ⟨links', .down ⟨hdot, hup⟩ hlong found hl, ht⟩
    · split at h <;> cases h
    · rename_i target found
      split at h
      · cases h
      cases links with
      | zero => cases h
      | succ k =>
        obtain ⟨links', hl, ht⟩ := leads_of_walk_target h
        exact ⟨links', .follow ⟨hdot, hup⟩ hlong found hl, ht⟩
termination_by (links, ns.length)

/-- Names lead by way of where their first part leads. -/
theorem Leads.split (h : Leads d links here (ns ++ ms) links' there) :
    ∃ k p, Leads d links here ns k p ∧ Leads d k p ms links' there := by
  generalize hx : ns ++ ms = xs at h
  induction h generalizing ns with
  | stop links here =>
    obtain ⟨rfl, rfl⟩ := List.append_eq_nil_iff.mp hx
    exact ⟨links, here, .stop _ _, .stop _ _⟩
  | @stay links _ here _ xs rest ih =>
    rcases List.append_eq_cons_iff.mp hx with ⟨rfl, rfl⟩ | ⟨ns, rfl, rfl⟩
    · exact ⟨links, here, .stop _ _, .stay rest⟩
    · obtain ⟨k, p, hp, hr⟩ := ih rfl
      exact ⟨k, p, .stay hp, hr⟩
  | @up links _ here _ xs rest ih =>
    rcases List.append_eq_cons_iff.mp hx with ⟨rfl, rfl⟩ | ⟨ns, rfl, rfl⟩
    · exact ⟨links, here, .stop _ _, .up rest⟩
    · obtain ⟨k, p, hp, hr⟩ := ih rfl
      exact ⟨k, p, .up hp, hr⟩
  | @down links _ here _ x xs plain short found rest ih =>
    rcases List.append_eq_cons_iff.mp hx with ⟨rfl, rfl⟩ | ⟨ns, rfl, rfl⟩
    · exact ⟨links, here, .stop _ _, .down plain short found rest⟩
    · obtain ⟨k, p, hp, hr⟩ := ih rfl
      exact ⟨k, p, .down plain short found hp, hr⟩
  | @follow links _ here _ x xs target plain short found rest ih =>
    rcases List.append_eq_cons_iff.mp hx with ⟨rfl, rfl⟩ | ⟨ns, rfl, rfl⟩
    · exact ⟨links + 1, here, .stop _ _, .follow plain short found rest⟩
    · obtain ⟨k, p, hp, hr⟩ := ih (List.append_assoc _ ns ms)
      exact ⟨k, p, .follow plain short found hp, hr⟩

/-- Names lead to one place. -/
theorem Leads.unique {links'' : Nat} {there' : Place} (h : Leads d links here ns links' there)
    (h' : Leads d links here ns links'' there') : there = there' ∧ links' = links'' := by
  induction h with
  | stop _ _ =>
    cases h'
    exact ⟨rfl, rfl⟩
  | stay _ ih =>
    cases h' with
    | stay rest => exact ih rest
    | down plain => exact absurd rfl plain.1
    | follow plain => exact absurd rfl plain.1
  | up _ ih =>
    cases h' with
    | up rest => exact ih rest
    | down plain => exact absurd rfl plain.2
    | follow plain => exact absurd rfl plain.2
  | down plain _ found _ ih =>
    cases h' with
    | stay => exact absurd rfl plain.1
    | up => exact absurd rfl plain.2
    | down _ _ _ rest => exact ih rest
    | follow _ _ found' => cases found.symm.trans found'
  | follow plain _ found _ ih =>
    cases h' with
    | stay => exact absurd rfl plain.1
    | up => exact absurd rfl plain.2
    | down _ _ found' => cases found.symm.trans found'
    | follow _ _ found' rest =>
      cases found.symm.trans found'
      exact ih rest

/-- Dots lead nowhere. -/
theorem Leads.of_dots (h : Leads d links here ns links' there) (hd : ∀ n ∈ ns, n = ['.']) :
    there = here ∧ links' = links := by
  induction h with
  | stop _ _ => exact ⟨rfl, rfl⟩
  | stay rest ih => exact ih fun n hn => hd n (List.mem_cons_of_mem _ hn)
  | up rest _ => exact absurd (hd _ List.mem_cons_self) (by decide)
  | down plain _ _ _ _ => exact absurd (hd _ List.mem_cons_self) plain.1
  | follow plain _ _ _ _ => exact absurd (hd _ List.mem_cons_self) plain.1

/-- Where names lead stays so as long as the directories and links on the way do. -/
theorem Leads.mono {d' : Disk}
    (hd : ∀ p, d.look? p = some .directory → d'.look? p = some .directory)
    (hl : ∀ p target, d.look? p = some (.link target) → d'.look? p = some (.link target))
    (h : Leads d links here ns links' there) : Leads d' links here ns links' there := by
  induction h with
  | stop _ _ => exact .stop _ _
  | stay _ ih => exact .stay ih
  | up _ ih => exact .up ih
  | down plain short found _ ih => exact .down plain short (hd _ found) ih
  | follow plain short found _ ih => exact .follow plain short (hl _ _ found) ih

/-- A walk that finds something finds something under its first name. -/
theorem look?_of_walk {rest : List Name} {spot : Spot} (hn : IsPlain n)
    (h : walk d last links here slash (n :: rest) = .ok spot) (he : spot.entry ≠ none) :
    d.look? (here ++ [n]) ≠ none := by
  intro hnone
  rw [walk, if_neg hn.1, if_neg hn.2] at h
  split at h
  · cases h
  split at h
  · cases h
  simp only [hnone] at h
  split at h
  · cases h
    exact he rfl
  · cases h

def descend (d : Disk) (here : Place) : List Name → Except Fault Spot
  | [] => .ok ⟨here, d.look? here⟩
  | n :: rest =>
    if maxName < width n then .error .nameTooLong
    else if d.look? (here ++ [n]) = some .directory then descend d (here ++ [n]) rest
    else if rest = [] then .ok ⟨here ++ [n], d.look? (here ++ [n])⟩
    else if d.look? (here ++ [n]) = none then .error .notFound
    else .error .notDirectory

/-- Where there are no links a walk by plain names goes down, whatever is wanted of the last one. -/
theorem walk_eq_descend (hn : ∀ n ∈ ns, IsPlain n)
    (hl : ∀ ms target, d.look? (here ++ ms) ≠ some (.link target)) :
    walk d last links here false ns = descend d here ns := by
  induction ns generalizing here with
  | nil => rw [walk, descend]
  | cons n rest ih =>
    obtain ⟨hdot, hup⟩ := hn n List.mem_cons_self
    rw [walk, descend, if_neg hdot, if_neg hup, if_neg (by simp)]
    by_cases hlong : maxName < width n
    · rw [if_pos hlong, if_pos hlong]
    rw [if_neg hlong, if_neg hlong]
    have hrest : walk d last links (here ++ [n]) false rest = descend d (here ++ [n]) rest :=
      ih (fun m hm => hn m (List.mem_cons_of_mem _ hm)) fun ms => by simpa using hl ([n] ++ ms)
    rcases hf : d.look? (here ++ [n]) with _ | ⟨id, content⟩ | _ | target
    · simp only [hf]
      simp
    · simp only [hf]
      simp
    · simp only [hf]
      simpa using hrest
    · exact absurd hf (hl [n] target)

/-- Going down ends where the names say. -/
theorem descend_ok {spot : Spot} (h : descend d here ns = .ok spot) :
    spot = ⟨here ++ ns, d.look? (here ++ ns)⟩ := by
  induction ns generalizing here with
  | nil => simpa [descend] using h.symm
  | cons n rest ih =>
    rw [descend] at h
    split at h
    · cases h
    split at h
    · simpa using ih h
    split at h
    · rename_i hr
      subst hr
      cases h
      rfl
    split at h <;> cases h

theorem descend_concat_ok {spot : Spot} (hh : d.look? here = some .directory)
    (h : descend d here (ns ++ [n]) = .ok spot) :
    descend d here ns = .ok ⟨here ++ ns, some .directory⟩ := by
  induction ns generalizing here with
  | nil => simp [descend, hh]
  | cons m rest ih =>
    rw [List.cons_append, descend] at h
    rw [descend]
    split at h
    · cases h
    rename_i hshort
    rw [if_neg hshort]
    split at h
    · rename_i hdir
      rw [if_pos hdir, ih hdir h, List.append_assoc]
      rfl
    · rw [if_neg (by simp)] at h
      split at h <;> cases h

/-- Nothing is missing on the way to a name in the directory itself. -/
theorem descend_single_ne (d : Disk) (here : Place) (n : Name) :
    descend d here [n] ≠ .error .notFound := by
  simp only [descend, if_true]
  repeat' split
  all_goals simp

/-- Going down goes as far where directories are added. -/
theorem descend_mono {d' : Disk} {spot : Spot}
    (hd : ∀ p, d.look? p = some .directory → d'.look? p = some .directory)
    (h : descend d here (ns ++ [n]) = .ok spot) :
    descend d' here (ns ++ [n]) = .ok ⟨here ++ (ns ++ [n]), d'.look? (here ++ (ns ++ [n]))⟩ := by
  induction ns generalizing here with
  | nil =>
    simp only [List.nil_append, descend, if_true] at h ⊢
    split at h
    · cases h
    · rename_i hshort
      rw [if_neg hshort]
      split
      · rename_i hdir
        rw [hdir]
      · rfl
  | cons m rest ih =>
    rw [List.cons_append, descend] at h ⊢
    split at h
    · cases h
    rename_i hshort
    rw [if_neg hshort]
    split at h
    · rename_i hdir
      rw [if_pos (hd _ hdir), ih h]
      simp
    · rw [if_neg (by simp)] at h
      split at h <;> cases h

end UnitCache.Disk
