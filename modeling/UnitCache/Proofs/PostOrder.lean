import UnitCache.NameMap

namespace UnitCache

variable {α : Type} {next : α → List α}

inductive Reachable (next : α → List α) (roots : List α) : α → Prop
  | root {n : α} (h : n ∈ roots) : Reachable next roots n
  | next {n m : α} (hn : Reachable next roots n) (hm : m ∈ next n) : Reachable next roots m

/-- `PostOrder next seen todo seen' order`: going into the nodes `todo` one after the other, except
those already seen, leaves the nodes `seen'` and gives the post-order `order` of the new ones. -/
inductive PostOrder (next : α → List α) : List α → List α → List α → List α → Prop
  | nil {seen : List α} : PostOrder next seen [] seen []
  | skip {seen seen' order ns : List α} {n : α} (old : n ∈ seen)
      (rest : PostOrder next seen ns seen' order) : PostOrder next seen (n :: ns) seen' order
  | enter {seen seen₁ seen' inner order ns : List α} {n : α} (new : n ∉ seen)
      (below : PostOrder next (n :: seen) (next n) seen₁ inner)
      (rest : PostOrder next seen₁ ns seen' order) :
      PostOrder next seen (n :: ns) seen' (inner ++ n :: order)

namespace PostOrder

variable {seen todo seen' order : List α}

/-- There is one post-order at most. -/
theorem unique {seen'' order' : List α} (h : PostOrder next seen todo seen' order)
    (h' : PostOrder next seen todo seen'' order') : seen' = seen'' ∧ order = order' := by
  induction h generalizing seen'' order' with
  | nil =>
    cases h'
    exact ⟨rfl, rfl⟩
  | skip old _ ih =>
    cases h' with
    | skip _ rest => exact ih rest
    | enter new _ _ => exact absurd old new
  | enter new _ _ ihb ihr =>
    cases h' with
    | skip old _ => exact absurd old new
    | enter _ below rest =>
      obtain ⟨rfl, rfl⟩ := ihb below
      obtain ⟨rfl, rfl⟩ := ihr rest
      exact ⟨rfl, rfl⟩

theorem append {todo' seen'' order' : List α} (h : PostOrder next seen todo seen' order)
    (h' : PostOrder next seen' todo' seen'' order') :
    PostOrder next seen (todo ++ todo') seen'' (order ++ order') := by
  induction h with
  | nil => exact h'
  | skip old _ ih => exact .skip old (ih h')
  | enter new below _ _ ih =>
    rw [List.append_assoc]
    exact .enter new below (ih h')

/-- What was not seen before and is now was put in order. -/
theorem mem_seen (h : PostOrder next seen todo seen' order) (x : α) :
    x ∈ seen' ↔ x ∈ seen ∨ x ∈ order := by
  induction h with
  | nil => simp
  | skip _ _ ih => exact ih
  | enter _ _ _ ihb ihr =>
    rw [ihr, ihb, List.mem_append, List.mem_cons, List.mem_cons]
    constructor
    · rintro (((h | h) | h) | h)
      · exact .inr (.inr (.inl h))
      · exact .inl h
      · exact .inr (.inl h)
      · exact .inr (.inr (.inr h))
    · rintro (h | h | h | h)
      · exact .inl (.inl (.inr h))
      · exact .inl (.inr h)
      · exact .inl (.inl (.inl h))
      · exact .inr h

theorem mem_of_mem_todo (h : PostOrder next seen todo seen' order) : ∀ x ∈ todo, x ∈ seen' := by
  induction h with
  | nil => simp
  | skip old rest ih =>
    intro x hx
    rcases List.mem_cons.mp hx with rfl | hx
    · exact (rest.mem_seen x).mpr (.inl old)
    · exact ih x hx
  | enter _ below rest _ ih =>
    intro x hx
    rcases List.mem_cons.mp hx with rfl | hx
    · exact (rest.mem_seen x).mpr (.inl ((below.mem_seen x).mpr (.inl List.mem_cons_self)))
    · exact ih x hx

/-- Only new nodes are put in order, each of them once. -/
theorem nodup (h : PostOrder next seen todo seen' order) :
    order.Nodup ∧ ∀ x ∈ order, x ∉ seen := by
  induction h with
  | nil => simp
  | skip _ _ ih => exact ih
  | enter new below rest ihb ihr =>
    rename_i seen seen₁ _ inner order _ n
    obtain ⟨hb, hbn⟩ := ihb
    obtain ⟨hr, hrn⟩ := ihr
    have hn : n ∈ seen₁ := (below.mem_seen n).mpr (.inl List.mem_cons_self)
    refine ⟨List.nodup_append.mpr ⟨hb, List.nodup_cons.mpr ⟨fun h => hrn n h hn, hr⟩, ?_⟩, ?_⟩
    · rintro x hx _ hy rfl
      rcases List.mem_cons.mp hy with rfl | hy
      · exact hbn x hx List.mem_cons_self
      · exact hrn x hy ((below.mem_seen x).mpr (.inr hx))
    · intro x hx hs
      rcases List.mem_append.mp hx with hx | hx
      · exact hbn x hx (List.mem_cons_of_mem n hs)
      · rcases List.mem_cons.mp hx with rfl | hx
        · exact new hs
        · exact hrn x hx ((below.mem_seen x).mpr (.inl (List.mem_cons_of_mem n hs)))

/-- With a node that is put in order all nodes next to it are seen. -/
theorem next_mem (h : PostOrder next seen todo seen' order) :
    ∀ x ∈ order, ∀ y ∈ next x, y ∈ seen' := by
  induction h with
  | nil => simp
  | skip _ _ ih => exact ih
  | enter _ below rest ihb ihr =>
    intro x hx y hy
    rcases List.mem_append.mp hx with hx | hx
    · exact (rest.mem_seen y).mpr (.inl (ihb x hx y hy))
    · rcases List.mem_cons.mp hx with rfl | hx
      · exact (rest.mem_seen y).mpr (.inl (below.mem_of_mem_todo y hy))
      · exact ihr x hx y hy

theorem reachable {roots : List α} (h : PostOrder next seen todo seen' order)
    (ht : ∀ x ∈ todo, Reachable next roots x) : ∀ x ∈ order, Reachable next roots x := by
  induction h with
  | nil => simp
  | skip _ _ ih => exact ih fun x hx => ht x (List.mem_cons_of_mem _ hx)
  | enter _ _ _ ihb ihr =>
    have hn := ht _ List.mem_cons_self
    intro x hx
    rcases List.mem_append.mp hx with hx | hx
    · exact ihb (fun y hy => .next hn hy) x hx
    · rcases List.mem_cons.mp hx with rfl | hx
      · exact hn
      · exact ihr (fun y hy => ht y (List.mem_cons_of_mem _ hy)) x hx

/-- With nothing seen before, exactly what can be reached is put in order. -/
theorem mem_iff_reachable (h : PostOrder next [] todo seen' order) (x : α) :
    x ∈ order ↔ Reachable next todo x := by
  have hs (x : α) : x ∈ seen' ↔ x ∈ order := by simp [h.mem_seen]
  constructor
  · exact h.reachable (fun x hx => .root hx) x
  · intro hx
    induction hx with
    | root hx => exact (hs _).mp (h.mem_of_mem_todo _ hx)
    | next _ hm ih => exact (hs _).mp (h.next_mem _ ih _ hm)

end PostOrder
end UnitCache
