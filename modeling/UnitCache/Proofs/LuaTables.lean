import UnitCache.Lua.Table

namespace UnitCache.Lua.Table

variable {t : Table} {bs cs : Bytes} {v : Value}

def under (t : Table) (bs : Bytes) : List Value :=
  (t.fields.toList.filter (fun f => f.1 = .string bs)).map Prod.snd

theorem get_string (t : Table) (bs : Bytes) :
    t.get (.string bs) = (t.under bs).head?.getD .nil := by
  have hf : t.fields.find? (fun f => decide (f.1 = .string bs)) =
      (t.fields.toList.filter (fun f => f.1 = .string bs)).head? := by
    rw [← Array.find?_toList, List.head?_filter]
  have hkey : (Value.string bs).asKey = .string bs := rfl
  have hplace : t.place? (.string bs) = none := rfl
  simp only [get, hkey, hplace, hf, under, List.head?_map]
  cases (t.fields.toList.filter (fun f => decide (f.1 = .string bs))).head? <;> rfl

theorem under_push (t : Table) (f : Value × Value) (bs : Bytes) :
    under { t with fields := t.fields.push f } bs =
      t.under bs ++ ([f].filter (fun f => f.1 = .string bs)).map Prod.snd := by
  simp [under]

/-- Placing an entry adds to the values of its own key only. -/
theorem under_place (t : Table) (f : Value × Value) (bs : Bytes) :
    (t.place f.1 f.2).under bs =
      t.under bs ++ ([f].filter (fun f => f.1 = .string bs)).map Prod.snd := by
  unfold place
  cases hp : t.place? f.1 with
  | some i =>
    have hf : f.1 ≠ .string bs := by
      intro h
      rw [h] at hp
      cases hp
    simp [under, hf]
  | none => rw [under_push]

theorem under_foldl_place (fs : List (Value × Value)) (t : Table) (bs : Bytes) :
    (fs.foldl (fun t f => t.place f.1 f.2) t).under bs =
      t.under bs ++ (fs.filter (fun f => f.1 = .string bs)).map Prod.snd := by
  induction fs generalizing t with
  | nil => simp
  | cons f fs ih =>
    rw [List.foldl_cons, ih, under_place, List.append_assoc, ← List.map_append, ← List.filter_append]
    rfl

theorem metatable_place (t : Table) (k v : Value) : (t.place k v).metatable = t.metatable := by
  unfold place
  split <;> rfl

theorem metatable_foldl_place (fs : List (Value × Value)) (t : Table) :
    (fs.foldl (fun t f => t.place f.1 f.2) t).metatable = t.metatable := by
  induction fs generalizing t with
  | nil => rfl
  | cons f fs ih => rw [List.foldl_cons, ih, metatable_place]

/-- What is nil is given up when entries are moved, everything else under a text is kept. -/
theorem under_resize (t : Table) (size capacity : Nat) (bs : Bytes) :
    (t.resize size capacity).under bs = (t.under bs).filter (· ≠ .nil) := by
  rw [resize, under_foldl_place]
  have hmoved : (((t.array.toList.drop size).zipIdx (size + 1)).map
      fun p => (Value.nat p.2, p.1)).filter (fun f => f.1 = .string bs) = [] := by
    rw [List.filter_eq_nil_iff]
    intro f hf
    obtain ⟨p, -, rfl⟩ := List.mem_map.mp hf
    simp [Value.nat, Value.int]
  rw [List.filter_filter, List.filter_congr (fun f _ => Bool.and_comm _ _), ← List.filter_filter,
    List.filter_append, hmoved, List.append_nil, under, under, List.filter_map]
  rfl

theorem metatable_resize (t : Table) (size capacity : Nat) :
    (t.resize size capacity).metatable = t.metatable := by
  rw [resize, metatable_foldl_place]

inductive Putting (t : Table) (bs : Bytes) (v : Value) : Table → Prop
  | replaced (before after : List (Value × Value)) (old : Value) (fresh : ∀ f ∈ before, f.1 ≠ .string bs)
      (parts : t.fields.toList = before ++ (.string bs, old) :: after) :
      Putting t bs v { t with fields := (before ++ (.string bs, v) :: after).toArray }
  | ignored (absent : t.under bs = []) (nothing : v = .nil) : Putting t bs v t
  | added (t' : Table) (absent : t.under bs = []) (something : v ≠ .nil)
      (roomy : t' = t ∨ ∃ size capacity, t' = t.resize size capacity) :
      Putting t bs v { t' with fields := t'.fields.push (.string bs, v) }

theorem under_eq_nil_of_fieldIndex? (h : t.fieldIndex? (.string bs) = none) : t.under bs = [] := by
  rw [fieldIndex?, Array.findIdx?_eq_none_iff] at h
  rw [under, List.map_eq_nil_iff, List.filter_eq_nil_iff]
  intro f hf
  rw [h f (Array.mem_toList_iff.mp hf)]
  exact Bool.false_ne_true

theorem set_putting (t : Table) (bs : Bytes) (v : Value) : Putting t bs v (t.set (.string bs) v) := by
  have hkey : (Value.string bs).asKey = .string bs := rfl
  have hplace : t.place? (.string bs) = none := rfl
  simp only [set, hkey, hplace]
  cases hi : t.fieldIndex? (.string bs) with
  | some i =>
    rw [fieldIndex?, Array.findIdx?_eq_some_iff_getElem] at hi
    obtain ⟨hlt, hkey, hfirst⟩ := hi
    have hkey : t.fields[i].1 = .string bs := of_decide_eq_true hkey
    have hlt' : i < t.fields.toList.length := hlt
    have hnew : t.fields.setIfInBounds i (.string bs, v) =
        (t.fields.toList.take i ++ (.string bs, v) :: t.fields.toList.drop (i + 1)).toArray := by
      apply Array.ext'
      rw [Array.toList_setIfInBounds, List.set_eq_take_append_cons_drop, if_pos hlt']
    simp only
    rw [hnew]
    refine .replaced _ _ t.fields[i].2 (fun f hf => ?_) ?_
    · obtain ⟨j, hj, rfl⟩ := List.mem_take_iff_getElem.mp hf
      exact fun h => hfirst j (Nat.lt_of_lt_of_le hj (Nat.min_le_left _ _)) (decide_eq_true h)
    · have hparts := (List.take_append_drop i t.fields.toList).symm
      rw [List.drop_eq_getElem_cons hlt', Array.getElem_toList] at hparts
      rw [← hkey]
      exact hparts
  | none =>
    have habsent := under_eq_nil_of_fieldIndex? hi
    simp only
    split
    · exact .ignored habsent ‹_›
    · split
      · exact .added t habsent ‹_› (.inl rfl)
      · exact .added _ habsent ‹_› (.inr ⟨_, _, rfl⟩)

theorem under_of_fields {t : Table} {before after : List (Value × Value)} {f : Value × Value}
    (h : t.fields.toList = before ++ f :: after) (bs : Bytes) :
    t.under bs = (before.filter (fun f => f.1 = .string bs)).map Prod.snd ++
      (([f].filter (fun f => f.1 = .string bs)).map Prod.snd ++
        (after.filter (fun f => f.1 = .string bs)).map Prod.snd) := by
  rw [under, h, ← List.map_append, ← List.map_append, ← List.filter_append, ← List.filter_append]
  rfl

def Distinct (t : Table) : Prop := ∀ bs, (t.under bs).length ≤ 1

/-- Giving up what is nil changes nothing that is found. -/
theorem head_filter_under (ht : t.Distinct) (bs : Bytes) :
    ((t.under bs).filter (· ≠ .nil)).head?.getD .nil = (t.under bs).head?.getD .nil := by
  have hlen := ht bs
  rcases h : t.under bs with _ | ⟨v, vs⟩
  · rfl
  · rw [h, List.length_cons] at hlen
    have hvs : vs = [] := List.eq_nil_of_length_eq_zero (Nat.le_zero.mp (Nat.le_of_succ_le_succ hlen))
    by_cases hv : v = .nil <;> simp [hvs, hv]

namespace Putting

variable {t' : Table}

/-- What is put under a text is found there. -/
theorem get_self (h : Putting t bs v t') : t'.get (.string bs) = v := by
  rw [get_string]
  cases h with
  | replaced before after old fresh parts =>
    have hbefore : before.filter (fun f => f.1 = .string bs) = [] := by
      rw [List.filter_eq_nil_iff]
      exact fun f hf => by simpa using fresh f hf
    rw [under_of_fields rfl, hbefore]
    simp
  | ignored absent nothing =>
    rw [absent, nothing]
    rfl
  | added t' absent something roomy =>
    have hnone : t'.under bs = [] := by
      rcases roomy with rfl | ⟨size, capacity, rfl⟩
      · exact absent
      · rw [under_resize, absent]
        rfl
    rw [under_push, hnone]
    simp

/-- Under another text the same is found as before. -/
theorem get_of_ne (h : Putting t bs v t') (ht : t.Distinct) (hne : cs ≠ bs) :
    t'.get (.string cs) = t.get (.string cs) := by
  have hkey : Value.string bs ≠ .string cs := fun he => hne (Value.string.inj he).symm
  rw [get_string, get_string]
  cases h with
  | replaced before after old fresh parts =>
    rw [under_of_fields rfl, under_of_fields parts]
    simp [hkey]
  | ignored absent nothing => rfl
  | added t' absent something roomy =>
    rw [under_push]
    rcases roomy with rfl | ⟨size, capacity, rfl⟩
    · simp [hkey]
    · rw [under_resize, ← head_filter_under ht]
      simp [hkey]

/-- What is found under another text is found there still. -/
theorem get_kept (h : Putting t bs v t') (hne : cs ≠ bs) (hc : t.get (.string cs) ≠ .nil) :
    t'.get (.string cs) = t.get (.string cs) := by
  have hkey : Value.string bs ≠ .string cs := fun he => hne (Value.string.inj he).symm
  rw [get_string] at hc
  rw [get_string, get_string]
  cases h with
  | replaced before after old fresh parts =>
    rw [under_of_fields rfl, under_of_fields parts]
    simp [hkey]
  | ignored absent nothing => rfl
  | added t' absent something roomy =>
    rw [under_push]
    rcases roomy with rfl | ⟨size, capacity, rfl⟩
    · simp [hkey]
    · rw [under_resize]
      cases hu : t.under cs with
      | nil => simp [hkey]
      | cons x xs =>
        rw [hu] at hc
        have hx : x ≠ .nil := hc
        simp [hkey, hx]

theorem distinct (h : Putting t bs v t') (ht : t.Distinct) : t'.Distinct := by
  intro cs
  have hcs := ht cs
  cases h with
  | replaced before after old fresh parts =>
    rw [under_of_fields parts] at hcs
    rw [under_of_fields rfl]
    by_cases h : Value.string bs = .string cs <;> simpa [h] using hcs
  | ignored absent nothing => exact hcs
  | added t' absent something roomy =>
    have hle : (t'.under cs).length ≤ (t.under cs).length := by
      rcases roomy with rfl | ⟨size, capacity, rfl⟩
      · exact Nat.le_refl _
      · rw [under_resize]
        exact List.length_filter_le _ _
    rw [under_push]
    by_cases h : Value.string bs = .string cs
    · cases h
      rw [absent] at hle
      simp [List.eq_nil_of_length_eq_zero (Nat.le_zero.mp hle)]
    · simp only [List.filter_cons, h, decide_false, Bool.false_eq_true, ↓reduceIte,
        List.filter_nil, List.map_nil, List.append_nil]
      exact Nat.le_trans hle hcs

theorem metatable (h : Putting t bs v t') : t'.metatable = t.metatable := by
  cases h with
  | replaced before after old fresh parts => rfl
  | ignored absent nothing => rfl
  | added t' absent something roomy =>
    rcases roomy with rfl | ⟨size, capacity, rfl⟩
    · rfl
    · exact t.metatable_resize size capacity

end Putting

end UnitCache.Lua.Table
