namespace UnitCache

structure NameMap (α : Type) where
  entries : List (String × α)
  sorted : entries.Pairwise (fun a b => a.1 < b.1) := by simp

namespace NameMap

variable {α : Type}

def empty : NameMap α := ⟨[], List.Pairwise.nil⟩

instance : Inhabited (NameMap α) := ⟨empty⟩

def insertEntry (k : String) (v : α) : List (String × α) → List (String × α)
  | [] => [(k, v)]
  | e :: es =>
    if k < e.1 then (k, v) :: e :: es
    else if k = e.1 then (k, v) :: es
    else e :: insertEntry k v es

theorem mem_insertEntry {k : String} {v : α} {es : List (String × α)} {x : String × α}
    (h : x ∈ insertEntry k v es) : x = (k, v) ∨ x ∈ es := by
  induction es with
  | nil => simpa [insertEntry] using h
  | cons e es ih =>
    simp only [insertEntry] at h
    split at h
    · simpa using h
    · split at h
      · rcases List.mem_cons.mp h with h | h
        · exact .inl h
        · exact .inr (List.mem_cons_of_mem _ h)
      · rcases List.mem_cons.mp h with h | h
        · exact .inr (h ▸ List.mem_cons_self)
        · exact (ih h).imp id (List.mem_cons_of_mem _)

theorem lt_of_not_lt_of_ne {a b : String} (h : ¬a < b) (hn : a ≠ b) : b < a :=
  String.not_le.mp fun hl => hn (String.le_antisymm hl (String.not_lt.mp h))

theorem sorted_insertEntry (k : String) (v : α) {es : List (String × α)}
    (h : es.Pairwise (fun a b => a.1 < b.1)) :
    (insertEntry k v es).Pairwise (fun a b => a.1 < b.1) := by
  induction es with
  | nil => simp [insertEntry]
  | cons e es ih =>
    obtain ⟨he, hes⟩ := List.pairwise_cons.mp h
    simp only [insertEntry]
    split
    · rename_i hk
      refine List.pairwise_cons.mpr ⟨fun x hx => ?_, h⟩
      rcases List.mem_cons.mp hx with rfl | hx
      · exact hk
      · exact String.lt_trans hk (he x hx)
    · split
      · rename_i hk
        exact List.pairwise_cons.mpr ⟨fun x hx => hk ▸ he x hx, hes⟩
      · rename_i hk hn
        refine List.pairwise_cons.mpr ⟨fun x hx => ?_, ih hes⟩
        rcases mem_insertEntry hx with rfl | hx
        · exact lt_of_not_lt_of_ne hk hn
        · exact he x hx

/-- Gives a name its value, in place of the one it had. -/
def insert (m : NameMap α) (k : String) (v : α) : NameMap α :=
  ⟨insertEntry k v m.entries, sorted_insertEntry k v m.sorted⟩

def lookupEntry (k : String) : List (String × α) → Option α
  | [] => none
  | e :: es => if k = e.1 then some e.2 else lookupEntry k es

def get? (m : NameMap α) (k : String) : Option α := lookupEntry k m.entries

def contains (m : NameMap α) (k : String) : Bool := (m.get? k).isSome

def names (m : NameMap α) : List String := m.entries.map (·.1)

def size (m : NameMap α) : Nat := m.entries.length

def isEmpty (m : NameMap α) : Bool := m.entries.isEmpty

theorem lookupEntry_insertEntry_self (k : String) (v : α) (es : List (String × α)) :
    lookupEntry k (insertEntry k v es) = some v := by
  induction es with
  | nil => simp [insertEntry, lookupEntry]
  | cons e es ih =>
    simp only [insertEntry]
    split
    · simp [lookupEntry]
    · split
      · simp [lookupEntry]
      · rename_i hn
        simp [lookupEntry, hn, ih]

theorem lookupEntry_insertEntry_of_ne {k j : String} (h : j ≠ k) (v : α)
    (es : List (String × α)) : lookupEntry j (insertEntry k v es) = lookupEntry j es := by
  induction es with
  | nil => simp [insertEntry, lookupEntry, h]
  | cons e es ih =>
    simp only [insertEntry]
    split
    · simp [lookupEntry, h]
    · split
      · rename_i he
        subst he
        simp [lookupEntry, h]
      · simp [lookupEntry, ih]

@[simp]
theorem get?_insert_self (m : NameMap α) (k : String) (v : α) : (m.insert k v).get? k = some v :=
  lookupEntry_insertEntry_self k v m.entries

theorem get?_insert_of_ne (m : NameMap α) {k j : String} (h : j ≠ k) (v : α) :
    (m.insert k v).get? j = m.get? j :=
  lookupEntry_insertEntry_of_ne h v m.entries

@[simp]
theorem get?_empty (k : String) : (empty : NameMap α).get? k = none := rfl

end NameMap
end UnitCache
