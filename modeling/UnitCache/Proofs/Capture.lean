import UnitCache.Capture
import UnitCache.Proofs.Dialogue

namespace UnitCache

namespace NameMap

variable {α : Type}

def insertAll (m : NameMap α) (es : List (String × α)) : NameMap α :=
  es.foldl (fun m e => m.insert e.1 e.2) m

@[simp]
theorem insertAll_nil (m : NameMap α) : m.insertAll [] = m := rfl

@[simp]
theorem insertAll_cons (m : NameMap α) (e : String × α) (es : List (String × α)) :
    m.insertAll (e :: es) = (m.insert e.1 e.2).insertAll es := rfl

theorem insertAll_append (m : NameMap α) (es fs : List (String × α)) :
    m.insertAll (es ++ fs) = (m.insertAll es).insertAll fs := List.foldl_append

theorem get?_insert (m : NameMap α) (k j : String) (v : α) :
    (m.insert k v).get? j = if j = k then some v else m.get? j := by
  split
  · rename_i h
    rw [h, get?_insert_self]
  · rename_i h
    exact m.get?_insert_of_ne h v

/-- What is inserted hides what was there, and nothing else. -/
theorem get?_insertAll (m : NameMap α) (es : List (String × α)) (k : String) :
    (m.insertAll es).get? k = ((empty.insertAll es).get? k).or (m.get? k) := by
  induction es generalizing m with
  | nil => rfl
  | cons e es ih =>
    rw [insertAll_cons, ih, insertAll_cons, ih (empty.insert e.1 e.2), Option.or_assoc]
    congr 1
    rw [get?_insert, get?_insert]
    split <;> simp

theorem isSome_get?_insertAll (es : List (String × α)) (k : String) :
    ((empty.insertAll es).get? k).isSome ↔ k ∈ es.map Prod.fst := by
  induction es with
  | nil => simp
  | cons e es ih =>
    rw [insertAll_cons, get?_insertAll, Option.isSome_or, Bool.or_eq_true, ih, get?_insert]
    by_cases hk : k = e.1 <;> simp [hk]

theorem get?_insertAll_of_not_mem (m : NameMap α) {es : List (String × α)} {k : String}
    (h : k ∉ es.map Prod.fst) : (m.insertAll es).get? k = m.get? k := by
  have hn : (empty.insertAll es).get? k = none := by
    rw [← Option.not_isSome_iff_eq_none, isSome_get?_insertAll]
    exact h
  rw [get?_insertAll, hn, Option.none_or]

/-- What is found was inserted, or was there before. -/
theorem mem_of_get?_insertAll {m : NameMap α} {es : List (String × α)} {k : String} {v : α}
    (h : (m.insertAll es).get? k = some v) : (k, v) ∈ es ∨ m.get? k = some v := by
  induction es generalizing m with
  | nil => exact .inr h
  | cons e es ih =>
    rcases ih h with h | h
    · exact .inl (List.mem_cons_of_mem e h)
    · rw [get?_insert] at h
      split at h
      · rename_i hk
        cases h
        exact .inl (hk ▸ List.mem_cons_self)
      · exact .inr h

theorem lookupEntry_eq_some {es : List (String × α)} {k : String} {v : α}
    (hs : es.Pairwise (fun a b => a.1 < b.1)) : lookupEntry k es = some v ↔ (k, v) ∈ es := by
  induction es with
  | nil => simp [lookupEntry]
  | cons e es ih =>
    obtain ⟨hl, hes⟩ := List.pairwise_cons.mp hs
    simp only [lookupEntry, List.mem_cons]
    split
    · rename_i hk
      subst hk
      constructor
      · intro h
        exact .inl (Prod.ext rfl (Option.some.inj h).symm)
      · rintro (h | h)
        · rw [← h]
        · exact absurd (hl _ h) (String.lt_irrefl _)
    · rename_i hk
      rw [ih hes]
      constructor
      · exact .inr
      · rintro (h | h)
        · exact absurd (congrArg Prod.fst h) hk
        · exact h

/-- The entries of a map are its names with their values. -/
theorem mem_entries {m : NameMap α} {k : String} {v : α} :
    (k, v) ∈ m.entries ↔ m.get? k = some v :=
  (lookupEntry_eq_some m.sorted).symm

end NameMap

namespace Classpath

theorem close_close (c : Classpath) : c.close.close = c.close := by
  unfold close
  split <;> simp_all

end Classpath

namespace Capture

open Dialogue

variable {α : Type}

def written (d : Disk) (x : Dialogue α) (c : Capture) : List (String × Bytes) :=
  (x.calls (manager d) c).filterMap Call.output?

section

variable (d : Disk) (c : Capture)

@[simp]
theorem run_find (name : String) (next : Except Error (Option ModuleSource) → Dialogue α) :
    ((Dialogue.find name next).run (manager d)).run c =
      ((next (c.find d name)).run (manager d)).run c := rfl

@[simp]
theorem run_write (name : String) (bytes : Bytes) (next : Except Error Unit → Dialogue α) :
    ((Dialogue.write name bytes next).run (manager d)).run c =
      ((next (.ok ())).run (manager d)).run (c.write name bytes) := rfl

@[simp]
theorem run_close (next : Except Error Unit → Dialogue α) :
    ((Dialogue.close next).run (manager d)).run c =
      ((next (.ok ())).run (manager d)).run c.close := rfl

@[simp]
theorem calls_find (name : String) (next : Except Error (Option ModuleSource) → Dialogue α) :
    (Dialogue.find name next).calls (manager d) c =
      .find name :: (next (c.find d name)).calls (manager d) c := rfl

@[simp]
theorem calls_write (name : String) (bytes : Bytes) (next : Except Error Unit → Dialogue α) :
    (Dialogue.write name bytes next).calls (manager d) c =
      .write name bytes :: (next (.ok ())).calls (manager d) (c.write name bytes) := rfl

@[simp]
theorem calls_close (next : Except Error Unit → Dialogue α) :
    (Dialogue.close next).calls (manager d) c =
      .close :: (next (.ok ())).calls (manager d) c.close := rfl

end

theorem run_outputs (d : Disk) (x : Dialogue α) (c : Capture) :
    ((x.run (manager d)).run c).2.outputs = c.outputs.insertAll (written d x c) := by
  induction x generalizing c with
  | done a => rfl
  | find name next ih => exact ih _ c
  | write name bytes next ih => exact ih _ (c.write name bytes)
  | close next ih => exact ih _ c.close

/-- A classpath is only ever closed by a compile. -/
theorem run_classpath (d : Disk) (x : Dialogue α) (c : Capture) :
    ((x.run (manager d)).run c).2.classpath =
      if .close ∈ x.calls (manager d) c then c.classpath.close else c.classpath := by
  induction x generalizing c with
  | done a => rfl
  | find name next ih => simp [ih]
  | write name bytes next ih => simp [ih, write]
  | close next ih => simp [ih, close, Classpath.close_close]

end Capture
end UnitCache
