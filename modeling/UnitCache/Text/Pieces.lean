namespace UnitCache

/-- The pieces between the separators; there is always at least one. -/
def cutAt {α : Type} [DecidableEq α] (sep : α) : List α → List (List α)
  | [] => [[]]
  | c :: cs =>
    if c = sep then [] :: cutAt sep cs
    else
      match cutAt sep cs with
      | [] => [[c]]
      | p :: ps => (c :: p) :: ps

/-- The pieces with the separator between them. -/
def pasteWith {α : Type} (sep : α) : List (List α) → List α
  | [] => []
  | [p] => p
  | p :: q :: ps => p ++ sep :: pasteWith sep (q :: ps)

variable {α : Type}

theorem cutAt_ne_nil [DecidableEq α] (sep : α) (cs : List α) : cutAt sep cs ≠ [] := by
  cases cs with
  | nil => simp [cutAt]
  | cons c cs =>
    simp only [cutAt]
    split
    · simp
    · split <;> simp

theorem pasteWith_cons {sep : α} {p : List α} {ps : List (List α)} (h : ps ≠ []) :
    pasteWith sep (p :: ps) = p ++ sep :: pasteWith sep ps := by
  cases ps with
  | nil => exact absurd rfl h
  | cons q qs => rfl

theorem pasteWith_cons_cons (sep c : α) (p : List α) (ps : List (List α)) :
    pasteWith sep ((c :: p) :: ps) = c :: pasteWith sep (p :: ps) := by
  cases ps <;> simp [pasteWith]

theorem pasteWith_cutAt [DecidableEq α] (sep : α) (cs : List α) : pasteWith sep (cutAt sep cs) = cs := by
  induction cs with
  | nil => rfl
  | cons c cs ih =>
    simp only [cutAt]
    split
    · rename_i h
      rw [pasteWith_cons (cutAt_ne_nil sep cs), ih, h]
      rfl
    · cases hc : cutAt sep cs with
      | nil => exact absurd hc (cutAt_ne_nil sep cs)
      | cons p ps => rw [pasteWith_cons_cons, ← hc, ih]

theorem cutAt_of_not_mem [DecidableEq α] {sep : α} {p : List α} (h : sep ∉ p) : cutAt sep p = [p] := by
  induction p with
  | nil => rfl
  | cons c p ih =>
    simp only [List.mem_cons, not_or] at h
    simp [cutAt, ih h.2, Ne.symm h.1]

theorem cutAt_append [DecidableEq α] {sep : α} {p : List α} (h : sep ∉ p) (cs : List α) :
    cutAt sep (p ++ sep :: cs) = p :: cutAt sep cs := by
  induction p with
  | nil => simp [cutAt]
  | cons c p ih =>
    simp only [List.mem_cons, not_or] at h
    simp [cutAt, ih h.2, Ne.symm h.1]

theorem cutAt_pasteWith [DecidableEq α] {sep : α} {ps : List (List α)} (hn : ps ≠ []) (h : ∀ p ∈ ps, sep ∉ p) :
    cutAt sep (pasteWith sep ps) = ps := by
  induction ps with
  | nil => exact absurd rfl hn
  | cons p ps ih =>
    have hp : sep ∉ p := h p (by simp)
    cases ps with
    | nil => exact cutAt_of_not_mem hp
    | cons q qs =>
      rw [pasteWith_cons (by simp), cutAt_append hp,
        ih (by simp) (fun r hr => h r (List.mem_cons_of_mem _ hr))]

theorem not_mem_of_mem_cutAt [DecidableEq α] {sep : α} {cs p : List α} (h : p ∈ cutAt sep cs) : sep ∉ p := by
  induction cs generalizing p with
  | nil => simp_all [cutAt]
  | cons c cs ih =>
    simp only [cutAt] at h
    split at h
    · rcases List.mem_cons.mp h with rfl | h
      · simp
      · exact ih h
    · rename_i hc
      cases he : cutAt sep cs with
      | nil => exact absurd he (cutAt_ne_nil sep cs)
      | cons q qs =>
        rw [he] at h
        rcases List.mem_cons.mp h with rfl | h
        · simp only [List.mem_cons, not_or]
          exact ⟨fun e => hc e.symm, ih (by simp [he])⟩
        · exact ih (by simp [he, h])

end UnitCache
