import UnitCache.Classpath
import UnitCache.Proofs.Effects

namespace UnitCache.Classpath

inductive Opens (d : Disk) : List Path → List ClasspathEntry → Prop
  | nil : Opens d [] []
  | directory (h : d.isDirectory p = true) (rest : Opens d ps es) :
      Opens d (p :: ps) (.directory p :: es)
  | archive {id : FileId} (h : d.isDirectory p = false) (file : d.openAt p = .ok (.file id content))
      (listed : Zip.members content = .ok members) (rest : Opens d ps es) :
      Opens d (p :: ps) (.archive p id members :: es)
  | passed (h : d.isDirectory p = false) (rest : Opens d ps es) : Opens d (p :: ps) es

variable {d : Disk} {g g' : Host} {p x : Path} {ps : List Path} {es : List ClasspathEntry}

theorem openEntry_onlyReads (p : Path) : (openEntry p).OnlyReads := by
  refine .get_bind fun h => ?_
  dsimp only
  split
  · exact .pure _
  split
  · refine .bind (.reading p _) fun o => ?_
    cases o with
    | directory => exact .throw _
    | file id content =>
      dsimp only
      split
      · exact .pure _
      · exact .throw _
  · split
    · exact .bind (.report _) fun _ => .pure _
    · exact .pure _

theorem openAll_onlyReads (ps : List Path) : (openAll ps).OnlyReads := by
  induction ps with
  | nil => exact .pure _
  | cons p ps ih =>
    refine .bind (openEntry_onlyReads p) fun r => ?_
    cases r with
    | none => exact ih
    | some e => exact .bind ih fun _ => .pure _

theorem new_onlyReads (ps : List Path) (out : Option Path) : (Classpath.new ps out).OnlyReads :=
  .bind (openAll_onlyReads ps) fun _ => .pure _

theorem openEntry_ok {r : Option ClasspathEntry} (h : (openEntry p).run g = (.ok r, g'))
    (rest : Opens g.disk ps es) : Opens g.disk (p :: ps) (r.toList ++ es) := by
  rw [openEntry, run_bind_ok (rfl : (get : Action Host).run g = (.ok g, g))] at h
  simp only at h
  cases hd : g.disk.isDirectory p with
  | true =>
    rw [hd] at h
    cases h
    exact .directory hd rest
  | false =>
    simp only [hd, Bool.false_eq_true, if_false] at h
    split at h
    · have hread := Action.run_reading p (·.openAt p) g
      cases ho : g.disk.openAt p with
      | error f =>
        rw [ho] at hread
        rw [run_bind_error hread] at h
        cases h
      | ok o =>
        rw [ho] at hread
        rw [run_bind_ok hread] at h
        cases o with
        | directory => cases h
        | file id content =>
          simp only at h
          cases hm : Zip.members content with
          | error f =>
            rw [hm] at h
            cases h
          | ok members =>
            rw [hm] at h
            cases h
            exact .archive hd ho hm rest
    · -- With or without a report nothing is opened.
      split at h
      · cases h
        exact .passed hd rest
      · cases h
        exact .passed hd rest

theorem openAll_ok (h : (openAll ps).run g = (.ok es, g')) : Opens g.disk ps es := by
  induction ps generalizing g es with
  | nil =>
    cases h
    exact .nil
  | cons p ps ih =>
    rw [openAll] at h
    have hd := openEntry_onlyReads p g
    rcases he : (openEntry p).run g with ⟨_ | r, g₁⟩
    · rw [run_bind_error he] at h
      cases h
    rw [run_bind_ok he] at h
    rw [he] at hd
    cases r with
    | none => exact openEntry_ok he (hd ▸ ih h)
    | some e =>
      simp only at h
      rcases ho : (openAll ps).run g₁ with ⟨_ | rest, g₂⟩
      · rw [run_bind_error ho] at h
        cases h
      rw [run_bind_ok ho] at h
      cases h
      exact openEntry_ok he (hd ▸ ih ho)

theorem new_ok {c : Classpath} {root : Option Path} (h : (Classpath.new ps root).run g = (.ok c, g')) :
    g'.disk = g.disk ∧ Opens g.disk ps c.entries := by
  have hd := new_onlyReads ps root g
  rw [h] at hd
  refine ⟨hd, ?_⟩
  rcases ho : (openAll ps).run g with ⟨_ | es, g₁⟩
  · rw [Classpath.new, run_bind_error ho] at h
    cases h
  · rw [Classpath.new, run_bind_ok ho] at h
    cases h
    exact openAll_ok ho

namespace Opens

/-- The directories on the classpath are opened, and no other ones. -/
theorem directory_mem (h : Opens d ps es) :
    .directory x ∈ es ↔ x ∈ ps ∧ d.isDirectory x = true := by
  induction h with
  | nil => simp
  | @directory p _ _ hp _ ih =>
    have hhead : ClasspathEntry.directory x = .directory p ↔ x = p ∧ d.isDirectory x = true := by
      rw [ClasspathEntry.directory.injEq]
      constructor
      · rintro rfl
        exact ⟨rfl, hp⟩
      · exact fun hx => hx.1
    rw [List.mem_cons, List.mem_cons, hhead, or_and_right, ih]
  | @archive p _ _ _ _ _ hp _ _ _ ih =>
    have hhead : ¬(x = p ∧ d.isDirectory x = true) := by
      rintro ⟨rfl, hx⟩
      simp [hp] at hx
    rw [List.mem_cons, List.mem_cons, or_and_right, ← ih]
    simp [hhead]
  | @passed p _ _ hp _ ih =>
    have hhead : ¬(x = p ∧ d.isDirectory x = true) := by
      rintro ⟨rfl, hx⟩
      simp [hp] at hx
    rw [List.mem_cons, or_and_right, ← ih]
    simp [hhead]

/-- The archives that are opened are files. -/
theorem archive_mem {id : FileId} {members : List Zip.Member} (h : Opens d ps es) (he : .archive p id members ∈ es) :
    ∃ content, d.openAt p = .ok (.file id content) := by
  induction h with
  | nil => cases he
  | archive _ file _ _ ih =>
    rcases List.mem_cons.mp he with he | he
    · cases he
      exact ⟨_, file⟩
    · exact ih he
  | directory _ _ ih =>
    rcases List.mem_cons.mp he with he | he
    · cases he
    · exact ih he
  | passed _ _ ih => exact ih he

end Opens
end UnitCache.Classpath
