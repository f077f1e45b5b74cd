import UnitCache.Proofs.PathJoin

namespace UnitCache

/-- Pieces have no characters of their own. -/
theorem mem_of_mem_cutAt {α : Type} [DecidableEq α] {sep c : α} {cs p : List α}
    (hp : p ∈ cutAt sep cs) (hc : c ∈ p) : c ∈ cs := by
  induction cs generalizing p with
  | nil => simp_all [cutAt]
  | cons a cs ih =>
    simp only [cutAt] at hp
    split at hp
    · rcases List.mem_cons.mp hp with rfl | hp
      · cases hc
      · exact List.mem_cons_of_mem a (ih hp hc)
    · cases he : cutAt sep cs with
      | nil => exact absurd he (cutAt_ne_nil sep cs)
      | cons q qs =>
        rw [he] at hp ih
        rcases List.mem_cons.mp hp with rfl | hp
        · rcases List.mem_cons.mp hc with rfl | hc
          · exact List.mem_cons_self
          · exact List.mem_cons_of_mem a (ih List.mem_cons_self hc)
        · exact List.mem_cons_of_mem a (ih (List.mem_cons_of_mem q hp) hc)

/-- What is put together from pieces has the characters of these and the separator. -/
theorem mem_of_mem_pasteWith {α : Type} {sep c : α} {ps : List (List α)} (h : c ∈ pasteWith sep ps)
    (hc : c ≠ sep) : ∃ p ∈ ps, c ∈ p := by
  induction ps using pasteWith.induct with
  | case1 => cases h
  | case2 p => exact ⟨p, List.mem_singleton_self p, h⟩
  | case3 p q ps ih =>
    rcases List.mem_append.mp h with hp | hp
    · exact ⟨p, List.mem_cons_self, hp⟩
    · obtain ⟨r, hr, hcr⟩ := ih ((List.mem_cons.mp hp).resolve_left hc)
      exact ⟨r, List.mem_cons_of_mem p hr, hcr⟩

namespace Path

variable {p : Path} {s n ext : List Char} {ps qs : List (List Char)} {front : List Component}
  {absolute : Bool}

/-- The components of pieces; `absolute` says that they come after the root. -/
def componentsOf (absolute : Bool) (ps : List (List Char)) : List Component :=
  if absolute then .root :: ps.filterMap Component.ofPiece
  else
    match ps with
    | ['.'] :: ps => .here :: ps.filterMap Component.ofPiece
    | ps => ps.filterMap Component.ofPiece

theorem components_eq (p : Path) : p.components = componentsOf p.isAbsolute p.body := rfl

theorem componentsOf_relative (h : ps.head? ≠ some ['.']) :
    componentsOf false ps = ps.filterMap Component.ofPiece := by
  unfold componentsOf
  rw [if_neg (by simp)]
  split
  · exact absurd rfl h
  · rfl

theorem componentsOf_append (h : absolute = true ∨ ps ≠ [] ∨ qs.head? ≠ some ['.']) :
    componentsOf absolute (ps ++ qs) = componentsOf absolute ps ++ qs.filterMap Component.ofPiece := by
  cases absolute with
  | true => simp [componentsOf]
  | false =>
    cases ps with
    | nil =>
      have hq := (h.resolve_left (by simp)).resolve_left (by simp)
      exact componentsOf_relative hq
    | cons p ps =>
      by_cases hp : p = ['.']
      · simp [componentsOf, hp]
      · rw [componentsOf_relative (by simpa using hp), componentsOf_relative (by simpa using hp),
          List.filterMap_append]

theorem ofPiece_of_noise (h : isNoise s = true) : Component.ofPiece s = none := if_pos h

theorem ofPiece_of_name (h : isNoise s = false) (hup : s ≠ ['.', '.']) :
    Component.ofPiece s = some (.name s) := by
  rw [Component.ofPiece, h, if_neg (by simp), if_neg hup]

/-- What names nothing at the end of some pieces is no component. -/
theorem componentsOf_dropNoise (absolute : Bool) (ps : List (List Char)) :
    componentsOf absolute (dropNoise absolute ps).reverse = componentsOf absolute ps.reverse := by
  fun_induction dropNoise absolute ps with
  | case1 => rfl
  | case2 p h =>
    rcases Bool.or_eq_true_iff.mp h with hp | hp
    · obtain rfl := of_decide_eq_true hp
      cases absolute <;> rfl
    · obtain ⟨rfl, hp⟩ := Bool.and_eq_true_iff.mp hp
      obtain rfl := of_decide_eq_true hp
      rfl
  | case3 p h => rfl
  | case4 p q ps h ih =>
    rw [ih, List.reverse_cons (a := p), componentsOf_append (.inr (.inl (by simp)))]
    simp [ofPiece_of_noise h]
  | case5 p q ps h => rfl

theorem components_reversed (p : Path) :
    p.components = componentsOf p.isAbsolute p.reversedBody.reverse := by
  rw [reversedBody, componentsOf_dropNoise, List.reverse_reverse, components_eq]

/-- What is left at the end names something, unless it is the dot that a relative path starts with. -/
theorem head_dropNoise {m : List Char} {rest : List (List Char)}
    (h : dropNoise absolute ps = m :: rest) :
    isNoise m = false ∨ absolute = false ∧ m = ['.'] ∧ rest = [] := by
  fun_induction dropNoise absolute ps with
  | case1 => cases h
  | case2 p hp => cases h
  | case3 p hp =>
    obtain ⟨rfl, rfl⟩ := List.cons.inj h
    by_cases hm : p = ['.']
    · subst hm
      exact .inr ⟨by simpa using hp, rfl, rfl⟩
    · exact .inl (by simpa [isNoise, hm] using fun he => hp (by simp [he]))
  | case4 p q ps hp ih => exact ih h
  | case5 p q ps hp =>
    obtain ⟨rfl, rfl⟩ := List.cons.inj h
    exact .inl (by simpa using hp)

/-- A path whose last component is a name ends in it. -/
theorem reversedBody_of_components (h : p.components = front ++ [.name n]) :
    ∃ rest, p.reversedBody = n :: rest ∧ front = componentsOf p.isAbsolute rest.reverse ∧
      isNoise n = false ∧ n ≠ ['.', '.'] := by
  rw [components_reversed] at h
  cases hr : p.reversedBody with
  | nil =>
    rw [hr] at h
    have hl := congrArg List.getLast? h
    cases ha : p.isAbsolute <;> rw [ha] at hl <;> simp [componentsOf] at hl
  | cons m rest =>
    rw [hr, List.reverse_cons] at h
    rcases head_dropNoise hr with hm | ⟨ha, rfl, rfl⟩
    · have hdot : m ≠ ['.'] := by
        rintro rfl
        simp [isNoise] at hm
      rw [componentsOf_append (.inr (.inr (by simpa using hdot)))] at h
      by_cases hup : m = ['.', '.']
      · subst hup
        have hl := congrArg List.getLast? h
        rw [List.filterMap_cons_some (show Component.ofPiece ['.', '.'] = some .up from rfl)] at hl
        simp at hl
      · rw [List.filterMap_cons_some (ofPiece_of_name hm hup)] at h
        obtain ⟨hf, hn⟩ := List.append_inj' h rfl
        obtain rfl := Component.name.inj (List.cons.inj hn).1
        exact ⟨rest, rfl, hf.symm, hm, hup⟩
    · have hl := congrArg List.getLast? h
      rw [ha] at hl
      simp [componentsOf] at hl

theorem chars_ne_nil_of_reversedBody {rest : List (List Char)} (h : p.reversedBody = n :: rest) :
    p.chars ≠ [] := by
  intro hnil
  have hp : p = ⟨[]⟩ := by cases p; exact congrArg Path.mk hnil
  rw [hp] at h
  cases h

theorem fileName?_of_components (h : p.components = front ++ [.name n]) : p.fileName? = some n := by
  obtain ⟨rest, hr, -, hn, hup⟩ := reversedBody_of_components h
  have hdot : n ≠ ['.'] := by
    rintro rfl
    simp [isNoise] at hn
  simp [fileName?, hr, hdot, hup]

structure Spelled (absolute : Bool) (ps : List (List Char)) : Prop where
  no_slash : ∀ s ∈ ps, '/' ∉ s
  starts : absolute = true ∨ ps.head? ≠ some []

theorem Spelled.of_append (h : Spelled absolute (ps ++ qs)) : Spelled absolute ps := by
  refine ⟨fun s hs => h.no_slash s (List.mem_append_left _ hs), h.starts.imp_right fun hh => ?_⟩
  cases ps with
  | nil => simp
  | cons p ps => exact hh

theorem spelled_body (hp : p.chars ≠ []) : Spelled p.isAbsolute p.body := by
  refine ⟨fun s hs => no_slash_of_mem_body hs, ?_⟩
  cases ha : p.isAbsolute with
  | true => exact .inl rfl
  | false =>
    refine .inr fun hh => ?_
    cases hc : p.chars with
    | nil => exact hp hc
    | cons c cs =>
      have hslash : c ≠ '/' := fun h => by simp [isAbsolute, hc, h] at ha
      simp only [body, ha, hc, Bool.false_eq_true, if_false, cutAt, hslash] at hh
      split at hh <;> simp at hh

theorem spelled_reversedBody (hp : p.chars ≠ []) : Spelled p.isAbsolute p.reversedBody.reverse := by
  obtain ⟨noise, he, -⟩ := dropNoise_eq p.isAbsolute p.body.reverse
  have hb := congrArg List.reverse he
  rw [List.reverse_reverse, List.reverse_append] at hb
  exact (hb ▸ spelled_body hp).of_append

theorem Spelled.isAbsolute_ofBody (h : Spelled absolute ps) :
    (ofBody absolute ps).isAbsolute = absolute := by
  cases absolute with
  | true => rfl
  | false =>
    have hhead := h.starts.resolve_left (by simp)
    match ps, hhead, h.no_slash with
    | [], _, _ => rfl
    | (c :: cs) :: ps, _, hs =>
      have hc : c ≠ '/' := fun he => hs _ List.mem_cons_self (he ▸ List.mem_cons_self)
      simp [ofBody, isAbsolute, pasteWith_cons_cons, hc]

theorem Spelled.components (h : Spelled absolute ps) :
    (ofBody absolute ps).components = componentsOf absolute ps := by
  by_cases hn : ps = []
  · subst hn
    cases absolute <;> rfl
  have hbody : (ofBody absolute ps).body = ps := by
    rw [body, h.isAbsolute_ofBody]
    cases absolute <;> exact cutAt_pasteWith hn h.no_slash
  rw [components_eq, h.isAbsolute_ofBody, hbody]

theorem pasteWith_concat_append (sep : Char) (ps : List (List Char)) (s t : List Char) :
    pasteWith sep (ps ++ [s]) ++ t = pasteWith sep (ps ++ [s ++ t]) := by
  induction ps with
  | nil => rfl
  | cons p ps ih =>
    rw [List.cons_append, List.cons_append, pasteWith_cons (by simp), pasteWith_cons (by simp), ← ih]
    simp

theorem pasteWith_concat (sep : Char) (h : ps ≠ []) (s : List Char) :
    pasteWith sep (ps ++ [s]) = pasteWith sep ps ++ sep :: s := by
  induction ps with
  | nil => exact absurd rfl h
  | cons p ps ih =>
    rw [List.cons_append, pasteWith_cons (by simp)]
    by_cases hps : ps = []
    · rw [hps]
      rfl
    · rw [ih hps, pasteWith_cons hps]
      simp

/-- A name without dots stays one with a dot and more at its end. -/
theorem ofPiece_append_dot (hn : isNoise n = false) (hd : '.' ∉ n) (t : List Char) :
    Component.ofPiece (n ++ '.' :: t) = some (.name (n ++ '.' :: t)) := by
  cases n with
  | nil => cases hn
  | cons c cs =>
    have hc : c ≠ '.' := fun h => hd (h ▸ List.mem_cons_self)
    exact ofPiece_of_name (by simp [isNoise, hc]) (by simp [hc])

/-- An extension goes to the last name. -/
theorem components_setExtension (h : p.components = front ++ [.name n]) (hd : '.' ∉ n)
    (he : ext ≠ []) (hslash : '/' ∉ ext) :
    (p.setExtension ext).components = front ++ [.name (n ++ '.' :: ext)] := by
  obtain ⟨rest, hr, rfl, hn, hup⟩ := reversedBody_of_components h
  have hp := chars_ne_nil_of_reversedBody hr
  have hset : p.setExtension ext = ofBody p.isAbsolute (rest.reverse ++ [n ++ '.' :: ext]) := by
    rw [setExtension, fileName?_of_components h, hr]
    simp only [splitExtension_of_no_dot hd, he, if_false, List.reverse_cons, ofBody]
    split
    · rw [List.cons_append, pasteWith_concat_append]
    · rw [pasteWith_concat_append]
  have hspelled := spelled_reversedBody hp
  rw [hr, List.reverse_cons] at hspelled
  have hlong : Spelled p.isAbsolute (rest.reverse ++ [n ++ '.' :: ext]) := by
    refine ⟨fun s hs => ?_, ?_⟩
    · rcases List.mem_append.mp hs with hs | hs
      · exact hspelled.no_slash s (List.mem_append_left _ hs)
      · have hslash' := hspelled.no_slash n (by simp)
        rw [List.mem_singleton.mp hs]
        simp [hslash, hslash']
    · refine hspelled.starts.imp_right fun hh => ?_
      cases hrest : rest.reverse with
      | nil => simp
      | cons q qs => simpa [hrest] using hh
  have hname := ofPiece_append_dot hn hd ext
  rw [hset, hlong.components, componentsOf_append (.inr (.inr ?_)), List.filterMap_cons_some hname]
  · rfl
  · rintro hdot
    rw [show n ++ '.' :: ext = ['.'] by simpa using hdot] at hname
    cases hname

theorem body_eq_lead (hp : p.chars ≠ []) : p.body = p.lead ∨ p.body = p.lead ++ [[]] := by
  rcases p.chars_eq with h | h
  · have ht : p.trunk ≠ [] := fun hnil => hp (h.trans hnil)
    rw [lead, if_neg ht, ← h]
    exact .inl rfl
  · have hb := body_slash p.trunk []
    rw [← h] at hb
    exact .inr hb

theorem componentsOf_lead (hp : p.chars ≠ []) : componentsOf p.isAbsolute p.lead = p.components := by
  rw [components_eq]
  rcases body_eq_lead hp with h | h
  · rw [h]
  · rw [h, componentsOf_append (.inr (.inr (by simp)))]
    exact (List.append_nil _).symm

/-- What is joined to a path that is not empty adds its components, without a dot in front. -/
theorem components_join_of_ne_nil (hp : p.chars ≠ []) (hs : (Path.mk s).isAbsolute = false) :
    (p.join ⟨s⟩).components = p.components ++ (cutAt '/' s).filterMap Component.ofPiece := by
  have hlead : p.isAbsolute = true ∨ p.lead ≠ [] := by
    by_cases ht : p.trunk = []
    · exact .inl ((isAbsolute_trunk hp).trans (by simp [ht]))
    · refine .inr ?_
      rw [lead, if_neg ht, body]
      split <;> exact cutAt_ne_nil '/' _
  rw [components_eq, isAbsolute_join_of_relative p hs, body_join_of_relative p hs,
    componentsOf_append (hlead.imp_right .inl), componentsOf_lead hp]

/-- What is joined to a path adds its components. -/
theorem components_join (p : Path) (hs : (Path.mk s).isAbsolute = false)
    (hd : (cutAt '/' s).head? ≠ some ['.']) :
    (p.join ⟨s⟩).components = p.components ++ (cutAt '/' s).filterMap Component.ofPiece := by
  by_cases hp : p.chars = []
  · have hc : p = ⟨[]⟩ := by cases p; exact congrArg Path.mk hp
    subst hc
    rw [show (Path.mk []).join ⟨s⟩ = ⟨s⟩ by simp [join, hs], components_eq, hs]
    simp only [body, hs, Bool.false_eq_true, if_false]
    exact componentsOf_relative hd
  · exact components_join_of_ne_nil hp hs

/-- Only the empty path has no components: one that starts with no name starts with the root or a
dot. -/
theorem components_eq_nil_iff : p.components = [] ↔ p.chars = [] := by
  refine ⟨fun h => ?_, fun h => by cases p; subst h; rfl⟩
  by_contra hp
  have hstarts := (spelled_body hp).starts
  rw [components_eq] at h
  cases ha : p.isAbsolute with
  | true =>
    rw [ha] at h
    cases h
  | false =>
    obtain ⟨s, ps, hb⟩ : ∃ s ps, p.body = s :: ps := by
      refine List.exists_cons_of_ne_nil ?_
      rw [body, ha]
      exact cutAt_ne_nil '/' _
    rw [ha, hb] at h hstarts
    have hne : s ≠ [] := by simpa using hstarts
    by_cases hdot : s = ['.']
    · subst hdot
      cases h
    · rw [componentsOf_relative (by simpa using hdot)] at h
      have hnone := List.forall_none_of_filterMap_eq_nil h s List.mem_cons_self
      by_cases hup : s = ['.', '.']
      · subst hup
        cases hnone
      · rw [ofPiece_of_name (by simp [isNoise, hne, hdot]) hup] at hnone
        cases hnone

/-- Above a name stands a path with the components before it. -/
theorem parent?_of_components (h : p.components = front ++ [.name n]) :
    ∃ q, p.parent? = some q ∧ q.components = front := by
  obtain ⟨rest, hr, rfl, -, -⟩ := reversedBody_of_components h
  have hspelled := spelled_reversedBody (chars_ne_nil_of_reversedBody hr)
  obtain ⟨noise, he, -⟩ := dropNoise_eq p.isAbsolute rest
  rw [hr, List.reverse_cons, he, List.reverse_append, List.append_assoc] at hspelled
  refine ⟨ofBody p.isAbsolute (dropNoise p.isAbsolute rest).reverse, by rw [parent?, hr], ?_⟩
  rw [hspelled.of_append.components, componentsOf_dropNoise]

/-- Another name stands beside the last one. -/
theorem components_withFileName (h : p.components = front ++ [.name n]) {b : List Char}
    (hb : IsNamed b) (hup : b ≠ ['.', '.']) :
    (p.withFileName b).components = front ++ [.name b] := by
  obtain ⟨q, hq, rfl⟩ := parent?_of_components h
  rw [withFileName, fileName?_of_components h, hq]
  simp only
  rw [components_join _ hb.not_absolute (by simpa [cutAt_of_not_mem hb.no_slash] using hb.ne_dot),
    cutAt_of_not_mem hb.no_slash, List.filterMap_cons_some (ofPiece_of_name hb.not_noise hup)]
  rfl

end Path
end UnitCache
