import Mathlib.Data.List.Basic
import Mathlib.Data.List.TakeDrop
import Mathlib.Data.List.TakeWhile
import UnitCache.Disk.Walk
import UnitCache.UnitName

namespace UnitCache

theorem cutAt_append_cons {α : Type} [DecidableEq α] (sep : α) (cs ds : List α) :
    cutAt sep (cs ++ sep :: ds) = cutAt sep cs ++ cutAt sep ds := by
  induction cs with
  | nil => simp [cutAt]
  | cons c cs ih =>
    simp only [List.cons_append, cutAt, ih]
    split
    · rfl
    · cases h : cutAt sep cs with
      | nil => exact absurd h (cutAt_ne_nil sep cs)
      | cons p ps => rfl

namespace Path

/-- A name as the pieces of a path have it: not empty and without a slash. -/
structure IsPiece (s : List Char) : Prop where
  ne_nil : s ≠ []
  no_slash : '/' ∉ s

variable {p q : Path} {s : List Char}

theorem IsPiece.not_absolute (hs : IsPiece s) : (Path.mk s).isAbsolute = false := by
  cases s with
  | nil => exact absurd rfl hs.ne_nil
  | cons c cs =>
    have hc : c ≠ '/' := fun h => hs.no_slash (h ▸ List.mem_cons_self)
    simp [isAbsolute, hc]

theorem IsPiece.append (hs : IsPiece s) {t : List Char} (ht : '/' ∉ t) : IsPiece (s ++ t) :=
  ⟨by simp [hs.ne_nil], by simp [hs.no_slash, ht]⟩

def trunk (p : Path) : List Char :=
  if p.chars.getLast? = some '/' then p.chars.dropLast else p.chars

theorem chars_eq (p : Path) : p.chars = p.trunk ∨ p.chars = p.trunk ++ ['/'] := by
  unfold trunk
  split
  · rename_i h
    obtain ⟨cs, hc⟩ := List.getLast?_eq_some_iff.mp h
    right
    rw [hc, List.dropLast_concat]
  · exact .inl rfl

theorem join_chars_of_relative (hp : p.chars ≠ []) (hs : (Path.mk s).isAbsolute = false) :
    (p.join ⟨s⟩).chars = p.trunk ++ '/' :: s := by
  rw [join, hs]
  simp only [Bool.false_eq_true, if_false, hp, false_or, trunk]
  split
  · rename_i h
    obtain ⟨cs, hc⟩ := List.getLast?_eq_some_iff.mp h
    simp [hc]
  · rfl

theorem join_chars (hp : p.chars ≠ []) (hs : IsPiece s) :
    (p.join ⟨s⟩).chars = p.trunk ++ '/' :: s := join_chars_of_relative hp hs.not_absolute

def lead (p : Path) : List (List Char) := if p.trunk = [] then [] else (Path.mk p.trunk).body

theorem ofBody_body (p : Path) : ofBody p.isAbsolute p.body = p := by
  obtain ⟨cs⟩ := p
  simp only [ofBody, body]
  cases cs with
  | nil => simp [isAbsolute, pasteWith_cutAt]
  | cons c cs =>
    by_cases hc : c = '/' <;> simp [isAbsolute, hc, pasteWith_cutAt]

theorem isAbsolute_slash (b t : List Char) :
    (Path.mk (b ++ '/' :: t)).isAbsolute = (decide (b = []) || (Path.mk b).isAbsolute) := by
  cases b <;> simp [isAbsolute]

theorem body_slash (b t : List Char) : (Path.mk (b ++ '/' :: t)).body =
    (if b = [] then [] else (Path.mk b).body) ++ cutAt '/' t := by
  cases b with
  | nil => simp [body, isAbsolute]
  | cons c b =>
    by_cases hc : c = '/'
    · simp [body, isAbsolute, hc, cutAt_append_cons]
    · have hcut := cutAt_append_cons '/' (c :: b) t
      simpa [body, isAbsolute, hc] using hcut

theorem isAbsolute_trunk (hp : p.chars ≠ []) :
    p.isAbsolute = (decide (p.trunk = []) || (Path.mk p.trunk).isAbsolute) := by
  rcases p.chars_eq with h | h
  · rw [h] at hp
    simp [isAbsolute, h, hp]
  · rw [← isAbsolute_slash p.trunk [], ← h]

/-- What is joined to the empty path stands for itself. -/
theorem join_of_empty (hp : p.chars = []) (hs : (Path.mk s).isAbsolute = false) : p.join ⟨s⟩ = ⟨s⟩ := by
  simp [join, hs, hp]

theorem isAbsolute_join_of_relative (p : Path) (hs : (Path.mk s).isAbsolute = false) :
    (p.join ⟨s⟩).isAbsolute = p.isAbsolute := by
  by_cases hp : p.chars = []
  · rw [join_of_empty hp hs, hs]
    simp [isAbsolute, hp]
  · have h := isAbsolute_slash p.trunk s
    rw [← join_chars_of_relative hp hs] at h
    rw [isAbsolute_trunk hp]
    exact h

theorem isAbsolute_join (p : Path) (hs : IsPiece s) :
    (p.join ⟨s⟩).isAbsolute = p.isAbsolute := isAbsolute_join_of_relative p hs.not_absolute

theorem body_join_of_relative (p : Path) (hs : (Path.mk s).isAbsolute = false) :
    (p.join ⟨s⟩).body = p.lead ++ cutAt '/' s := by
  by_cases hp : p.chars = []
  · rw [join_of_empty hp hs, lead, trunk, hp]
    simp [body, hs]
  · have h := body_slash p.trunk s
    rw [← join_chars_of_relative hp hs] at h
    exact h

theorem body_join (p : Path) (hs : IsPiece s) : (p.join ⟨s⟩).body = p.lead ++ [s] := by
  rw [body_join_of_relative p hs.not_absolute, cutAt_of_not_mem hs.no_slash]

theorem join_chars_suffix (p : Path) (hs : (Path.mk s).isAbsolute = false) :
    ∃ front, (p.join ⟨s⟩).chars = front ++ s := by
  by_cases hp : p.chars = []
  · exact ⟨[], by rw [join_of_empty hp hs]; rfl⟩
  · exact ⟨p.trunk ++ ['/'], by rw [join_chars_of_relative hp hs]; simp⟩

theorem getLast?_join_of_relative (p : Path) (hs : (Path.mk s).isAbsolute = false) (hne : s ≠ []) :
    (p.join ⟨s⟩).chars.getLast? = s.getLast? := by
  obtain ⟨front, hc⟩ := p.join_chars_suffix hs
  rw [hc, List.getLast?_append_of_ne_nil _ hne]

theorem getLast?_join (p : Path) (hs : IsPiece s) : (p.join ⟨s⟩).chars.getLast? ≠ some '/' := by
  rw [getLast?_join_of_relative p hs.not_absolute hs.ne_nil]
  exact fun h => hs.no_slash (List.mem_of_getLast? h)

theorem trunk_join (p : Path) (hs : IsPiece s) :
    (p.join ⟨s⟩).trunk = (p.join ⟨s⟩).chars := if_neg (getLast?_join p hs)

theorem join_ne_nil (p : Path) (hs : IsPiece s) : (p.join ⟨s⟩).chars ≠ [] := by
  obtain ⟨front, hc⟩ := p.join_chars_suffix hs.not_absolute
  simp [hc, hs.ne_nil]

theorem lead_join (p : Path) (hs : IsPiece s) : (p.join ⟨s⟩).lead = p.lead ++ [s] := by
  rw [lead, trunk_join p hs, if_neg (join_ne_nil p hs)]
  exact body_join p hs

structure IsNamed (s : List Char) : Prop extends IsPiece s where
  ne_dot : s ≠ ['.']

theorem IsNamed.not_noise (hs : IsNamed s) : isNoise s = false := by
  simp [isNoise, hs.ne_nil, hs.ne_dot]

theorem dropNoise_named (hs : IsNamed s) (absolute : Bool) (ps : List (List Char)) :
    dropNoise absolute (s :: ps) = s :: ps := by
  cases ps with
  | nil => simp [dropNoise, hs.ne_nil, hs.ne_dot]
  | cons q ps => simp [dropNoise, hs.not_noise]

theorem reversedBody_join (p : Path) (hs : IsNamed s) :
    (p.join ⟨s⟩).reversedBody = s :: p.lead.reverse := by
  rw [reversedBody, body_join p hs.toIsPiece, List.reverse_concat, dropNoise_named hs]

def trim (p : Path) : Path := ofBody p.isAbsolute (dropNoise p.isAbsolute p.lead.reverse).reverse

theorem parent?_join (p : Path) (hs : IsNamed s) : (p.join ⟨s⟩).parent? = some p.trim := by
  rw [parent?, reversedBody_join p hs, isAbsolute_join p hs.toIsPiece]
  rfl

theorem trim_join (p : Path) (hs : IsNamed s) : (p.join ⟨s⟩).trim = p.join ⟨s⟩ := by
  rw [trim, lead_join p hs.toIsPiece, List.reverse_concat, dropNoise_named hs,
    ← List.reverse_concat, List.reverse_reverse, ← body_join p hs.toIsPiece, ofBody_body]

theorem fileName?_join (p : Path) (hs : IsNamed s) (hup : s ≠ ['.', '.']) :
    (p.join ⟨s⟩).fileName? = some s := by
  simp [fileName?, reversedBody_join p hs, hs.ne_dot, hup]

theorem splitExtension_of_no_dot (h : '.' ∉ s) : splitExtension s = (s, none) := by
  have hs : ∀ c ∈ s.reverse, (decide (c ≠ '.')) = true := by
    intro c hc
    have hm : c ∈ s := List.mem_reverse.mp hc
    simpa using fun he : c = '.' => h (he ▸ hm)
  rw [splitExtension, List.span_eq_takeWhile_dropWhile, List.dropWhile_eq_nil_iff.mpr hs]

theorem setExtension_join (p : Path) (hs : IsPiece s) (hd : '.' ∉ s) {ext : List Char}
    (he : ext ≠ []) (hslash : '/' ∉ ext) :
    (p.join ⟨s⟩).setExtension ext = p.join ⟨s ++ '.' :: ext⟩ := by
  have hdot : s ≠ ['.'] := fun h => hd (h ▸ List.mem_cons_self)
  have hup : s ≠ ['.', '.'] := fun h => hd (h ▸ List.mem_cons_self)
  have hname : IsNamed s := ⟨hs, hdot⟩
  have hlong : IsPiece (s ++ '.' :: ext) := hs.append (by simp [hslash])
  rw [setExtension, fileName?_join p hname hup, reversedBody_join p hname]
  simp only [splitExtension_of_no_dot hd, he, if_false]
  rw [List.reverse_cons, List.reverse_reverse, ← body_join p hs, ofBody_body]
  by_cases hp : p.chars = []
  · rw [join_of_empty hp hs.not_absolute, join_of_empty hp hlong.not_absolute]
  · change mk _ = mk (p.join ⟨s ++ '.' :: ext⟩).chars
    rw [join_chars hp hs, join_chars hp hlong, List.append_assoc, List.cons_append]

theorem withFileName_join (p : Path) (hs : IsNamed s) (hup : s ≠ ['.', '.'])
    (n : List Char) : (p.join ⟨s⟩).withFileName n = p.trim.join ⟨n⟩ := by
  rw [withFileName, fileName?_join p hs hup, parent?_join p hs]

theorem ancestorsOf_named (hs : IsNamed s) (absolute : Bool) (ps : List (List Char)) :
    ancestorsOf absolute (s :: ps) = ofBody absolute (ps.reverse ++ [s]) :: ancestorsOf absolute ps := by
  rw [ancestorsOf]
  split
  · rename_i h
    rw [dropNoise_named hs] at h
    cases h
  · rename_i h
    rw [dropNoise_named hs] at h
    obtain ⟨rfl, rfl⟩ := List.cons.inj h
    rw [List.reverse_cons]

theorem ancestors_join (p : Path) (hs : IsNamed s) :
    (p.join ⟨s⟩).ancestors = p.join ⟨s⟩ :: ancestorsOf p.isAbsolute p.lead.reverse := by
  rw [ancestors, body_join p hs.toIsPiece, List.reverse_concat, ancestorsOf_named hs,
    isAbsolute_join p hs.toIsPiece]
  rfl

/-- Above a name joined to a path that ends in a name itself stands that path. -/
theorem ancestors_join_join (p : Path) (hs : IsNamed s) {t : List Char} (ht : IsNamed t) :
    ((p.join ⟨s⟩).join ⟨t⟩).ancestors = (p.join ⟨s⟩).join ⟨t⟩ :: (p.join ⟨s⟩).ancestors := by
  rw [ancestors_join _ ht, ancestors_join p hs, lead_join p hs.toIsPiece, List.reverse_concat,
    ancestorsOf_named hs, List.reverse_reverse, ← body_join p hs.toIsPiece, ofBody_body,
    isAbsolute_join p hs.toIsPiece]

open Disk (names endsInSlash)

theorem names_slash (b t : List Char) :
    names ⟨b ++ '/' :: t⟩ = names ⟨b⟩ ++ names ⟨t⟩ := by
  simp [names, cutAt_append_cons]

theorem names_piece (hs : IsPiece s) : names ⟨s⟩ = [s] := by
  simp [names, cutAt_of_not_mem hs.no_slash, hs.ne_nil]

theorem names_trunk (p : Path) : names ⟨p.trunk⟩ = names p := by
  obtain ⟨cs⟩ := p
  rcases chars_eq ⟨cs⟩ with h | h
  · rw [← h]
  · have hn := names_slash (trunk ⟨cs⟩) []
    rw [← h] at hn
    simpa [names, cutAt] using hn.symm

theorem names_join_of_relative (p : Path) (hs : (Path.mk s).isAbsolute = false) :
    names (p.join ⟨s⟩) = names p ++ names ⟨s⟩ := by
  by_cases hp : p.chars = []
  · obtain rfl : p = ⟨[]⟩ := congrArg Path.mk hp
    rw [join_of_empty rfl hs]
    rfl
  · have h := names_slash p.trunk s
    rw [← join_chars_of_relative hp hs, names_trunk] at h
    exact h

theorem names_join (p : Path) (hs : IsPiece s) :
    names (p.join ⟨s⟩) = names p ++ [s] := by
  rw [names_join_of_relative p hs.not_absolute, names_piece hs]

theorem endsInSlash_join (p : Path) (hs : IsPiece s) :
    endsInSlash (p.join ⟨s⟩) = false := decide_eq_false (getLast?_join p hs)

theorem names_paste {ps : List (List Char)} (h : ∀ s ∈ ps, '/' ∉ s) :
    names ⟨pasteWith '/' ps⟩ = ps.filter (· ≠ []) := by
  cases ps with
  | nil => simp [names, pasteWith, cutAt]
  | cons s ps => rw [names, cutAt_pasteWith (by simp) h]

theorem names_ofBody (absolute : Bool) {ps : List (List Char)} (h : ∀ s ∈ ps, '/' ∉ s) :
    names (ofBody absolute ps) = ps.filter (· ≠ []) := by
  cases absolute with
  | false => exact names_paste h
  | true =>
    have hn := names_slash [] (pasteWith '/' ps)
    rw [names_paste h] at hn
    simpa [ofBody, names, cutAt] using hn

theorem no_slash_of_mem_body (h : s ∈ p.body) : '/' ∉ s := by
  unfold body at h
  split at h <;> exact not_mem_of_mem_cutAt h

theorem no_slash_of_mem_lead (h : s ∈ p.lead) : '/' ∉ s := by
  unfold lead at h
  split at h
  · cases h
  · exact no_slash_of_mem_body h

theorem names_lead (p : Path) : p.lead.filter (· ≠ []) = names p := by
  rw [← names_trunk, lead]
  split
  · rename_i h
    simp [h, names, cutAt]
  · rw [← names_ofBody (Path.mk p.trunk).isAbsolute fun s hs => no_slash_of_mem_body hs, ofBody_body]

/-- What is taken off the end of a body names nothing. -/
theorem dropNoise_eq (absolute : Bool) (ps : List (List Char)) :
    ∃ noise, ps = noise ++ dropNoise absolute ps ∧ ∀ s ∈ noise, isNoise s = true := by
  fun_induction dropNoise absolute ps with
  | case1 => exact ⟨[], rfl, by simp⟩
  | case2 p h =>
    refine ⟨[p], rfl, ?_⟩
    simp only [List.mem_singleton, forall_eq, isNoise]
    simp only [Bool.or_eq_true, Bool.and_eq_true] at h ⊢
    exact h.imp id And.right
  | case3 p h => exact ⟨[], rfl, by simp⟩
  | case4 p q ps h ih =>
    obtain ⟨noise, he, hn⟩ := ih
    refine ⟨p :: noise, by rw [List.cons_append, ← he], ?_⟩
    simpa [h] using hn
  | case5 p q ps h => exact ⟨[], rfl, by simp⟩

/-- The pieces of a path are those of the trimmed one and some that name nothing. -/
theorem lead_eq (p : Path) : ∃ kept noise, p.lead = kept ++ noise ∧
    p.trim = ofBody p.isAbsolute kept ∧ ∀ s ∈ noise, isNoise s = true := by
  obtain ⟨noise, he, hn⟩ := dropNoise_eq p.isAbsolute p.lead.reverse
  refine ⟨(dropNoise p.isAbsolute p.lead.reverse).reverse, noise.reverse, ?_, rfl, by simpa using hn⟩
  rw [← List.reverse_append, ← he, List.reverse_reverse]

theorem names_trim (p : Path) :
    ∃ dots, names p = names p.trim ++ dots ∧ ∀ s ∈ dots, s = ['.'] := by
  obtain ⟨kept, noise, hl, ht, hn⟩ := p.lead_eq
  have hk (s : List Char) (hs : s ∈ kept) : '/' ∉ s :=
    no_slash_of_mem_lead (p := p) (hl ▸ List.mem_append_left _ hs)
  refine ⟨noise.filter (· ≠ []), ?_, ?_⟩
  · rw [← names_lead, hl, List.filter_append, ht, names_ofBody _ hk]
  · intro s hs
    obtain ⟨hm, hne⟩ := List.mem_filter.mp hs
    have := hn s hm
    simp only [isNoise, Bool.or_eq_true, decide_eq_true_eq] at this hne
    exact this.resolve_left hne

theorem dropNoise_ne_nil {ps : List (List Char)} (h : ∃ s, ps.getLast? = some s ∧ s ≠ []) :
    dropNoise false ps ≠ [] := by
  obtain ⟨s, hs, hne⟩ := h
  induction ps with
  | nil => cases hs
  | cons p ps ih =>
    cases ps with
    | nil =>
      obtain rfl : p = s := by simpa using hs
      simp [dropNoise, hne]
    | cons q ps =>
      rw [dropNoise]
      split
      · exact ih (by rwa [List.getLast?_cons_cons] at hs)
      · simp

/-- The first piece of a relative path is not empty. -/
theorem head_lead (hp : p.chars ≠ []) (ha : p.isAbsolute = false) :
    ∃ c s ps, p.lead = (c :: s) :: ps ∧ c ≠ '/' := by
  have htrunk := isAbsolute_trunk hp
  rw [ha] at htrunk
  obtain ⟨ht, hb⟩ := Bool.or_eq_false_iff.mp htrunk.symm
  rw [lead, if_neg (by simpa using ht), body, hb]
  cases hc : p.trunk with
  | nil => simp [hc] at ht
  | cons c cs =>
    have hne : c ≠ '/' := by
      rintro rfl
      simp [hc, isAbsolute] at hb
    simp only [Bool.false_eq_true, if_false, cutAt, hne]
    cases cutAt '/' cs with
    | nil => exact ⟨c, [], [], rfl, hne⟩
    | cons s ps => exact ⟨c, s, ps, rfl, hne⟩

/-- A trimmed path starts as it did. -/
theorem head_trim (hp : p.chars ≠ []) :
    p.trim.chars ≠ [] ∧ p.trim.isAbsolute = p.isAbsolute := by
  cases ha : p.isAbsolute with
  | true =>
    rw [trim, ha]
    simp [ofBody, isAbsolute]
  | false =>
    obtain ⟨c, s, ps, hl, hc⟩ := head_lead hp ha
    have hne : dropNoise false p.lead.reverse ≠ [] :=
      dropNoise_ne_nil ⟨c :: s, by simp [hl], by simp⟩
    obtain ⟨noise, he, -⟩ := dropNoise_eq false p.lead.reverse
    obtain ⟨front, x, hx⟩ := (List.eq_nil_or_concat' _).resolve_left hne
    have hlast := congrArg List.getLast? he
    rw [hx] at hlast
    simp only [hl, List.reverse_cons, ← List.append_assoc,
      List.getLast?_concat, Option.some.injEq] at hlast
    rw [trim, ha, hx, List.reverse_concat, ← hlast, ofBody,
      pasteWith_cons_cons]
    simp [isAbsolute, hc]

theorem prefix_pasteWith (sep : Char) (ps qs : List (List Char)) :
    pasteWith sep ps <+: pasteWith sep (ps ++ qs) := by
  induction ps with
  | nil => simp [pasteWith]
  | cons p ps ih =>
    cases ps with
    | nil =>
      cases qs with
      | nil => simp
      | cons q qs => exact ⟨_, rfl⟩
    | cons r ps =>
      have hrest := List.prefix_append_right_inj (p ++ [sep]) |>.mpr ih
      simpa [pasteWith, List.append_assoc] using hrest

/-- A trimmed path is the front of the path. -/
theorem prefix_trim (hp : p.chars ≠ []) : p.trim.chars <+: p.chars := by
  have htrunk : p.trunk <+: p.chars := by
    rcases p.chars_eq with h | h
    · exact h ▸ List.prefix_rfl
    · exact h ▸ List.prefix_append _ _
  obtain ⟨kept, noise, hl, ht, -⟩ := p.lead_eq
  rw [ht]
  by_cases hn : p.trunk = []
  · have hlead : p.lead = [] := by rw [lead, if_pos hn]
    have hkept : kept = [] := (List.append_eq_nil_iff.mp (hl ▸ hlead)).1
    have habs := isAbsolute_trunk hp
    have hchars := (p.chars_eq).resolve_left fun h => hp (h.trans hn)
    rw [hchars, hn, habs]
    simp [hn, hkept, ofBody, pasteWith]
  · have habs := isAbsolute_trunk hp
    have hbody := ofBody_body ⟨p.trunk⟩
    have hlead : p.lead = (Path.mk p.trunk).body := by rw [lead, if_neg hn]
    have hpre := prefix_pasteWith '/' kept noise
    rw [← hl, hlead] at hpre
    refine List.IsPrefix.trans ?_ htrunk
    rw [show p.trunk = (ofBody (Path.mk p.trunk).isAbsolute (Path.mk p.trunk).body).chars by
      rw [hbody], habs]
    simp only [hn, decide_false, Bool.false_or, ofBody]
    split
    · exact List.prefix_cons_inj _ |>.mpr hpre
    · exact hpre

theorem prefix_join_of_relative (hp : p.chars ≠ []) (hs : (Path.mk s).isAbsolute = false) :
    p.chars <+: (p.join ⟨s⟩).chars := by
  rw [join_chars_of_relative hp hs]
  rcases p.chars_eq with h | h
  · exact h ▸ List.prefix_append _ _
  · rw [h, List.append_cons p.trunk '/' s]
    exact List.prefix_append _ _

theorem prefix_join (hp : p.chars ≠ []) (hs : IsPiece s) : p.chars <+: (p.join ⟨s⟩).chars :=
  prefix_join_of_relative hp hs.not_absolute

def below (p : Path) (ms : List (List Char)) : Path := ms.foldl (fun q s => q.join ⟨s⟩) p

theorem below_append (p : Path) (ms ns : List (List Char)) :
    p.below (ms ++ ns) = (p.below ms).below ns := List.foldl_append

theorem below_concat (p : Path) (ms : List (List Char)) (s : List Char) :
    p.below (ms ++ [s]) = (p.below ms).join ⟨s⟩ := p.below_append ms [s]

section Below

variable {ms ns : List (List Char)}

theorem below_ne_nil (hp : p.chars ≠ []) (h : ∀ m ∈ ms, IsPiece m) : (p.below ms).chars ≠ [] := by
  induction ms generalizing p with
  | nil => exact hp
  | cons m ms ih =>
    exact ih (join_ne_nil p (h m List.mem_cons_self)) fun n hn => h n (List.mem_cons_of_mem _ hn)

theorem below_ne_nil_of_ne_nil (p : Path) (h : ∀ m ∈ ms, IsPiece m) (hne : ms ≠ []) :
    (p.below ms).chars ≠ [] := by
  obtain ⟨m, rest, rfl⟩ := List.exists_cons_of_ne_nil hne
  obtain ⟨hm, hrest⟩ := List.forall_mem_cons.mp h
  exact below_ne_nil (p := p.join ⟨m⟩) (join_ne_nil p hm) hrest

theorem names_below (p : Path) (h : ∀ m ∈ ms, IsPiece m) : names (p.below ms) = names p ++ ms := by
  induction ms generalizing p with
  | nil => exact (List.append_nil _).symm
  | cons m ms ih =>
    have hrest := ih (p.join ⟨m⟩) fun n hn => h n (List.mem_cons_of_mem _ hn)
    rw [names_join p (h m List.mem_cons_self), List.append_assoc] at hrest
    exact hrest

theorem isAbsolute_below (p : Path) (h : ∀ m ∈ ms, IsPiece m) :
    (p.below ms).isAbsolute = p.isAbsolute := by
  induction ms generalizing p with
  | nil => rfl
  | cons m ms ih =>
    have hrest := ih (p.join ⟨m⟩) fun n hn => h n (List.mem_cons_of_mem _ hn)
    exact hrest.trans (isAbsolute_join p (h m List.mem_cons_self))

theorem endsInSlash_below (p : Path) (h : ∀ m ∈ ms, IsPiece m) (hne : ms ≠ []) :
    endsInSlash (p.below ms) = false := by
  obtain ⟨ns, s, rfl⟩ := (List.eq_nil_or_concat' ms).resolve_left hne
  rw [below_concat]
  exact endsInSlash_join _ (h s List.mem_concat_self)

theorem trim_below (p : Path) (h : ∀ m ∈ ms, IsNamed m) (hne : ms ≠ []) :
    (p.below ms).trim = p.below ms := by
  obtain ⟨ns, s, rfl⟩ := (List.eq_nil_or_concat' ms).resolve_left hne
  rw [below_concat]
  exact trim_join _ (h s List.mem_concat_self)

/-- Above a name below other names below a path stands what those stand for. -/
theorem ancestors_below (p : Path) (h : ∀ m ∈ ms ++ [s], IsNamed m) (hne : ms ≠ []) :
    (p.below (ms ++ [s])).ancestors = p.below (ms ++ [s]) :: (p.below ms).ancestors := by
  obtain ⟨ns, t, rfl⟩ := (List.eq_nil_or_concat' ms).resolve_left hne
  rw [below_concat, below_concat]
  exact ancestors_join_join _ (h t (by simp)) (h s (by simp))

end Below

end Path
end UnitCache
