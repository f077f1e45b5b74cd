import UnitCache.Lua.Lexer
import UnitCache.Proofs.Effects

namespace UnitCache.Lua

open Lexeme Number

def IsSigned (tail : Bytes) : Prop :=
  tail = [] ∨ ∃ s ds, tail = s :: ds ∧ (s = byte '+' ∨ s = byte '-') ∧ ds ≠ [] ∧
    ∀ b ∈ ds, isDigit b = true

/-- A numeral as bytes: `body`, and then its exponent from the sign on if that has one. -/
structure IsNumeral (text : Bytes) : Prop where
  signed : ∃ body tail, text = body ++ tail ∧ (∀ b ∈ body, isNumberByte b = true) ∧ IsSigned tail
  ends : ∃ front last, text = front ++ last ∧
    ((∃ b, last = [b] ∧ isHexDigit b = true) ∨
      ∃ b, last = [b, byte '.'] ∧ isHexDigit b = true)

theorem isNumberByte_of_digit {b : UInt8} (h : isDigit b = true) : isNumberByte b = true := by
  simp [isNumberByte, h]

theorem isNumberByte_of_letter {b : UInt8} (h : isLetter b = true) : isNumberByte b = true := by
  simp [isNumberByte, h]

theorem isHexDigit_of_digit {b : UInt8} (h : isDigit b = true) : isHexDigit b = true := by
  simp [isHexDigit, h]

theorem isNumberByte_of_hexDigit {b : UInt8} (h : isHexDigit b = true) : isNumberByte b = true := by
  simp only [isHexDigit, Bool.or_eq_true, Bool.and_eq_true, decide_eq_true_eq] at h
  rcases h with (h | ⟨ha, hf⟩) | ⟨ha, hf⟩
  · exact isNumberByte_of_digit h
  · have hz := UInt8.le_trans hf (show byte 'f' ≤ byte 'z' by decide)
    exact isNumberByte_of_letter (by simp [isLetter, ha, hz])
  · have hz := UInt8.le_trans hf (show byte 'F' ≤ byte 'Z' by decide)
    exact isNumberByte_of_letter (by simp [isLetter, ha, hz])

theorem splitPoint_ok {digit : UInt8 → Bool} {bs whole frac rest : Bytes}
    (h : splitPoint digit bs = (whole, frac, rest)) :
    ∃ point, bs = whole ++ point ++ frac ++ rest ∧
      (point = [] ∧ frac = [] ∨ point = [byte '.']) ∧
      (∀ b ∈ whole, digit b = true) ∧ ∀ b ∈ frac, digit b = true := by
  have hall (l : Bytes) : ∀ b ∈ l.takeWhile digit, digit b = true :=
    List.all_eq_true.mp List.all_takeWhile
  have hbs := List.takeWhile_append_dropWhile (p := digit) (l := bs)
  unfold splitPoint at h
  dsimp only at h
  split at h
  · rename_i b more hdrop
    rw [hdrop] at hbs
    split at h
    · rename_i hb
      simp only [Prod.mk.injEq] at h
      obtain ⟨rfl, rfl, rfl⟩ := h
      refine ⟨[byte '.'], ?_, .inr rfl, hall bs, hall more⟩
      rw [List.append_assoc, List.takeWhile_append_dropWhile]
      simpa [hb] using hbs.symm
    · simp only [Prod.mk.injEq] at h
      obtain ⟨rfl, rfl, rfl⟩ := h
      exact ⟨[], by simpa using hbs.symm, .inl ⟨rfl, rfl⟩, hall bs, by simp⟩
  · rename_i hdrop
    rw [hdrop] at hbs
    simp only [Prod.mk.injEq] at h
    obtain ⟨rfl, rfl, rfl⟩ := h
    exact ⟨[], by simpa using hbs.symm, .inl ⟨rfl, rfl⟩, hall bs, by simp⟩

/-- An exponent is left out, or is a mark, perhaps a sign, and digits. -/
theorem exponent?_ok {lower upper : Char} {bs : Bytes} {e : Int}
    (h : exponent? lower upper bs = some e) :
    bs = [] ∨ ∃ m sign ds, bs = m :: (sign ++ ds) ∧ (m = byte lower ∨ m = byte upper) ∧
      (sign = [] ∨ sign = [byte '+'] ∨ sign = [byte '-']) ∧ ds ≠ [] ∧
      ∀ b ∈ ds, isDigit b = true := by
  cases bs with
  | nil => exact .inl rfl
  | cons m bs =>
    right
    rw [exponent?] at h
    split at h
    · rename_i hm
      simp only [Bool.or_eq_true, decide_eq_true_eq] at hm
      have hsplit : ∃ sign, bs = sign ++ (splitSign bs).2 ∧
          (sign = [] ∨ sign = [byte '+'] ∨ sign = [byte '-']) := by
        cases bs with
        | nil => exact ⟨[], rfl, .inl rfl⟩
        | cons s ds =>
          simp only [splitSign]
          split
          · rename_i hs
            exact ⟨[s], rfl, .inr (.inr (by rw [hs]))⟩
          · split
            · rename_i hs
              exact ⟨[s], rfl, .inr (.inl (by rw [hs]))⟩
            · exact ⟨[], rfl, .inl rfl⟩
      obtain ⟨sign, hbs, hsign⟩ := hsplit
      dsimp only at h
      split at h
      · rename_i hds
        simp only [ne_eq, Bool.and_eq_true, decide_eq_true_eq, List.all_eq_true] at hds
        exact ⟨m, sign, _, by rw [← hbs], hm, hsign, hds.1, hds.2⟩
      · cases h
    · cases h

theorem exists_getLast {p : UInt8 → Bool} {l : Bytes} (hne : l ≠ []) (h : ∀ b ∈ l, p b = true) :
    ∃ front b, l = front ++ [b] ∧ p b = true :=
  ⟨l.dropLast, l.getLast hne, (List.dropLast_concat_getLast hne).symm, h _ (List.getLast_mem hne)⟩

/-- A lead of number bytes, a mantissa with a digit in it, and an exponent. -/
theorem isNumeral_of_parts {digit : UInt8 → Bool} {lead bs whole frac rest : Bytes}
    {lower upper : Char} {e : Int} (hdigit : ∀ b, digit b = true → isHexDigit b = true)
    (hlead : ∀ b ∈ lead, isNumberByte b = true)
    (hmark : isLetter (byte lower) = true ∧ isLetter (byte upper) = true)
    (hsplit : splitPoint digit bs = (whole, frac, rest)) (hne : whole ++ frac ≠ [])
    (hexp : exponent? lower upper rest = some e) : IsNumeral (lead ++ bs) := by
  obtain ⟨point, rfl, hpoint, hwhole, hfrac⟩ := splitPoint_ok hsplit
  have hbody : ∀ b ∈ lead ++ (whole ++ point ++ frac), isNumberByte b = true := by
    intro b hb
    simp only [List.mem_append] at hb
    rcases hb with hb | (hb | hb) | hb
    · exact hlead b hb
    · exact isNumberByte_of_hexDigit (hdigit b (hwhole b hb))
    · rcases hpoint with ⟨rfl, -⟩ | rfl
      · cases hb
      · obtain rfl := List.mem_singleton.mp hb
        decide
    · exact isNumberByte_of_hexDigit (hdigit b (hfrac b hb))
  rcases exponent?_ok hexp with rfl | ⟨m, sign, ds, rfl, hm, hsign, hds, hdsd⟩
  · refine ⟨⟨lead ++ (whole ++ point ++ frac), [], by simp, hbody, .inl rfl⟩, ?_⟩
    rw [List.append_nil]
    by_cases hf : frac = []
    · subst hf
      obtain ⟨front, b, hw, hb⟩ := exists_getLast (by simpa using hne) hwhole
      rcases hpoint with ⟨rfl, -⟩ | rfl
      · exact ⟨lead ++ front, [b], by rw [hw]; simp, .inl ⟨b, rfl, hdigit b hb⟩⟩
      · exact ⟨lead ++ front, [b, byte '.'], by rw [hw]; simp, .inr ⟨b, rfl, hdigit b hb⟩⟩
    · obtain ⟨front, b, hw, hb⟩ := exists_getLast hf hfrac
      exact ⟨lead ++ (whole ++ point ++ front), [b], by rw [hw]; simp, .inl ⟨b, rfl, hdigit b hb⟩⟩
  · have hletter : isNumberByte m = true := by
      rcases hm with rfl | rfl
      · exact isNumberByte_of_letter hmark.1
      · exact isNumberByte_of_letter hmark.2
    have hmarked : ∀ b ∈ lead ++ (whole ++ point ++ frac) ++ [m], isNumberByte b = true := by
      intro b hb
      rcases List.mem_append.mp hb with hb | hb
      · exact hbody b hb
      · rw [List.mem_singleton.mp hb]
        exact hletter
    obtain ⟨front, b, hd, hb⟩ := exists_getLast hds hdsd
    refine ⟨?_, ⟨lead ++ (whole ++ point ++ frac) ++ m :: (sign ++ front), [b], by rw [hd]; simp,
      .inl ⟨b, rfl, isHexDigit_of_digit hb⟩⟩⟩
    have hsigned (s : UInt8) (hs : s = byte '+' ∨ s = byte '-') (he : sign = [s]) :
        ∃ body tail, lead ++ (whole ++ point ++ frac ++ m :: (sign ++ ds)) = body ++ tail ∧
          (∀ b ∈ body, isNumberByte b = true) ∧ IsSigned tail :=
      ⟨_, s :: ds, by rw [he]; simp, hmarked, .inr ⟨s, ds, rfl, hs, hds, hdsd⟩⟩
    rcases hsign with rfl | rfl | rfl
    · refine ⟨lead ++ (whole ++ point ++ frac) ++ [m] ++ ds, [], by simp, ?_, .inl rfl⟩
      intro b hb
      rcases List.mem_append.mp hb with hb | hb
      · exact hmarked b hb
      · exact isNumberByte_of_digit (hdsd b hb)
    · exact hsigned _ (.inl rfl) rfl
    · exact hsigned _ (.inr rfl) rfl

theorem hexDigits?_ok {bs hs : Bytes} (h : hexDigits? bs = some hs) :
    ∃ x, bs = [byte '0', x] ++ hs ∧ (x = byte 'x' ∨ x = byte 'X') := by
  unfold hexDigits? at h
  split at h
  · split at h
    · rename_i hzx
      simp only [Bool.and_eq_true, Bool.or_eq_true, decide_eq_true_eq] at hzx
      obtain ⟨rfl, hx⟩ := hzx
      exact ⟨_, by rw [← Option.some.inj h]; rfl, hx⟩
    · cases h
  · cases h

theorem isNumberByte_of_hexMark {x : UInt8} (hx : x = byte 'x' ∨ x = byte 'X') :
    ∀ b ∈ [byte '0', x], isNumberByte b = true := by
  intro b hb
  simp only [List.mem_cons, List.not_mem_nil, or_false] at hb
  rcases hb with rfl | rfl
  · decide
  · rcases hx with rfl | rfl <;> decide

/-- A numeral that is all digits. -/
theorem isNumeral_of_digits {lead ds : Bytes} (hlead : ∀ b ∈ lead, isNumberByte b = true)
    (hne : ds ≠ []) (hds : ∀ b ∈ ds, isHexDigit b = true) : IsNumeral (lead ++ ds) := by
  obtain ⟨front, b, hd, hb⟩ := exists_getLast hne hds
  refine ⟨⟨lead ++ ds, [], by simp, ?_, .inl rfl⟩,
    ⟨lead ++ front, [b], by rw [hd]; simp, .inl ⟨b, rfl, hb⟩⟩⟩
  intro x hx
  rcases List.mem_append.mp hx with hx | hx
  · exact hlead x hx
  · exact isNumberByte_of_hexDigit (hds x hx)

theorem splitSign_of_head {b : UInt8} {bs : Bytes} (hb : isNumberByte b = true) :
    splitSign (b :: bs) = (false, b :: bs) := by
  have hm : b ≠ byte '-' := by
    rintro rfl
    revert hb
    decide
  have hp : b ≠ byte '+' := by
    rintro rfl
    revert hb
    decide
  rw [splitSign, if_neg hm, if_neg hp]

theorem int?_ok {b : UInt8} {bs : Bytes} {i : Int64} (hb : isNumberByte b = true)
    (h : int? (b :: bs) = some i) : IsNumeral (b :: bs) := by
  unfold int? at h
  rw [splitSign_of_head hb] at h
  dsimp only at h
  split at h
  · rename_i hs hhex
    split at h
    · rename_i hok
      simp only [ne_eq, Bool.and_eq_true, decide_eq_true_eq, List.all_eq_true] at hok
      obtain ⟨x, hbs, hx⟩ := hexDigits?_ok hhex
      rw [hbs]
      exact isNumeral_of_digits (isNumberByte_of_hexMark hx) hok.1 hok.2
    · cases h
  · split at h
    · rename_i hok
      simp only [ne_eq, Bool.and_eq_true, decide_eq_true_eq, List.all_eq_true] at hok
      have hds x hx := isHexDigit_of_digit (hok.2 x hx)
      have hnumeral : IsNumeral ([] ++ b :: bs) := isNumeral_of_digits (by simp) hok.1 hds
      exact hnumeral
    · cases h

theorem float?_ok {b : UInt8} {bs : Bytes} {x : Binary64} (hb : isNumberByte b = true)
    (h : float? (b :: bs) = some x) : IsNumeral (b :: bs) := by
  unfold float? at h
  rw [splitSign_of_head hb] at h
  dsimp only at h
  split at h
  · rename_i hs hhex
    obtain ⟨y, hbs, hy⟩ := hexDigits?_ok hhex
    split at h
    · cases h
    · rename_i hne
      obtain ⟨e, he, -⟩ := Option.bind_eq_some_iff.mp h
      rw [hbs]
      exact isNumeral_of_parts (fun _ h => h) (isNumberByte_of_hexMark hy) (by decide) rfl hne he
  · split at h
    · cases h
    · rename_i hne
      obtain ⟨e, he, -⟩ := Option.bind_eq_some_iff.mp h
      have hnumeral : IsNumeral ([] ++ b :: bs) :=
        isNumeral_of_parts (fun _ => isHexDigit_of_digit) (by simp) (by decide) rfl hne he
      exact hnumeral

/-- A text without blanks that is a number is a numeral. -/
theorem ofText?_ok {b : UInt8} {bs : Bytes} {n : Number} (hb : isNumberByte b = true)
    (hspace : ∀ x ∈ b :: bs, isSpace x = false) (h : ofText? (b :: bs) = some n) :
    IsNumeral (b :: bs) := by
  have hdrop (l : Bytes) (hl : ∀ x ∈ l, isSpace x = false) : l.dropWhile isSpace = l := by
    cases l with
    | nil => rfl
    | cons x l => rw [List.dropWhile_cons_of_neg (by simp [hl x (List.mem_cons_self ..)])]
  have htrim : trimSpace (b :: bs) = b :: bs := by
    rw [trimSpace, hdrop _ hspace, hdrop _ fun x hx => hspace x (List.mem_reverse.mp hx),
      List.reverse_reverse]
  unfold ofText? at h
  rw [htrim] at h
  dsimp only at h
  split at h
  · rename_i i hi
    exact int?_ok hb hi
  · obtain ⟨x, hx, -⟩ := Option.map_eq_some_iff.mp h
    exact float?_ok hb hx

section

open Lexer

theorem numeral_source (hex : Bool) (n : Nat) (bs : Bytes) :
    (numeral hex n bs).1 ++ (numeral hex n bs).2 = bs := by
  fun_induction numeral hex n bs <;> simp_all

/-- The bytes of a numeral go on as long as they can. -/
theorem numeral_stops (hex : Bool) {n : Nat} {bs : Bytes} (h : bs.length < n) {b : UInt8}
    (hb : (numeral hex n bs).2.head? = some b) : isHexDigit b = false ∧ b ≠ byte '.' := by
  fun_induction numeral hex n bs with
  | case1 => omega
  | case2 => cases hb
  | case3 _ _ _ _ _ _ _ _ _ heq ih =>
    simp only [List.length_cons] at h
    exact ih (by omega) (by rw [heq]; exact hb)
  | case4 _ _ _ _ _ _ _ _ _ _ ih =>
    simp only [List.length_cons] at h ih
    exact ih (by omega) hb
  | case5 => cases hb
  | case6 _ _ _ _ _ _ _ _ heq ih =>
    simp only [List.length_cons] at h
    exact ih (by omega) (by rw [heq]; exact hb)
  | case7 _ x _ _ _ hx =>
    obtain rfl := Option.some.inj hb
    simpa using hx

theorem isSpace_of_le {b : UInt8} (h : byte '+' ≤ b) : isSpace b = false := by
  rw [UInt8.le_iff_toNat_le, show (byte '+').toNat = 43 from rfl] at h
  simp only [isSpace, Bool.or_eq_false_iff, Bool.and_eq_false_iff, decide_eq_false_iff_not,
    ← UInt8.toNat_inj, UInt8.le_iff_toNat_le, UInt8.reduceToNat]
  omega

theorem le_of_numberByte {b : UInt8} (h : isNumberByte b = true) : byte '+' ≤ b := by
  simp only [isNumberByte, isLetter, isDigit, Bool.or_eq_true, Bool.and_eq_true,
    decide_eq_true_eq] at h
  rcases h with ((⟨h, -⟩ | ⟨h, -⟩) | ⟨h, -⟩) | rfl
  · exact UInt8.le_trans (by decide) h
  · exact UInt8.le_trans (by decide) h
  · exact UInt8.le_trans (by decide) h
  · decide

theorem isSpace_of_nameStart {b : UInt8} (h : isNameStart b = true) : isSpace b = false := by
  simp only [isNameStart, Bool.or_eq_true, decide_eq_true_eq] at h
  rcases h with h | rfl
  · exact isSpace_of_le (le_of_numberByte (isNumberByte_of_letter h))
  · decide

theorem numeral_le (hex : Bool) (n : Nat) (bs : Bytes) :
    ∀ b ∈ (numeral hex n bs).1, byte '+' ≤ b := by
  have hdigit {b : UInt8} (h : isHexDigit b = true ∨ b = byte '.') : byte '+' ≤ b := by
    rcases h with h | rfl
    · exact le_of_numberByte (isNumberByte_of_hexDigit h)
    · decide
  have hsign {b : UInt8} (h : b = byte '+' ∨ b = byte '-') : byte '+' ≤ b := by
    rcases h with rfl | rfl <;> decide
  have hmark {b : UInt8} (h : (if hex = true then decide (b = byte 'p') || decide (b = byte 'P')
      else decide (b = byte 'e') || decide (b = byte 'E')) = true) : byte '+' ≤ b := by
    split at h
    · simp only [Bool.or_eq_true, decide_eq_true_eq] at h
      rcases h with rfl | rfl <;> decide
    · simp only [Bool.or_eq_true, decide_eq_true_eq] at h
      rcases h with rfl | rfl <;> decide
  fun_induction numeral hex n bs with
  | case1 => simp
  | case2 => simp
  | case3 _ b _ hm s _ hs _ _ heq ih =>
    rw [heq] at ih
    simp only [Bool.or_eq_true, decide_eq_true_eq] at hs
    simpa using ⟨hmark hm, hsign hs, ih⟩
  | case4 _ b _ hm _ _ _ _ _ _ ih => simpa using ⟨hmark hm, ih⟩
  | case5 _ b _ hm => simpa using hmark hm
  | case6 _ b _ _ _ hb _ _ heq ih =>
    rw [heq] at ih
    simp only [Bool.or_eq_true, decide_eq_true_eq] at hb
    simpa using ⟨hdigit hb, ih⟩
  | case7 => simp

theorem numberStart_ok {d : UInt8} (bs : Bytes) (hd : isDigit d = true) :
    (numberStart (d :: bs)).1 ++ (numberStart (d :: bs)).2 = d :: bs ∧
      (∃ more, (numberStart (d :: bs)).1 = d :: more) ∧
      ∀ b ∈ (numberStart (d :: bs)).1, byte '+' ≤ b := by
  have hle := le_of_numberByte (isNumberByte_of_digit hd)
  cases bs with
  | nil => exact ⟨rfl, ⟨[], rfl⟩, by simpa [numberStart] using hle⟩
  | cons x rest =>
    rw [numberStart]
    split
    · rename_i hx
      simp only [Bool.and_eq_true, Bool.or_eq_true, decide_eq_true_eq] at hx
      refine ⟨rfl, ⟨_, rfl⟩, ?_⟩
      simp only [List.mem_cons, List.not_mem_nil, or_false, forall_eq_or_imp, forall_eq]
      refine ⟨hle, ?_⟩
      rcases hx.2 with rfl | rfl <;> decide
    · exact ⟨rfl, ⟨_, rfl⟩, by simpa using hle⟩

/-- A numeral does not end in a letter that is no digit. -/
theorem IsNumeral.not_touching {front : Bytes} {b : UInt8} (h : IsNumeral (front ++ [b])) :
    isHexDigit b = true ∨ b = byte '.' := by
  obtain ⟨front', last, he, ⟨d, rfl, hd⟩ | ⟨d, rfl, -⟩⟩ := h.ends
  · obtain ⟨-, he⟩ := List.append_inj' he rfl
    exact .inl ((List.cons.inj he).1 ▸ hd)
  · right
    have := congrArg List.getLast? he
    simpa using this

/-- Nothing touches a numeral that Lua accepts, where the bytes after it do not go on with it. -/
theorem IsNumeral.touching_eq_nil {front after : Bytes}
    (hstops : ∀ b, after.head? = some b → isHexDigit b = false ∧ b ≠ byte '.')
    (h : IsNumeral (front ++ (after.take 1).filter isNameStart)) :
    (after.take 1).filter isNameStart = [] := by
  cases after with
  | nil => rfl
  | cons x after =>
    obtain ⟨hhex, hpoint⟩ := hstops x rfl
    by_cases hx : isNameStart x = true
    · rw [List.take_succ_cons, List.take_zero, List.filter_cons_of_pos hx, List.filter_nil] at h
      rcases h.not_touching with hend | hend
      · exact absurd (hhex.symm.trans hend) (by decide)
      · exact absurd hend hpoint
    · rw [List.take_succ_cons, List.take_zero, List.filter_cons_of_neg hx, List.filter_nil]

theorem not_isNumberByte {b : UInt8} (hname : isNameStart b = false) (hhex : isHexDigit b = false)
    (hpoint : b ≠ byte '.') : isNumberByte b = false := by
  simp only [isNameStart, isHexDigit, Bool.or_eq_false_iff] at hname hhex
  simp only [isNumberByte, Bool.or_eq_false_iff, decide_eq_false_iff_not]
  exact ⟨⟨hname.1, hhex.1.1⟩, hpoint⟩

/-- A numeral that Lua accepts takes all of the number bytes there are. -/
theorem number_ok {lead text bs : Bytes} {d : UInt8} {line : Nat} {t : Token} {c' : Cursor}
    (hlead : lead = [] ∨ lead = [byte '.']) (hd : isDigit d = true)
    (h : number lead ⟨line, d :: bs⟩ = .ok (t, text, c')) :
    ∃ n, t = .number n ∧ lead ++ d :: bs = text ++ c'.rest ∧ IsNumeral text ∧
      ∀ b, c'.rest.head? = some b → isNumberByte b = false := by
  obtain ⟨hstart, ⟨more, hmore⟩, hstartle⟩ := numberStart_ok bs hd
  unfold number at h
  dsimp only at h
  generalize numberStart (d :: bs) = split at h hstart hstartle hmore
  obtain ⟨start, rest⟩ := split
  dsimp only at h hstart hstartle hmore
  have hsource := numeral_source (decide (start.length = 2)) (rest.length + 1) rest
  have hstops {b : UInt8} :=
    numeral_stops (decide (start.length = 2)) (Nat.lt_succ_self rest.length) (b := b)
  have hle := numeral_le (decide (start.length = 2)) (rest.length + 1) rest
  generalize numeral (decide (start.length = 2)) (rest.length + 1) rest = split
    at h hsource hstops hle
  obtain ⟨ds, after⟩ := split
  dsimp only at h hsource hstops hle
  split at h
  · rename_i n hn
    simp only [Except.ok.injEq, Prod.mk.injEq] at h
    obtain ⟨rfl, rfl, rfl⟩ := h
    have hspace : ∀ b ∈ lead ++ start ++ ds ++ (after.take 1).filter isNameStart,
        isSpace b = false := by
      intro b hb
      simp only [List.mem_append] at hb
      rcases hb with ((hb | hb) | hb) | hb
      · rcases hlead with rfl | rfl
        · cases hb
        · rw [List.mem_singleton.mp hb]
          decide
      · exact isSpace_of_le (hstartle b hb)
      · exact isSpace_of_le (hle b hb)
      · exact isSpace_of_nameStart (List.mem_filter.mp hb).2
    have hnumeral : IsNumeral (lead ++ start ++ ds ++ (after.take 1).filter isNameStart) := by
      rcases hlead with rfl | rfl
      · rw [hmore] at hn hspace ⊢
        exact ofText?_ok (isNumberByte_of_digit hd) hspace hn
      · exact ofText?_ok (by decide) hspace hn
    have htouching := hnumeral.touching_eq_nil fun _ hb => hstops hb
    rw [htouching] at hnumeral ⊢
    refine ⟨n, rfl, ?_, hnumeral, fun b hb => ?_⟩
    · rw [← hstart, ← hsource]
      simp
    · obtain ⟨hhex, hpoint⟩ := hstops hb
      obtain ⟨_, rfl⟩ := List.head?_eq_some_iff.mp hb
      exact not_isNumberByte (by simpa using htouching) hhex hpoint
  · cases h

end

end UnitCache.Lua
