import UnitCache.Lua.Requires
import UnitCache.Proofs.LuaAlignment

namespace UnitCache.Lua

open Lexeme Requirement

/-- The bytes of pieces, back to front. The nearest piece comes first. -/
def bytesBefore (before : List Piece) : Bytes := before.flatMap fun p => p.bytes.reverse

def selects : List Piece → Bool
  | [] => false
  | p :: _ => p.token = .sign "." || p.token = .sign ":"

def endsInDot : List Piece → Bool
  | [] => false
  | p :: _ => p.source.getLast? = some (byte '.')

def endsLikeSelector (earlier : List Piece) (p : Piece) : Bool :=
  match p.token with
  | .sign s => s = ":" || s = "::" || s = "." && !(p.gap.isEmpty && endsInDot earlier)
  | .number _ => p.source.getLast? = some (byte '.')
  | _ => false

/-- Whether the bytes before a name look like a dot or a colon that selects it: those at the end of
a comment if one comes last, else those of the token before. -/
def seemsSelected (before : List Piece) (gap : List Filler) : Bool :=
  match (Filler.bytes gap).reverse.dropWhile isGap with
  | b :: bs => b = byte ':' || b = byte '.' && bs.head? ≠ some (byte '.')
  | [] =>
    match before with
    | [] => false
    | p :: earlier => endsLikeSelector earlier p

theorem isMember_cons {b : UInt8} (bs : Bytes) (hb : isGap b = false) :
    isMember (b :: bs) = (b = byte ':' || b = byte '.' && bs.head? ≠ some (byte '.')) := by
  rw [isMember, List.dropWhile_cons_of_neg (by simp [hb])]

theorem isGap_of_numberByte {b : UInt8} (h : isNumberByte b = true) : isGap b = false := by
  have hle := le_of_numberByte h
  rw [UInt8.le_iff_toNat_le, show (byte '+').toNat = 43 from rfl] at hle
  simp only [isGap, Bool.or_eq_false_iff, decide_eq_false_iff_not, ← UInt8.toNat_inj, byte,
    Char.reduceToNat, UInt8.reduceOfNat, UInt8.reduceToNat]
  omega

theorem isGap_of_not_space {b : UInt8} (h : isSpace b = false) : isGap b = false := by
  cases hb : isGap b with
  | false => rfl
  | true =>
    simp only [isGap, Bool.or_eq_true, decide_eq_true_eq] at hb
    rcases hb with ((rfl | rfl) | rfl) | rfl <;> exact absurd h (by decide)

def IsPlainEnd (b : UInt8) : Prop := isGap b = false ∧ b ≠ byte ':' ∧ b ≠ byte '.'

theorem IsPlainEnd.isMember {b : UInt8} (h : IsPlainEnd b) (bs : Bytes) :
    isMember (b :: bs) = false := by
  simp [isMember_cons bs h.1, h.2.1, h.2.2]

theorem isPlainEnd_of_nameByte {b : UInt8} (h : isNameByte b = true) : IsPlainEnd b := by
  refine ⟨?_, ?_, ?_⟩
  · simp only [isNameByte, isNameStart, Bool.or_eq_true, decide_eq_true_eq] at h
    rcases h with (h | rfl) | h
    · exact isGap_of_numberByte (isNumberByte_of_letter h)
    · decide
    · exact isGap_of_numberByte (isNumberByte_of_digit h)
  · rintro rfl
    revert h
    decide
  · rintro rfl
    revert h
    decide

theorem isPlainEnd_of_hexDigit {b : UInt8} (h : isHexDigit b = true) : IsPlainEnd b := by
  refine ⟨isGap_of_numberByte (isNumberByte_of_hexDigit h), ?_, ?_⟩ <;>
  · rintro rfl
    revert h
    decide

theorem Written.plainEnd {source content : Bytes} (h : Written source content) :
    ∃ front b, source = front ++ [b] ∧ IsPlainEnd b := by
  cases h with
  | @quoted quote content hq =>
    refine ⟨quote :: content, quote, rfl, ?_⟩
    rcases hq with rfl | rfl <;> (simp only [IsPlainEnd]; decide)
  | bracketed level content =>
    refine ⟨byte '[' :: (List.replicate level (byte '=') ++ byte '[' ::
      (content ++ byte ']' :: List.replicate level (byte '='))), byte ']', ?_, ?_⟩
    · simp [closing]
    · simp only [IsPlainEnd]
      decide

theorem isMember_append {l : Bytes} (more : Bytes) (hlen : 2 ≤ l.length)
    (hhead : ∀ b, l.head? = some b → isGap b = false) : isMember (l ++ more) = isMember l := by
  cases l with
  | nil => simp at hlen
  | cons x l =>
    cases l with
    | nil => simp at hlen
    | cons y l =>
      have hx := hhead x rfl
      rw [List.cons_append, isMember_cons _ hx, isMember_cons _ hx]
      rfl

theorem isMember_plainEnd {source front : Bytes} {b : UInt8} (more : Bytes)
    (hsource : source = front ++ [b]) (hb : IsPlainEnd b) :
    isMember (source.reverse ++ more) = false := by
  rw [hsource, List.reverse_append, List.reverse_singleton, List.append_assoc,
    List.singleton_append, hb.isMember]

theorem isMember_numeral {source : Bytes} (more : Bytes) (h : IsNumeral source) :
    isMember (source.reverse ++ more) = decide (source.getLast? = some (byte '.')) := by
  obtain ⟨front, last, rfl, ⟨b, rfl, hb⟩ | ⟨b, rfl, hb⟩⟩ := h.ends
  · have hplain := isPlainEnd_of_hexDigit hb
    rw [isMember_plainEnd more rfl hplain]
    simp [hplain.2.2]
  · have hne := (isPlainEnd_of_hexDigit hb).2.2
    have hreverse : (front ++ [b, byte '.']).reverse ++ more =
        byte '.' :: b :: (front.reverse ++ more) := by simp
    rw [hreverse, isMember_cons _ (by decide)]
    simp [hne]

theorem isMember_longSign {s : String} (more : Bytes) (hs : s ∈ longSigns) :
    isMember ((Utf8.encode s).reverse ++ more) = decide (s = "::") := by
  have hlen : ∀ s ∈ longSigns, 2 ≤ (Utf8.encode s).reverse.length := by decide +kernel
  have hhead : ∀ s ∈ longSigns, (Utf8.encode s).reverse.head?.all (!isGap ·) = true := by
    decide +kernel
  have hmember : ∀ s ∈ longSigns, isMember (Utf8.encode s).reverse = decide (s = "::") := by
    decide +kernel
  rw [isMember_append more (hlen s hs), hmember s hs]
  intro b hb
  have hall := hhead s hs
  rw [hb] at hall
  simpa using hall

theorem isMember_shortSign {c : Char} (more : Bytes) (hc : c ∈ shortSigns) :
    isMember ((Utf8.encode (String.singleton c)).reverse ++ more) =
      (String.singleton c = ":" ||
        String.singleton c = "." && more.head? ≠ some (byte '.')) := by
  have hall : shortSigns.all (fun c => Utf8.encode (String.singleton c) = [byte c] ∧
      isGap (byte c) = false ∧
      decide (byte c = byte ':') = decide (String.singleton c = ":") ∧
      decide (byte c = byte '.') = decide (String.singleton c = ".")) = true := by decide
  obtain ⟨hencode, hgap, hcolon, hdot⟩ := of_decide_eq_true (List.all_eq_true.mp hall c hc)
  rw [hencode, List.reverse_singleton, List.singleton_append, isMember_cons _ hgap, hcolon, hdot]

/-- Before a dot stands another one only if it ends the token before and nothing is between. -/
theorem head_before_dot {p : Piece} {earlier : List Piece} (hp : p.Sound)
    (hearlier : ∀ q ∈ earlier, q.Sound) :
    decide (((Filler.bytes p.gap).reverse ++ bytesBefore earlier).head? = some (byte '.')) =
      (p.gap.isEmpty && endsInDot earlier) := by
  cases hgap : p.gap with
  | nil =>
    cases earlier with
    | nil => rfl
    | cons q earlier =>
      have hne := (hearlier q (List.mem_cons_self ..)).spells.ne_nil
      simp [Filler.bytes, bytesBefore, endsInDot, Piece.bytes, List.head?_append, hne]
  | cons f gap =>
    rw [← hgap, List.head?_append, List.head?_reverse]
    cases hlast : (Filler.bytes p.gap).getLast? with
    | none =>
      have hnil := List.getLast?_eq_none_iff.mp hlast
      rw [hgap, Filler.bytes, List.flatMap_cons] at hnil
      exact absurd (List.append_eq_nil_iff.mp hnil).1 f.source_ne_nil
    | some b =>
      have hb : b ≠ byte '.' := by
        rintro rfl
        rcases hp.gapEnd _ hlast with hb | hb
        · exact absurd hb (by decide)
        · exact absurd hb (by decide)
      simp [hb, hgap]

theorem isMember_source {p : Piece} {earlier : List Piece} (hp : p.Sound)
    (hearlier : ∀ q ∈ earlier, q.Sound) :
    isMember (bytesBefore (p :: earlier)) = endsLikeSelector earlier p := by
  have hbytes : bytesBefore (p :: earlier) =
      p.source.reverse ++ ((Filler.bytes p.gap).reverse ++ bytesBefore earlier) := by
    simp [bytesBefore, Piece.bytes]
  have hspells := hp.spells
  have hword (hne : p.source ≠ []) (hall : ∀ b ∈ p.source, isNameByte b = true) :
      isMember (bytesBefore (p :: earlier)) = false := by
    obtain ⟨front, b, hsource, hb⟩ := exists_getLast hne hall
    rw [hbytes, isMember_plainEnd _ hsource (isPlainEnd_of_nameByte hb)]
  unfold endsLikeSelector
  cases htoken : p.token with
  | name n =>
    rw [htoken] at hspells
    exact hword hspells.2.1 hspells.2.2
  | keyword w =>
    rw [htoken] at hspells
    exact hword hspells.2.2.1 hspells.2.2.2
  | string v =>
    rw [htoken] at hspells
    obtain ⟨content, hw, -⟩ := hspells
    obtain ⟨front, b, hsource, hb⟩ := hw.plainEnd
    rw [hbytes, isMember_plainEnd _ hsource hb]
  | number n =>
    rw [htoken] at hspells
    rw [hbytes, isMember_numeral _ hspells]
  | sign s =>
    rw [htoken] at hspells
    obtain ⟨hsource, -, hlong | ⟨c, hc, rfl⟩⟩ := hspells
    · have hne : ∀ s ∈ longSigns, s ≠ ":" ∧ s ≠ "." := by decide +kernel
      rw [hbytes, hsource, isMember_longSign _ hlong]
      simp [hne s hlong]
    · have hall : shortSigns.all (fun c => String.singleton c ≠ "::") = true := by decide
      have hne := of_decide_eq_true (List.all_eq_true.mp hall c hc)
      rw [hbytes, hsource, isMember_shortSign _ hc, ← head_before_dot hp hearlier]
      simp [hne]
  | stray b =>
    rw [htoken] at hspells
    obtain ⟨hsource, hmem⟩ := hspells
    have hspace := hp.visible b (by rw [hsource]; rfl)
    have hlast : p.source = [] ++ [b] := hsource
    rw [hbytes]
    refine isMember_plainEnd _ hlast ⟨isGap_of_not_space hspace, ?_, ?_⟩
    · rintro rfl
      exact hmem (by decide)
    · rintro rfl
      exact hmem (by decide)
  | eof =>
    rw [htoken] at hspells
    exact hspells.elim

/-- The bytes before a name are taken for a selector just when they look like one. -/
theorem isMember_eq {before : List Piece} {gap : List Filler}
    (hhead : ∀ b, (Filler.bytes gap).head? = some b → isSpace b = true ∨ b = byte '-')
    (hbefore : ∀ q ∈ before, q.Sound) :
    isMember ((Filler.bytes gap).reverse ++ bytesBefore before) = seemsSelected before gap := by
  unfold seemsSelected
  cases hvisible : (Filler.bytes gap).reverse.dropWhile isGap with
  | nil =>
    have hskip : isMember ((Filler.bytes gap).reverse ++ bytesBefore before) =
        isMember (bytesBefore before) := by
      simp only [isMember, List.dropWhile_append, hvisible, List.isEmpty_nil, ↓reduceIte]
    rw [hskip]
    cases before with
    | nil => rfl
    | cons p earlier =>
      exact isMember_source (hbefore p (List.mem_cons_self ..))
        fun q hq => hbefore q (List.mem_cons_of_mem _ hq)
  | cons b bs =>
    have hmore : b = byte '.' → (bs ++ bytesBefore before).head? = bs.head? := by
      rintro rfl
      cases bs with
      | cons x bs => rfl
      | nil =>
        -- a gap cannot be a dot and then blanks, since it does not begin with a dot
        have hsuffix := List.dropWhile_suffix isGap (l := (Filler.bytes gap).reverse)
        rw [hvisible] at hsuffix
        obtain ⟨front, hfront⟩ := hsuffix
        have hfirst : (Filler.bytes gap).head? = some (byte '.') := by
          rw [← List.getLast?_reverse, ← hfront, List.getLast?_concat]
        rcases hhead _ hfirst with h | h <;> exact absurd h (by decide)
    simp only [isMember, List.dropWhile_append, hvisible, List.isEmpty_cons, Bool.false_eq_true,
      ↓reduceIte, List.cons_append]
    by_cases hb : b = byte '.'
    · rw [hmore hb]
    · simp [hb]

end UnitCache.Lua
