import UnitCache.Proofs.LuaSelection
import UnitCache.Proofs.Utf8

namespace UnitCache.Lua

open Lexeme Requirement

def margin : Bytes → Nat
  | [] => 0
  | b :: bs => if b = byte '[' then (bs.takeWhile (· = byte '=')).length + 2 else 1

def inner (source : Bytes) : Bytes :=
  (source.drop (margin source)).take (source.length - 2 * margin source)

structure Argument where
  /-- All that stands between the called name, the string and the parentheses. -/
  gap : List Filler
  value : Bytes
  source : Bytes
  deriving DecidableEq, Repr

def enclosed? (gap : List Filler) : List Piece → Option Argument
  | p :: q :: _ =>
    match p.token with
    | .string v =>
      if q.token = .sign ")" then some ⟨gap ++ (p.gap ++ q.gap), v, p.source⟩ else none
    | _ => none
  | _ => none

def argument? : List Piece → Option Argument
  | [] => none
  | p :: ps =>
    match p.token with
    | .string v => some ⟨p.gap, v, p.source⟩
    | .sign s => if s = "(" then enclosed? p.gap ps else none
    | _ => none

/-- The name that an argument gives: its value, unless that is empty or written with a backslash. -/
def Argument.name? (a : Argument) : Option Bytes :=
  if a.value = [] ∨ byte '\\' ∈ a.source then none else some a.value

/-- The name that the rough lexemes take from an argument: its bytes as they are written, if nothing
but what they skip stands before them. -/
def Argument.taken? (a : Argument) : Option Bytes :=
  if .blank verticalTab ∈ a.gap ∨ inner a.source = [] ∨ byte '\\' ∈ a.source then none
  else some (inner a.source)

def Argument.Plain (a : Argument) : Prop :=
  byte '\\' ∈ a.source ∨ .blank verticalTab ∉ a.gap ∧ Verbatim (inner a.source) ∨
    .blank verticalTab ∈ a.gap ∧ a.value = []

def Requirement.Target.name? : Target → Option Bytes
  | .literal name => some (Utf8.encode name)
  | .dynamic => none

theorem Written.inner_eq {source content : Bytes} (h : Written source content) :
    inner source = content := by
  cases h with
  | @quoted quote content hq =>
    have hne : quote ≠ byte '[' := by
      rcases hq with rfl | rfl <;> decide
    simp [inner, margin, hne]
  | bracketed level content =>
    have hfence : (List.replicate level (byte '=') ++
        byte '[' :: (content ++ closing level)).takeWhile (· = byte '=') =
          List.replicate level (byte '=') := by
      apply (takeWhile_append _ _).1
      · intro b hb
        simpa using (List.mem_replicate.mp hb).2
      · intro b hb
        obtain rfl := Option.some.inj hb
        decide
    have hlength : (byte '[' :: (List.replicate level (byte '=') ++
        byte '[' :: (content ++ closing level))).length - 2 * (level + 2) = content.length := by
      simp only [closing, List.length_cons, List.length_append, List.length_replicate,
        List.length_nil]
      omega
    rw [inner, margin, if_pos rfl, hfence, List.length_replicate, hlength, List.drop_succ_cons,
      List.drop_append, List.length_replicate]
    simp

theorem Written.backslash_iff {source content : Bytes} (h : Written source content) :
    byte '\\' ∈ source ↔ byte '\\' ∈ content := by
  cases h with
  | @quoted quote content hq =>
    have hne : byte '\\' ≠ quote := by
      rcases hq with rfl | rfl <;> decide
    simp [hne]
  | bracketed level content =>
    simp [closing, List.mem_replicate, show byte '\\' ≠ byte '[' by decide,
      show byte '\\' ≠ byte ']' by decide, show byte '\\' ≠ byte '=' by decide]

/-- The end of a text that is UTF-8 from its beginning. -/
def IsTextEnd (bs : Bytes) : Prop := ∃ (s : String) (before : Bytes), Utf8.encode s = before ++ bs

theorem IsTextEnd.after {a after : Bytes} (h : IsTextEnd (a ++ after)) : IsTextEnd after := by
  obtain ⟨s, before, hs⟩ := h
  exact ⟨s, before ++ a, by rw [hs, List.append_assoc]⟩

/-- What a string holds stays the same when it is read as text. -/
theorem Written.encode_decodeLossy {source content after : Bytes} (h : Written source content)
    (htext : IsTextEnd (source ++ after)) :
    Utf8.encode (Utf8.decodeLossy content) = content := by
  obtain ⟨s, before, hs⟩ := htext
  cases h with
  | @quoted quote content hq =>
    have hascii : quote < 0x80 := by
      rcases hq with rfl | rfl <;> decide
    have hsource : Utf8.encode s = before ++ quote :: (content ++ quote :: after) := by
      rw [hs]
      simp
    exact Utf8.encode_decodeLossy hsource hascii (by simpa using hascii)
  | bracketed level content =>
    have hsource : Utf8.encode s = before ++ byte '[' :: List.replicate level (byte '=') ++
        byte '[' :: (content ++ byte ']' :: (List.replicate level (byte '=') ++
          byte ']' :: after)) := by
      rw [hs]
      simp [closing]
    exact Utf8.encode_decodeLossy hsource (by decide) (by simp [show byte ']' < 0x80 by decide])

theorem literal_name? {source content after : Bytes} (h : Written source content)
    (htext : IsTextEnd (source ++ after)) :
    (literal content).name? = if content = [] ∨ byte '\\' ∈ source then none else some content := by
  rw [literal]
  by_cases hc : content = [] ∨ byte '\\' ∈ source
  · rw [if_pos hc, if_pos (by simpa [h.backslash_iff] using hc)]
    rfl
  · rw [if_neg hc, if_neg (by simpa [h.backslash_iff] using hc), Target.name?,
      h.encode_decodeLossy htext]

def tabLexeme : Lexeme := otherLexeme verticalTab

theorem isSkipped_filler {l : Lexeme} (h : isFillerLexeme l) :
    isSkipped l = true ∨ l = tabLexeme := by
  obtain ⟨kind, source⟩ := l
  rcases h with h | ⟨b, hb, h⟩
  · obtain rfl : kind = .comment := h
    exact .inl rfl
  · by_cases htab : b = verticalTab
    · exact .inr (by rw [h, htab, tabLexeme])
    · left
      rw [h]
      simp only [Lua.isSpace, Bool.or_eq_true, decide_eq_true_eq, Bool.and_eq_true,
        UInt8.le_iff_toNat_le, UInt8.reduceToNat, ← UInt8.toNat_inj] at hb
      simp only [verticalTab, ← UInt8.toNat_inj, UInt8.reduceToNat] at htab
      simp only [isSkipped, otherLexeme, Requirement.isSpace, isGap, Bool.or_eq_true,
        decide_eq_true_eq, ← UInt8.toNat_inj, byte, Char.reduceToNat, UInt8.reduceOfNat,
        UInt8.reduceToNat]
      omega

theorem skip_of_head {l : Lexeme} (more : List Lexeme) (h : isSkipped l = false) :
    skip (l :: more) = l :: more := by
  rw [skip, List.dropWhile_cons_of_neg (by simp [h])]

theorem skip_fillers {ls : List Lexeme} (more : List Lexeme) (hall : ∀ l ∈ ls, isFillerLexeme l)
    (hno : tabLexeme ∉ ls) : skip (ls ++ more) = skip more := by
  induction ls with
  | nil => rfl
  | cons l ls ih =>
    simp only [List.mem_cons, not_or] at hno
    have hl : isSkipped l = true :=
      (isSkipped_filler (hall l (List.mem_cons_self ..))).resolve_right fun h => hno.1 h.symm
    have hrest := ih (fun x hx => hall x (List.mem_cons_of_mem _ hx)) hno.2
    rw [← hrest, skip, List.cons_append, List.dropWhile_cons_of_pos hl, skip]

theorem skip_tab {ls : List Lexeme} (more : List Lexeme) (hall : ∀ l ∈ ls, isFillerLexeme l)
    (hyes : tabLexeme ∈ ls) : ∃ more', skip (ls ++ more) = tabLexeme :: more' := by
  induction ls with
  | nil => cases hyes
  | cons l ls ih =>
    rcases isSkipped_filler (hall l (List.mem_cons_self ..)) with hl | rfl
    · have hlater : tabLexeme ∈ ls := by
        rcases List.mem_cons.mp hyes with rfl | h
        · exact absurd hl (by decide)
        · exact h
      obtain ⟨more', h⟩ := ih (fun x hx => hall x (List.mem_cons_of_mem _ hx)) hlater
      exact ⟨more', by rw [← h, skip, List.cons_append, List.dropWhile_cons_of_pos hl, skip]⟩
    · exact ⟨ls ++ more, skip_of_head _ (by decide)⟩

theorem isSkipped_visible {b : UInt8} (h : Lua.isSpace b = false) :
    isSkipped (otherLexeme b) = false := by
  have hgap := isGap_of_not_space h
  have hfeed : b ≠ 0x0C := by
    rintro rfl
    exact absurd h (by decide)
  simp [isSkipped, otherLexeme, Requirement.isSpace, hgap, hfeed]

theorem isSkipped_numeral {l : Lexeme} (h : isNumeralLexeme l) : isSkipped l = false := by
  obtain ⟨kind, source⟩ := l
  rcases h with h | h | h | h
  · obtain rfl : kind = .number := h
    rfl
  · rw [h]
    decide
  · rw [h]
    decide
  · rw [h]
    decide

/-- A token that is a sign or a byte by itself, as rough lexemes. -/
theorem map_otherLexeme {source : Bytes} (hne : source ≠ []) :
    ∃ b more, source.head? = some b ∧ source.map otherLexeme = otherLexeme b :: more := by
  cases source with
  | nil => exact absurd rfl hne
  | cons b source => exact ⟨b, _, rfl, rfl⟩

/-- A token begins with nothing that is skipped. -/
theorem reads_skip {p : Piece} {ls : List Lexeme} (h : p.token.Reads p.source ls) (hp : p.Sound)
    (more : List Lexeme) : skip (ls ++ more) = ls ++ more := by
  have hsigns : ls = p.source.map otherLexeme → skip (ls ++ more) = ls ++ more := by
    intro hls
    obtain ⟨b, _, hb, hmap⟩ := map_otherLexeme hp.spells.ne_nil
    rw [hls, hmap]
    exact skip_of_head _ (isSkipped_visible (hp.visible b hb))
  cases htoken : p.token with
  | name n =>
    rw [htoken] at h
    obtain rfl : ls = _ := h
    exact skip_of_head _ rfl
  | keyword w =>
    rw [htoken] at h
    obtain rfl : ls = _ := h
    exact skip_of_head _ rfl
  | string v =>
    rw [htoken] at h
    obtain ⟨content, -, rfl⟩ := h
    exact skip_of_head _ rfl
  | number n =>
    rw [htoken] at h
    obtain ⟨hne, hall⟩ := h
    cases ls with
    | nil => exact absurd rfl hne
    | cons l ls => exact skip_of_head _ (isSkipped_numeral (hall l (List.mem_cons_self ..)))
  | sign s =>
    rw [htoken] at h
    exact hsigns h
  | stray b =>
    rw [htoken] at h
    exact hsigns h
  | eof =>
    rw [htoken] at h
    exact h.elim

theorem isSign_otherLexeme (c : Char) (b : UInt8) :
    isSign c (otherLexeme b) = decide (b = byte c) := by
  simp [isSign, otherLexeme]

theorem isSign_numeral {c : Char} {l : Lexeme} (hc : c = '(' ∨ c = ')') (h : isNumeralLexeme l) :
    (∀ content, l.kind ≠ .string content) ∧ isSign c l = false := by
  have hother (b : UInt8) (hb : b ≠ byte c) : (∀ content, (otherLexeme b).kind ≠ .string content) ∧
      isSign c (otherLexeme b) = false :=
    ⟨by simp [otherLexeme], by rw [isSign_otherLexeme, decide_eq_false hb]⟩
  rcases h with h | rfl | rfl | rfl
  · exact ⟨by simp [h], by simp [isSign, h]⟩
  · exact hother _ (by rcases hc with rfl | rfl <;> decide)
  · exact hother _ (by rcases hc with rfl | rfl <;> decide)
  · exact hother _ (by rcases hc with rfl | rfl <;> decide)

theorem sign_head {c : Char} {s : String} {b : UInt8} (hc : c = '(' ∨ c = ')')
    (hb : (Utf8.encode s).head? = some b)
    (hs : s ∈ longSigns ∨ ∃ d ∈ shortSigns, s = String.singleton d) :
    decide (b = byte c) = decide (s = String.singleton c) := by
  have hlong : longSigns.all (fun s =>
      (Utf8.encode s).head? ≠ some (byte c) ∧ s ≠ String.singleton c) = true := by
    rcases hc with rfl | rfl <;> decide
  have hshort : shortSigns.all (fun d => Utf8.encode (String.singleton d) = [byte d] ∧
      decide (byte d = byte c) = decide (String.singleton d = String.singleton c)) = true := by
    rcases hc with rfl | rfl <;> decide
  rcases hs with hs | ⟨d, hd, rfl⟩
  · obtain ⟨hhead, hne⟩ := of_decide_eq_true (List.all_eq_true.mp hlong s hs)
    rw [decide_eq_false hne, decide_eq_false]
    rintro rfl
    exact hhead hb
  · obtain ⟨hencode, hsame⟩ := of_decide_eq_true (List.all_eq_true.mp hshort d hd)
    rw [hencode] at hb
    obtain rfl := Option.some.inj hb
    exact hsame

/-- What a token that is no string shows to a look ahead for a parenthesis. -/
theorem reads_sign {p : Piece} {ls : List Lexeme} {c : Char} (hc : c = '(' ∨ c = ')')
    (h : p.token.Reads p.source ls) (hp : p.Sound) (hstring : ∀ v, p.token ≠ .string v) :
    ∃ l more, ls = l :: more ∧ (∀ content, l.kind ≠ .string content) ∧
      isSign c l = decide (p.token = .sign (String.singleton c)) := by
  have hspells := hp.spells
  cases htoken : p.token with
  | name n =>
    rw [htoken] at h
    obtain rfl : ls = _ := h
    exact ⟨_, _, rfl, by simp, by simp [isSign]⟩
  | keyword w =>
    rw [htoken] at h
    obtain rfl : ls = _ := h
    exact ⟨_, _, rfl, by simp, by simp [isSign]⟩
  | string v => exact absurd htoken (hstring v)
  | number n =>
    rw [htoken] at h
    obtain ⟨hne, hall⟩ := h
    cases ls with
    | nil => exact absurd rfl hne
    | cons l ls =>
      obtain ⟨hkind, hsign⟩ := isSign_numeral hc (hall l (List.mem_cons_self ..))
      exact ⟨l, ls, rfl, hkind, by simp [hsign]⟩
  | sign s =>
    rw [htoken] at h hspells
    obtain ⟨b, more, hb, hmap⟩ := map_otherLexeme hp.spells.ne_nil
    obtain ⟨hsource, -, hs⟩ := hspells
    refine ⟨_, _, Eq.trans h hmap, by simp [otherLexeme], ?_⟩
    rw [hsource] at hb
    rw [isSign_otherLexeme, sign_head hc hb hs]
    simp
  | stray b =>
    rw [htoken] at h hspells
    obtain ⟨hsource, hmem⟩ := hspells
    have hne : b ≠ byte c := by
      rintro rfl
      rcases hc with rfl | rfl <;> exact hmem (by decide)
    refine ⟨otherLexeme b, [], ?_, by simp [otherLexeme], ?_⟩
    · exact Eq.trans h (by rw [hsource]; rfl)
    · simp [isSign_otherLexeme, hne]
  | eof =>
    rw [htoken] at h
    exact h.elim

/-- The first token of a layout as a look ahead finds it. -/
theorem Aligns.front {text : Bytes} {p : Piece} {ps : List Piece} {last : List Filler}
    (h : Aligns text (p :: ps) last) : ∃ after ls, text = p.bytes ++ after ∧ Aligns after ps last ∧
      p.Sound ∧ p.token.Reads p.source ls ∧
      (.blank verticalTab ∉ p.gap → skip (lexemes text) = ls ++ lexemes after) ∧
      (.blank verticalTab ∈ p.gap → ∃ more, skip (lexemes text) = tabLexeme :: more) := by
  cases h with
  | @token _ before after _ _ _ gapLexemes ls htext hbefore hsound _ hgap hlexemes hreads hafter =>
    refine ⟨after, ls, ?_, hafter, hsound, hreads, fun hno => ?_, fun hyes => ?_⟩
    · rw [htext, hbefore, Piece.bytes, List.append_assoc]
    · rw [hgap.lexemes, skip_fillers _ hgap.fillers (mt hgap.tab.mp hno), hlexemes,
        reads_skip hreads hsound]
    · rw [hgap.lexemes]
      exact skip_tab _ hgap.fillers (hgap.tab.mpr hyes)

theorem Aligns.front_nil {text : Bytes} {last : List Filler} (h : Aligns text [] last) :
    skip (lexemes text) = [] ∨ ∃ more, skip (lexemes text) = tabLexeme :: more := by
  cases h with
  | @done _ _ ls hgap =>
    by_cases htab : tabLexeme ∈ ls
    · exact .inr (by rw [hgap.lexemes]; exact skip_tab _ hgap.fillers htab)
    · left
      rw [hgap.lexemes, skip_fillers _ hgap.fillers htab, lexemes]
      rfl

theorem targetOf_string {ls more : List Lexeme} {content source : Bytes}
    (h : skip ls = ⟨.string content, source⟩ :: more) : targetOf ls = literal content := by
  rw [targetOf, h]

theorem targetOf_open {ls more : List Lexeme} {l : Lexeme} (h : skip ls = l :: more)
    (hl : ∀ content, l.kind ≠ .string content) (hsign : isSign '(' l = true) :
    targetOf ls = enclosedTarget more := by
  rw [targetOf, h]
  dsimp only
  split
  · rename_i content hkind
    exact absurd hkind (hl content)
  · rw [if_pos hsign]

theorem targetOf_other {ls more : List Lexeme} {l : Lexeme} (h : skip ls = l :: more)
    (hl : ∀ content, l.kind ≠ .string content) (hsign : isSign '(' l = false) :
    targetOf ls = .dynamic := by
  rw [targetOf, h]
  dsimp only
  split
  · rename_i content hkind
    exact absurd hkind (hl content)
  · rw [if_neg (by simp [hsign])]

theorem enclosedTarget_string {ls more : List Lexeme} {content source : Bytes}
    (h : skip ls = ⟨.string content, source⟩ :: more) : enclosedTarget ls =
      if (skip more).head?.any (isSign ')') then literal content else .dynamic := by
  rw [enclosedTarget, h]
  dsimp only
  cases hmore : skip more with
  | nil => rfl
  | cons r more => rfl

theorem enclosedTarget_other {ls : List Lexeme}
    (h : ∀ l, (skip ls).head? = some l → ∀ content, l.kind ≠ .string content) :
    enclosedTarget ls = .dynamic := by
  rw [enclosedTarget]
  split
  · rename_i content source more hskip
    exact absurd rfl (h ⟨.string content, source⟩ (by rw [hskip]; rfl) content)
  · rfl

theorem tabLexeme_plain : (∀ content, tabLexeme.kind ≠ .string content) ∧
    isSign '(' tabLexeme = false ∧ isSign ')' tabLexeme = false :=
  ⟨by simp [tabLexeme, otherLexeme], by decide, by decide⟩

theorem taken?_of_tab {a : Argument} (h : .blank verticalTab ∈ a.gap) : a.taken? = none := by
  rw [Argument.taken?, if_pos (.inl h)]

theorem enclosed?_gap {gap : List Filler} {ps : List Piece} {a : Argument}
    (h : enclosed? gap ps = some a) : ∃ p q more v, ps = p :: q :: more ∧ p.token = .string v ∧
      q.token = .sign ")" ∧ a = ⟨gap ++ (p.gap ++ q.gap), v, p.source⟩ := by
  unfold enclosed? at h
  split at h
  · split at h
    · rename_i hv
      split at h
      · rename_i hclose
        exact ⟨_, _, _, _, rfl, hv, hclose, (Option.some.inj h).symm⟩
      · cases h
    · cases h
  · cases h

theorem literal_taken? {gap : List Filler} {v source content after : Bytes}
    (hw : Written source content) (htext : IsTextEnd (source ++ after))
    (hgap : .blank verticalTab ∉ gap) :
    (literal content).name? = Argument.taken? ⟨gap, v, source⟩ := by
  rw [literal_name? hw htext, Argument.taken?]
  simp only [hw.inner_eq, hgap, false_or]

theorem closed_iff {text : Bytes} {ps : List Piece} {last : List Filler}
    (h : Aligns text ps last) : (skip (lexemes text)).head?.any (isSign ')') = true ↔
      ∃ p more, ps = p :: more ∧ p.token = .sign ")" ∧ .blank verticalTab ∉ p.gap := by
  cases ps with
  | nil =>
    rcases h.front_nil with hskip | ⟨more, hskip⟩
    · simp [hskip]
    · simp [hskip, tabLexeme_plain.2.2]
  | cons p ps =>
    obtain ⟨after, ls, rfl, -, hp, hreads, hclear, htabbed⟩ := h.front
    by_cases hgap : .blank verticalTab ∈ p.gap
    · obtain ⟨more, hskip⟩ := htabbed hgap
      simp [hskip, tabLexeme_plain.2.2, hgap]
    · rw [hclear hgap]
      by_cases hstring : ∃ v, p.token = .string v
      · obtain ⟨v, hv⟩ := hstring
        rw [hv] at hreads
        obtain ⟨content, -, rfl⟩ := hreads
        simp [isSign, hv]
      · obtain ⟨l, more, rfl, -, hsign⟩ := reads_sign (c := ')') (.inr rfl) hreads hp
          fun v hv => hstring ⟨v, hv⟩
        have hclose : isSign ')' l = decide (p.token = .sign ")") := hsign
        simp [hclose, hgap]

theorem IsTextEnd.source {p : Piece} {after : Bytes} (h : IsTextEnd (p.bytes ++ after)) :
    IsTextEnd (p.source ++ after) := by
  rw [Piece.bytes, List.append_assoc] at h
  exact h.after

theorem enclosed?_of_other {gap : List Filler} {p : Piece} {ps : List Piece}
    (h : ∀ v, p.token ≠ .string v) : enclosed? gap (p :: ps) = none := by
  cases ha : enclosed? gap (p :: ps) with
  | none => rfl
  | some a =>
    obtain ⟨_, _, _, v, hps, hv, -, -⟩ := enclosed?_gap ha
    obtain ⟨rfl, -⟩ := List.cons.inj hps
    exact absurd hv (h v)

/-- A string after an opening parenthesis is taken when the closing one follows. -/
theorem enclosedTarget_of_string {after : Bytes} {ps : List Piece} {last gap : List Filler}
    {p : Piece} {v content : Bytes} {ls : List Lexeme} (hafter : Aligns after ps last)
    (htext : IsTextEnd (p.bytes ++ after)) (hgap : .blank verticalTab ∉ gap)
    (hpgap : .blank verticalTab ∉ p.gap) (hv : p.token = .string v)
    (hw : Written p.source content)
    (hskip : skip ls = ⟨.string content, p.source⟩ :: lexemes after) :
    (enclosedTarget ls).name? = (enclosed? gap (p :: ps)).bind Argument.taken? := by
  rw [enclosedTarget_string hskip]
  split
  · rename_i hclosed
    obtain ⟨q, more, rfl, hq, hqgap⟩ := (closed_iff hafter).mp hclosed
    have hargument : enclosed? gap (p :: q :: more) =
        some ⟨gap ++ (p.gap ++ q.gap), v, p.source⟩ := by simp [enclosed?, hv, hq]
    rw [hargument, Option.bind_some]
    exact literal_taken? hw htext.source (by simp [hgap, hpgap, hqgap])
  · rename_i hopen
    cases ha : enclosed? gap (p :: ps) with
    | none => rfl
    | some a =>
      obtain ⟨_, q, more, _, hps, -, hq, rfl⟩ := enclosed?_gap ha
      obtain ⟨rfl, rfl⟩ := List.cons.inj hps
      have hqgap : .blank verticalTab ∈ q.gap := by
        refine Decidable.byContradiction fun hno => hopen ?_
        exact (closed_iff hafter).mpr ⟨q, more, rfl, hq, hno⟩
      exact (taken?_of_tab (by simp [hqgap])).symm

/-- After an opening parenthesis the look ahead takes the string that the tokens give. -/
theorem enclosedTarget_name? {text : Bytes} {ps : List Piece} {last gap : List Filler}
    (h : Aligns text ps last) (htext : IsTextEnd text) (hgap : .blank verticalTab ∉ gap) :
    (enclosedTarget (lexemes text)).name? = (enclosed? gap ps).bind Argument.taken? := by
  have hother (l : Lexeme) (more : List Lexeme) (hskip : skip (lexemes text) = l :: more)
      (hl : ∀ content, l.kind ≠ .string content) : enclosedTarget (lexemes text) = .dynamic := by
    apply enclosedTarget_other
    intro x hx
    rw [hskip] at hx
    obtain rfl := Option.some.inj hx
    exact hl
  cases ps with
  | nil =>
    rcases h.front_nil with hskip | ⟨more, hskip⟩
    · rw [enclosedTarget_other (by simp [hskip])]
      rfl
    · rw [hother tabLexeme more hskip tabLexeme_plain.1]
      rfl
  | cons p ps =>
    obtain ⟨after, ls, rfl, hafter, hp, hreads, hclear, htabbed⟩ := h.front
    by_cases hpgap : .blank verticalTab ∈ p.gap
    · obtain ⟨more, hskip⟩ := htabbed hpgap
      rw [hother tabLexeme more hskip tabLexeme_plain.1]
      cases ha : enclosed? gap (p :: ps) with
      | none => rfl
      | some a =>
        obtain ⟨_, _, _, _, hps, -, -, rfl⟩ := enclosed?_gap ha
        obtain ⟨rfl, rfl⟩ := List.cons.inj hps
        exact (taken?_of_tab (by simp [hpgap])).symm
    · have hskip := hclear hpgap
      by_cases hstring : ∃ v, p.token = .string v
      · obtain ⟨v, hv⟩ := hstring
        rw [hv] at hreads
        obtain ⟨content, hw, rfl⟩ := hreads
        exact enclosedTarget_of_string hafter htext hgap hpgap hv hw hskip
      · have hno : ∀ v, p.token ≠ .string v := fun v hv => hstring ⟨v, hv⟩
        obtain ⟨l, more, rfl, hkind, -⟩ := reads_sign (c := '(') (.inl rfl) hreads hp hno
        rw [hother l _ hskip hkind, enclosed?_of_other hno]
        rfl

theorem argument?_gap {p : Piece} {ps : List Piece} {a : Argument}
    (h : argument? (p :: ps) = some a) (htab : .blank verticalTab ∈ p.gap) : .blank verticalTab ∈ a.gap := by
  rw [argument?] at h
  split at h
  · obtain rfl := Option.some.inj h
    exact htab
  · split at h
    · obtain ⟨_, _, _, _, -, -, -, rfl⟩ := enclosed?_gap h
      simp [htab]
    · cases h
  · cases h

theorem argument?_of_other {p : Piece} {ps : List Piece} (hstring : ∀ v, p.token ≠ .string v)
    (hopen : p.token ≠ .sign "(") : argument? (p :: ps) = none := by
  rw [argument?]
  split
  · rename_i v hv
    exact absurd hv (hstring v)
  · rename_i s hs
    rw [if_neg]
    rintro rfl
    exact hopen hs
  · rfl

/-- An opening parenthesis is one rough lexeme. -/
theorem reads_open {p : Piece} {l : Lexeme} {more : List Lexeme} (hp : p.Sound)
    (hopen : p.token = .sign "(") (h : p.token.Reads p.source (l :: more)) : more = [] := by
  have hspells := hp.spells
  rw [hopen] at h hspells
  have hls : l :: more = p.source.map otherLexeme := h
  rw [hspells.1, show Utf8.encode "(" = [byte '('] by decide] at hls
  exact (List.cons.inj hls).2

/-- The look ahead takes the argument that the tokens give, as it is written. -/
theorem targetOf_name? {text : Bytes} {ps : List Piece} {last : List Filler}
    (h : Aligns text ps last) (htext : IsTextEnd text) :
    (targetOf (lexemes text)).name? = (argument? ps).bind Argument.taken? := by
  have htab (more : List Lexeme) (hskip : skip (lexemes text) = tabLexeme :: more) :
      targetOf (lexemes text) = .dynamic :=
    targetOf_other hskip tabLexeme_plain.1 tabLexeme_plain.2.1
  cases ps with
  | nil =>
    rcases h.front_nil with hskip | ⟨more, hskip⟩
    · rw [targetOf, hskip]
      rfl
    · rw [htab more hskip]
      rfl
  | cons p ps =>
    obtain ⟨after, ls, rfl, hafter, hp, hreads, hclear, htabbed⟩ := h.front
    by_cases hgap : .blank verticalTab ∈ p.gap
    · obtain ⟨more, hskip⟩ := htabbed hgap
      rw [htab more hskip]
      cases ha : argument? (p :: ps) with
      | none => rfl
      | some a => exact (taken?_of_tab (argument?_gap ha hgap)).symm
    · have hskip := hclear hgap
      by_cases hstring : ∃ v, p.token = .string v
      · obtain ⟨v, hv⟩ := hstring
        rw [hv] at hreads
        obtain ⟨content, hw, rfl⟩ := hreads
        have hargument : argument? (p :: ps) = some ⟨p.gap, v, p.source⟩ := by simp [argument?, hv]
        rw [targetOf_string hskip, hargument, Option.bind_some]
        exact literal_taken? hw htext.source hgap
      · have hno : ∀ v, p.token ≠ .string v := fun v hv => hstring ⟨v, hv⟩
        obtain ⟨l, more, rfl, hkind, hsign⟩ := reads_sign (c := '(') (.inl rfl) hreads hp hno
        have hopen : isSign '(' l = decide (p.token = .sign "(") := hsign
        by_cases hparen : p.token = .sign "("
        · have hargument : argument? (p :: ps) = enclosed? p.gap ps := by simp [argument?, hparen]
          rw [targetOf_open hskip hkind (by simpa [hparen] using hopen),
            reads_open hp hparen hreads, hargument]
          exact enclosedTarget_name? hafter htext.after hgap
        · rw [targetOf_other hskip hkind (by simpa [hparen] using hopen),
            argument?_of_other hno hparen]
          rfl

/-- What a layout says of the argument that it gives. -/
theorem argument?_spells {text : Bytes} {ps : List Piece} {last : List Filler} {a : Argument}
    (h : Aligns text ps last) (ha : argument? ps = some a) :
    Token.Spells (.string a.value) a.source := by
  cases ps with
  | nil => cases ha
  | cons p ps =>
    obtain ⟨after, ls, -, hafter, hp, -, -, -⟩ := h.front
    rw [argument?] at ha
    split at ha
    · rename_i v hv
      obtain rfl := Option.some.inj ha
      exact hv ▸ hp.spells
    · split at ha
      · obtain ⟨q, _, _, v, rfl, hv, -, rfl⟩ := enclosed?_gap ha
        obtain ⟨_, _, -, -, hq, -, -, -⟩ := hafter.front
        exact hv ▸ hq.spells
      · cases ha
    · cases ha

theorem taken?_eq_iff {a : Argument} (ha : Token.Spells (.string a.value) a.source) :
    a.taken? = a.name? ↔ a.Plain := by
  obtain ⟨content, hw, hverbatim⟩ := ha
  rw [Argument.taken?, Argument.name?, Argument.Plain, hw.inner_eq]
  by_cases hslash : byte '\\' ∈ a.source
  · simp [hslash]
  · have hsame := hverbatim (mt hw.backslash_iff.mpr hslash)
    rw [← hsame]
    by_cases htab : .blank verticalTab ∈ a.gap
    · by_cases hv : a.value = [] <;> simp [hslash, htab, hv]
    · by_cases hc : content = []
      · subst hc
        by_cases hv : a.value = [] <;> simp [hslash, htab, hv, eq_comm]
      · by_cases hv : a.value = [] <;> simp [hslash, htab, hv, hc]

end UnitCache.Lua
