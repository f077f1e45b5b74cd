import UnitCache.Proofs.LuaLayout

namespace UnitCache.Lua

open Lexeme Lexer

def verticalTab : UInt8 := 0x0B

/-- Whether a line feed comes next but for carriage returns, or, if `last`, the end of the text. -/
def feedFollows (last : Bool) : List Filler → Bool
  | [] => last
  | .blank b :: gap => b = byte '\n' || b = byte '\r' && feedFollows last gap
  | _ => false

/-- Whether each comment up to the end of its line is ended by a line feed, or, if `last`, by the
end of the text. -/
def linesEnd (last : Bool) : List Filler → Bool
  | [] => true
  | .line _ :: gap => feedFollows last gap && linesEnd last gap
  | _ :: gap => linesEnd last gap

def isFillerLexeme (l : Lexeme) : Prop :=
  l.kind = .comment ∨ ∃ b, isSpace b = true ∧ l = otherLexeme b

structure GapRead (gap : List Filler) (before after : Bytes) (ls : List Lexeme) : Prop where
  lexemes : lexemes before = ls ++ lexemes after
  fillers : ∀ l ∈ ls, isFillerLexeme l
  tab : otherLexeme verticalTab ∈ ls ↔ .blank verticalTab ∈ gap

theorem GapRead.nil (bs : Bytes) : GapRead [] bs bs [] := ⟨rfl, by simp, by simp⟩

theorem isLone_of_space {b : UInt8} (h : isSpace b = true) : isLone b = true := by
  simp only [isSpace, Bool.or_eq_true, decide_eq_true_eq, Bool.and_eq_true,
    UInt8.le_iff_toNat_le, UInt8.reduceToNat, ← UInt8.toNat_inj] at h
  simp only [isLone, isNameStart, isLetter, isDigit, Bool.and_eq_true, Bool.not_eq_true',
    Bool.or_eq_false_iff, Bool.and_eq_false_iff, decide_eq_false_iff_not, decide_eq_true_eq, ne_eq,
    UInt8.le_iff_toNat_le, ← UInt8.toNat_inj, byte, Char.reduceToNat, UInt8.reduceOfNat,
    UInt8.reduceToNat]
  omega

theorem GapRead.blank {gap : List Filler} {b : UInt8} {bs after : Bytes} {ls : List Lexeme}
    (hb : isSpace b = true) (h : GapRead gap bs after ls) :
    GapRead (.blank b :: gap) (b :: bs) after (otherLexeme b :: ls) := by
  refine ⟨by rw [lexemes_lone _ (isLone_of_space hb), h.lexemes]; rfl, fun l hl => ?_, ?_⟩
  · rcases List.mem_cons.mp hl with rfl | hl
    · exact .inr ⟨b, hb, rfl⟩
    · exact h.fillers l hl
  · simp only [List.mem_cons, otherLexeme, Lexeme.mk.injEq, List.cons.injEq, true_and, and_true,
      Filler.blank.injEq]
    rw [← h.tab]
    rfl

/-- A carriage return that belongs to the comment before it. -/
theorem GapRead.swallow {gap : List Filler} {before after : Bytes} {ls : List Lexeme}
    (h : GapRead gap before after ls) : GapRead (.blank (byte '\r') :: gap) before after ls := by
  refine ⟨h.lexemes, h.fillers, ?_⟩
  simp only [List.mem_cons, Filler.blank.injEq, show verticalTab ≠ byte '\r' by decide, false_or]
  exact h.tab

theorem Filler.long_ne (body : Bytes) : Filler.long body ≠ .blank verticalTab := by simp

theorem Filler.line_ne (body : Bytes) : Filler.line body ≠ .blank verticalTab := by simp

theorem next_comment (bs : Bytes) :
    next (byte '-') (byte '-' :: bs) =
      (⟨.comment, byte '-' :: byte '-' :: (comment bs).source⟩, (comment bs).rest) := by
  simp [next]

theorem comment_eq (bs : Bytes) : comment bs =
    (bracketed? bs).getD ⟨[], bs.takeWhile (· ≠ byte '\n'), bs.dropWhile (· ≠ byte '\n')⟩ := by
  cases bs with
  | nil => rfl
  | cons b bs =>
    rw [comment, bracketed?]
    split
    · cases long? bs <;> rfl
    · rfl

theorem GapRead.comment {gap : List Filler} {f : Filler} {bs rest after : Bytes}
    {ls : List Lexeme} (hf : f ≠ .blank verticalTab) (hrest : (Lexeme.comment bs).rest = rest)
    (h : GapRead gap rest after ls) :
    ∃ l, GapRead (f :: gap) (byte '-' :: byte '-' :: bs) after (l :: ls) := by
  refine ⟨⟨.comment, byte '-' :: byte '-' :: (Lexeme.comment bs).source⟩, ?_, fun l hl => ?_, ?_⟩
  · rw [lexemes_cons, next_comment, hrest, h.lexemes]
    rfl
  · rcases List.mem_cons.mp hl with rfl | hl
    · exact .inl rfl
    · exact h.fillers l hl
  · simp only [List.mem_cons, otherLexeme, Lexeme.mk.injEq, reduceCtorEq, false_and, false_or,
      hf.symm]
    exact h.tab

theorem dropWhile_lineEnd (bs : Bytes) :
    (bs.dropWhile fun b => !isLineEnd b).dropWhile (· ≠ byte '\n') =
      bs.dropWhile (· ≠ byte '\n') := by
  induction bs with
  | nil => rfl
  | cons b bs ih =>
    by_cases hb : isLineEnd b = true
    · rw [List.dropWhile_cons_of_neg (by simp [hb])]
    · have hn : b ≠ byte '\n' := by
        rintro rfl
        exact hb (by decide)
      rw [List.dropWhile_cons_of_pos (by simp [hb]), ih, List.dropWhile_cons_of_pos (by simp [hn])]

/-- Between tokens the rough lexemes are blanks and comments. The second part is about a place
inside a comment that goes on to the next line feed. -/
theorem lexemes_gap {last : Bool} {n : Nat} {bs after : Bytes} {gap : List Filler}
    (h : fillers n bs = (gap, after)) (hlines : linesEnd last gap = true)
    (hlast : last = true → after = []) :
    (∃ ls, GapRead gap bs after ls) ∧ (feedFollows last gap = true →
      ∃ ls, GapRead gap (bs.dropWhile (· ≠ byte '\n')) after ls) := by
  have hnil (bs : Bytes) (hlast : last = true → bs = []) : (∃ ls, GapRead [] bs bs ls) ∧
      (feedFollows last [] = true → ∃ ls, GapRead [] (bs.dropWhile (· ≠ byte '\n')) bs ls) := by
    refine ⟨⟨[], .nil bs⟩, fun hfeed => ⟨[], ?_⟩⟩
    rw [hlast hfeed]
    exact .nil []
  fun_induction fillers n bs generalizing gap after with
  | case1 bs =>
    obtain ⟨rfl, rfl⟩ := Prod.mk.inj h
    exact hnil bs hlast
  | case2 =>
    obtain ⟨rfl, rfl⟩ := Prod.mk.inj h
    exact hnil [] hlast
  | case3 _ b bs hb =>
    rename_i ih
    obtain ⟨rfl, rfl⟩ := Prod.mk.inj h
    obtain ⟨⟨ls, hls⟩, hinside⟩ := ih rfl hlines hlast
    refine ⟨⟨_, hls.blank hb⟩, fun hfeed => ?_⟩
    simp only [feedFollows, Bool.or_eq_true, Bool.and_eq_true, decide_eq_true_eq] at hfeed
    rcases hfeed with rfl | ⟨rfl, hfeed⟩
    · exact ⟨_, hls.blank hb⟩
    · obtain ⟨ls', hls'⟩ := hinside hfeed
      exact ⟨ls', hls'.swallow⟩
  | case4 _ b bs _ hdash read hread =>
    rename_i ih
    obtain ⟨rfl, rfl⟩ := Prod.mk.inj h
    obtain ⟨⟨ls, hls⟩, -⟩ := ih rfl hlines hlast
    rw [dashes_eq hdash]
    have hrest : (comment bs.tail).rest = read.rest := by
      rw [comment_eq, hread]
      rfl
    obtain ⟨l, hl⟩ := hls.comment (Filler.long_ne read.source) hrest
    exact ⟨⟨_, hl⟩, fun hfeed => by cases hfeed⟩
  | case5 _ b bs _ hdash hnone =>
    rename_i ih
    obtain ⟨rfl, rfl⟩ := Prod.mk.inj h
    simp only [linesEnd, Bool.and_eq_true] at hlines
    obtain ⟨-, hinside⟩ := ih rfl hlines.2 hlast
    obtain ⟨ls, hls⟩ := hinside hlines.1
    rw [dashes_eq hdash]
    have hrest : (comment bs.tail).rest =
        (bs.tail.dropWhile fun b => !isLineEnd b).dropWhile (· ≠ byte '\n') := by
      rw [comment_eq, hnone, dropWhile_lineEnd]
      rfl
    obtain ⟨l, hl⟩ := hls.comment (Filler.line_ne _) hrest
    exact ⟨⟨_, hl⟩, fun hfeed => by cases hfeed⟩
  | case6 _ b bs =>
    obtain ⟨rfl, rfl⟩ := Prod.mk.inj h
    exact hnil _ hlast

structure Piece.Sound (p : Piece) : Prop where
  spells : p.token.Spells p.source
  visible : ∀ b, p.source.head? = some b → isSpace b = false
  gapEnd : ∀ b, (Filler.bytes p.gap).getLast? = some b → isSpace b = true ∨ b = byte ']'

theorem Filler.source_ne_nil (f : Filler) : f.source ≠ [] := by
  cases f <;> simp [Filler.source]

theorem longBody_last {level : Nat} {bs : Bytes} (h : (longBody level bs).rest ≠ []) :
    (longBody level bs).source.getLast? = some (byte ']') := by
  induction bs with
  | nil => exact absurd rfl h
  | cons b bs ih =>
    by_cases hend : b = byte ']' ∧ endsBracket level bs = true
    · rw [hend.1, longBody_closed hend.2]
      dsimp only
      rw [closing, List.getLast?_cons, List.getLast?_append]
      rfl
    · rw [longBody_open hend] at h ⊢
      dsimp only at h ⊢
      rw [List.getLast?_cons, ih h, Option.getD_some]

theorem bracketed?_last {bs : Bytes} {r : Lexeme.Read} (h : bracketed? bs = some r)
    (hne : r.rest ≠ []) : r.source.getLast? = some (byte ']') := by
  cases bs with
  | nil => cases h
  | cons b bs =>
    rw [bracketed?] at h
    split at h
    · obtain ⟨r', hr, rfl⟩ := Option.map_eq_some_iff.mp h
      obtain ⟨level, -, rfl⟩ := Option.map_eq_some_iff.mp hr
      have hlast := longBody_last hne
      dsimp only
      rw [List.getLast?_cons, List.getLast?_append, hlast]
      rfl
    · cases h

/-- A gap begins with a blank or a dash. -/
theorem fillers_head (n : Nat) (bs : Bytes) {b : UInt8}
    (h : (Filler.bytes (fillers n bs).1).head? = some b) : isSpace b = true ∨ b = byte '-' := by
  fun_cases fillers n bs with
  | case1 => cases h
  | case2 => cases h
  | case3 _ x bs hx =>
    obtain rfl : x = b := by simpa [fillers, hx, Filler.bytes, Filler.source] using h
    exact .inl hx
  | case4 _ x bs hx hdash read hread =>
    right
    simpa [fillers, hx, hdash, hread, Filler.bytes, Filler.source] using h.symm
  | case5 _ x bs hx hdash hread =>
    right
    simpa [fillers, hx, hdash, hread, Filler.bytes, Filler.source] using h.symm
  | case6 _ x bs hx hdash =>
    simp [fillers, hx, hdash, Filler.bytes] at h

theorem Filler.getLast?_bytes {f : Filler} {gap : List Filler} {b : UInt8}
    (h : (Filler.bytes (f :: gap)).getLast? = some b) :
    (Filler.bytes gap).getLast? = some b ∨ gap = [] ∧ f.source.getLast? = some b := by
  cases gap with
  | nil => exact .inr ⟨rfl, by simpa [Filler.bytes] using h⟩
  | cons g gap =>
    left
    have hne : Filler.bytes (g :: gap) ≠ [] := by simp [Filler.bytes, g.source_ne_nil]
    rw [Filler.bytes, List.flatMap_cons, List.getLast?_append] at h
    cases hlast : (Filler.bytes (g :: gap)).getLast? with
    | none => exact absurd (List.getLast?_eq_none_iff.mp hlast) hne
    | some x =>
      rw [← Filler.bytes, hlast] at h
      exact h

/-- A gap before a token ends in a blank or in a long bracket. -/
theorem fillers_last (n : Nat) (bs : Bytes) {b : UInt8}
    (hlines : linesEnd false (fillers n bs).1 = true) (hne : (fillers n bs).2 ≠ [])
    (h : (Filler.bytes (fillers n bs).1).getLast? = some b) :
    isSpace b = true ∨ b = byte ']' := by
  fun_induction fillers n bs with
  | case1 => cases h
  | case2 => cases h
  | case3 _ x bs hx r ih =>
    rcases Filler.getLast?_bytes h with hlater | ⟨-, hthis⟩
    · exact ih hlines hne hlater
    · obtain rfl : x = b := by simpa [Filler.source] using hthis
      exact .inl hx
  | case4 steps x bs hx hdash read hread r ih =>
    rcases Filler.getLast?_bytes h with hlater | ⟨hnil, hthis⟩
    · exact ih hlines hne hlater
    · have hrest : read.rest ≠ [] := by
        have hsource := fillers_source steps read.rest
        rw [hnil] at hsource
        exact fun h => hne (hsource.trans h)
      rw [Filler.source, List.getLast?_cons, List.getLast?_cons,
        bracketed?_last hread hrest] at hthis
      exact .inr (Option.some.inj hthis).symm
  | case5 _ x bs hx hdash hread r ih =>
    simp only [linesEnd, Bool.and_eq_true] at hlines
    rcases Filler.getLast?_bytes h with hlater | ⟨hnil, -⟩
    · exact ih hlines.2 hne hlater
    · rw [hnil] at hlines
      cases hlines.1
  | case6 => cases h

/-- Whether the rough lexemes of a layout follow its tokens: comments end at line feeds, and strings
in quotes go on over a line feed only right after a backslash. -/
structure Aligned (pieces : List Piece) (last : List Filler) : Prop where
  gaps : ∀ p ∈ pieces, linesEnd false p.gap = true
  breaks : ∀ p ∈ pieces, p.token.escapesBreaks p.source = true
  last : linesEnd true last = true

inductive Aligns : Bytes → List Piece → List Filler → Prop where
  | done {text : Bytes} {gap : List Filler} {ls : List Lexeme} (hgap : GapRead gap text [] ls) :
      Aligns text [] gap
  | token {text before after : Bytes} {last : List Filler} {p : Piece} {ps : List Piece}
      {gapLexemes ls : List Lexeme} (htext : text = Filler.bytes p.gap ++ before)
      (hbefore : before = p.source ++ after) (hsound : p.Sound)
      (hhead : ∀ b, (Filler.bytes p.gap).head? = some b → isSpace b = true ∨ b = byte '-')
      (hgap : GapRead p.gap text before gapLexemes)
      (hlexemes : lexemes before = ls ++ lexemes after) (hreads : p.token.Reads p.source ls)
      (hafter : Aligns after ps last) : Aligns text (p :: ps) last

theorem Lays.aligns {text : Bytes} {ps : List Piece} {last : List Filler} (h : Lays text ps last)
    (ha : Aligned ps last) : Aligns text ps last := by
  induction h with
  | done hgap =>
    obtain ⟨⟨ls, hls⟩, -⟩ := lexemes_gap hgap ha.last fun _ => rfl
    exact .done hls
  | @token text before after source gap last t ps hgap hstops hsource hspells hreads _ ih =>
    have hlines := ha.gaps _ (List.mem_cons_self ..)
    obtain ⟨⟨gapLexemes, hls⟩, -⟩ := lexemes_gap hgap hlines (fun h => by cases h)
    obtain ⟨ls, hlexemes, hreads⟩ := hreads (ha.breaks _ (List.mem_cons_self ..))
    have hbytes := fillers_source (text.length + 1) text
    have hlast {b : UInt8} := fillers_last (text.length + 1) text (b := b)
    have hhead {b : UInt8} := fillers_head (text.length + 1) text (b := b)
    rw [hgap] at hbytes hlast hhead
    have hne : before ≠ [] := by
      rw [hsource]
      exact List.append_ne_nil_of_left_ne_nil hspells.ne_nil after
    refine .token hbytes.symm hsource
      ⟨hspells, fun b hb => ?_, fun b hb => hlast hlines hne hb⟩ (fun b hb => hhead hb) hls hlexemes
      hreads (ih ⟨?_, ?_, ha.last⟩)
    · apply hstops.1
      rw [hsource, List.head?_append, hb]
      rfl
    · exact fun p hp => ha.gaps p (List.mem_cons_of_mem _ hp)
    · exact fun p hp => ha.breaks p (List.mem_cons_of_mem _ hp)

end UnitCache.Lua
