import UnitCache.Proofs.LuaRequirements

namespace UnitCache.Lua

open Lexeme Requirement

inductive Opens : Bytes → Prop where
  | quote {b : UInt8} (h : IsQuote b) : Opens [b]
  | bracket (level : Nat) : Opens (byte '[' :: (List.replicate level (byte '=') ++ [byte '[']))

/-- A requirement stands in a text on the word `require`, between `before` and `after`. -/
structure Requirement.Stands (r : Requirement) (text before after : Bytes) : Prop where
  word : text = before ++ (requireName ++ after)
  offset : r.offset = before.length
  line : r.line = 1 + before.count (byte '\n')
  left : ∀ b, before.getLast? = some b → isNameByte b = false
  right : ∀ b, after.head? = some b → isNameByte b = false

/-- A name is written out in the text after a `require`: only blanks, comments and at most one
parenthesis stand between the two. -/
structure Names (after : Bytes) (name : String) : Prop where
  known : name ≠ ""
  plain : '\\' ∉ name.toList
  written : ∃ (gap : List Lexeme) (opening rest : Bytes),
    after = gap.flatMap Lexeme.source ++ (opening ++ (Utf8.encode name ++ rest)) ∧
    gap <+: lexemes after ∧ Opens opening ∧
    gap.filter (!isSkipped ·) <+: [otherLexeme (byte '(')]

theorem mem_among {before : Bytes} {ls : List Lexeme} {r : Requirement} (h : r ∈ among before ls) :
    ∃ front l back, ls = front ++ l :: back ∧ l.kind = .name ∧ l.source = requireName ∧
      r = ⟨((front.flatMap Lexeme.source).reverse ++ before).length,
        ((front.flatMap Lexeme.source).reverse ++ before).count (byte '\n') + 1,
        targetOf back⟩ := by
  induction ls generalizing before with
  | nil => cases h
  | cons l ls ih =>
    have hlater (hr : r ∈ among (l.source.reverse ++ before) ls) : ∃ front l' back,
        l :: ls = front ++ l' :: back ∧ l'.kind = .name ∧ l'.source = requireName ∧
        r = ⟨((front.flatMap Lexeme.source).reverse ++ before).length,
          ((front.flatMap Lexeme.source).reverse ++ before).count (byte '\n') + 1,
          targetOf back⟩ := by
      obtain ⟨front, l', back, rfl, hkind, hsource, rfl⟩ := ih hr
      exact ⟨l :: front, l', back, rfl, hkind, hsource, by simp⟩
    rw [among] at h
    split at h
    · rename_i hl
      rcases List.mem_cons.mp h with rfl | h
      · exact ⟨[], l, ls, rfl, hl.1, hl.2.1, rfl⟩
      · exact hlater h
    · exact hlater h

/-- Each requirement stands further on than those before it. -/
theorem offsets_increase (before : Bytes) (ls : List Lexeme) :
    ((among before ls).map offset).Pairwise (· < ·) := by
  induction ls generalizing before with
  | nil => exact List.Pairwise.nil
  | cons l ls ih =>
    rw [among]
    split
    · rename_i hl
      rw [List.map_cons, List.pairwise_cons]
      refine ⟨fun n hn => ?_, ih _⟩
      obtain ⟨r, hr, rfl⟩ := List.mem_map.mp hn
      have hle := le_offset r.call (List.mem_map_of_mem hr)
      have hpos : 0 < l.source.length := by
        rw [hl.2.1]
        decide
      simp only [List.length_append, List.length_reverse, call] at hle
      dsimp only
      omega
    · exact ih _

/-- A lexeme of a text is what is read off at its place. -/
theorem lexemes_split {text : Bytes} {front back : List Lexeme} {l : Lexeme}
    (h : lexemes text = front ++ l :: back) :
    ∃ b bs, text = front.flatMap Lexeme.source ++ b :: bs ∧ l = (next b bs).1 ∧
      back = lexemes (next b bs).2 := by
  induction front generalizing text with
  | nil =>
    cases text with
    | nil => simp [lexemes] at h
    | cons b bs =>
      rw [lexemes_cons] at h
      obtain ⟨hl, hback⟩ := List.cons.inj h
      exact ⟨b, bs, rfl, hl.symm, hback.symm⟩
  | cons m front ih =>
    cases text with
    | nil => simp [lexemes] at h
    | cons c cs =>
      rw [lexemes_cons] at h
      obtain ⟨rfl, hrest⟩ := List.cons.inj h
      obtain ⟨b, bs, htext, hl, hback⟩ := ih hrest
      refine ⟨b, bs, ?_, hl, hback⟩
      rw [List.flatMap_cons, List.append_assoc, ← htext, next_source]

inductive FrontRead : UInt8 → Bytes → Lexeme × Bytes → Prop where
  | comment (bs : Bytes) : FrontRead (byte '-') (byte '-' :: bs)
      (⟨.comment, byte '-' :: byte '-' :: (Lexeme.comment bs).source⟩, (Lexeme.comment bs).rest)
  | quoted {b : UInt8} (bs : Bytes) (h : IsQuote b) : FrontRead b bs
      (⟨.string (short b bs).content, b :: (short b bs).source⟩, (short b bs).rest)
  | bracketed {level : Nat} {bs : Bytes} (h : level? bs = some level) : FrontRead (byte '[') bs
      (⟨.string (longBody level (bs.drop (level + 1))).content,
        byte '[' :: (bs.take (level + 1) ++ (longBody level (bs.drop (level + 1))).source)⟩,
        (longBody level (bs.drop (level + 1))).rest)
  | name {b : UInt8} (bs : Bytes) (h : isNameStart b = true) : FrontRead b bs
      (⟨.name, b :: bs.takeWhile isNameByte⟩, bs.dropWhile isNameByte)
  | number {b : UInt8} (bs : Bytes) (h : isDigit b = true) : FrontRead b bs
      (⟨.number, b :: bs.takeWhile isNumberByte⟩, bs.dropWhile isNumberByte)
  | other {b : UInt8} (bs : Bytes) (h : isNameByte b = false) : FrontRead b bs (otherLexeme b, bs)

theorem next_reads (b : UInt8) (bs : Bytes) : FrontRead b bs (next b bs) := by
  by_cases hname : isNameStart b = true
  · rw [next_name bs hname]
    exact .name bs hname
  by_cases hdigit : isDigit b = true
  · rw [next_number bs hdigit]
    exact .number bs hdigit
  by_cases hquote : IsQuote b
  · rw [next_quote bs hquote]
    exact .quoted bs hquote
  by_cases hdash : b = byte '-' ∧ bs.head? = some (byte '-')
  · obtain ⟨rfl, hdash⟩ := hdash
    obtain ⟨cs, rfl⟩ := List.head?_eq_some_iff.mp hdash
    rw [next_comment]
    exact .comment cs
  cases hlevel : level? bs with
  | none =>
    rw [next_other (by simpa using hname) (by simpa using hdigit) hquote (not_and.mp hdash)
      fun _ => by rw [long?, hlevel]; rfl]
    exact .other bs (by simp [isNameByte, hname, hdigit])
  | some level =>
    by_cases hbracket : b = byte '['
    · obtain rfl := hbracket
      rw [next_bracket (by rw [long?, hlevel]; rfl)]
      exact .bracketed hlevel
    · rw [next_other (by simpa using hname) (by simpa using hdigit) hquote (not_and.mp hdash)
        fun h => absurd h hbracket]
      exact .other bs (by simp [isNameByte, hname, hdigit])

theorem head_dropWhile {p : UInt8 → Bool} {bs : Bytes} {x : UInt8}
    (h : (bs.dropWhile p).head? = some x) : p x = false := by
  have hnot := List.head?_dropWhile_not p bs
  rw [h] at hnot
  simpa using hnot

/-- A string in quotes ends with a quote, before a line feed, or with the text. -/
theorem short_last {quote : UInt8} {bs : Bytes} {x : UInt8}
    (h : (short quote bs).rest.head? = some x) :
    x = byte '\n' ∨ (short quote bs).source.getLast? = some quote := by
  fun_induction short quote bs with
  | case1 => cases h
  | case2 bs => exact .inl (Option.some.inj h).symm
  | case3 => exact .inr rfl
  | case4 => cases h
  | case5 _ _ r _ _ ih =>
    apply (ih h).imp_right
    intro hlast
    simp [List.getLast?_cons, r, hlast]
  | case6 _ _ _ _ _ r ih =>
    apply (ih h).imp_right
    intro hlast
    simp [List.getLast?_cons, r, hlast]

theorem comment_last {bs : Bytes} {x : UInt8} (h : (Lexeme.comment bs).rest.head? = some x) :
    x = byte '\n' ∨ (Lexeme.comment bs).source.getLast? = some (byte ']') := by
  rw [comment_eq] at h ⊢
  cases hlong : bracketed? bs with
  | none =>
    rw [hlong] at h
    left
    simpa using head_dropWhile h
  | some r =>
    rw [hlong, Option.getD_some] at h
    right
    apply bracketed?_last hlong
    intro hnil
    rw [hnil] at h
    cases h

/-- The lexeme right before a letter does not end in a name byte. -/
theorem next_last {b x y : UInt8} {bs : Bytes} (hx : (next b bs).2.head? = some x)
    (hletter : isLetter x = true) (hy : (next b bs).1.source.getLast? = some y) :
    isNameByte y = false := by
  have hfeed : x ≠ byte '\n' := by
    rintro rfl
    revert hletter
    decide
  have hread := next_reads b bs
  generalize next b bs = read at hx hy hread
  cases hread with
  | comment bs =>
    have hlast := (comment_last hx).resolve_left hfeed
    simp only [List.getLast?_cons, hlast, Option.getD_some, Option.some.injEq] at hy
    obtain rfl := hy
    decide
  | quoted bs hq =>
    have hlast := (short_last hx).resolve_left hfeed
    simp only [List.getLast?_cons, hlast, Option.getD_some, Option.some.injEq] at hy
    obtain rfl := hy
    rcases hq with rfl | rfl <;> decide
  | @bracketed level bs hlevel =>
    have hrest : (longBody level (bs.drop (level + 1))).rest ≠ [] := by
      intro hnil
      simp [hnil] at hx
    have hlast := longBody_last hrest
    simp only [List.getLast?_cons, List.getLast?_append, hlast, Option.some_or, Option.getD_some,
      Option.some.injEq] at hy
    obtain rfl := hy
    decide
  | name bs hb =>
    have hno := head_dropWhile hx
    simp [isNameByte, isNameStart, hletter] at hno
  | number bs hb =>
    have hno := head_dropWhile hx
    simp [isNumberByte, hletter] at hno
  | other bs hb =>
    simp only [otherLexeme, List.getLast?_singleton, Option.some.injEq] at hy
    rwa [← hy]

/-- A string in quotes without escapes stands in the text as it is. -/
theorem short_content {quote : UInt8} {bs : Bytes} (h : byte '\\' ∉ (short quote bs).content) :
    ∃ rest, bs = (short quote bs).content ++ rest ∧
      ∀ y, rest.head? = some y → y = byte '\n' ∨ y = quote ∨ y = byte '\\' := by
  fun_induction short quote bs with
  | case1 => exact ⟨[], rfl, by simp⟩
  | case2 bs => exact ⟨byte '\n' :: bs, rfl, by simp⟩
  | case3 bs => exact ⟨_, rfl, by simp⟩
  | case4 => exact ⟨[byte '\\'], rfl, by simp⟩
  | case5 => simp at h
  | case6 b bs _ _ _ _ ih =>
    simp only [List.mem_cons, not_or] at h
    obtain ⟨rest, hbs, hrest⟩ := ih h.2
    exact ⟨rest, congrArg (b :: ·) hbs, hrest⟩

/-- A string in long brackets stands in the text as it is. -/
theorem longBody_content (level : Nat) (bs : Bytes) :
    ∃ rest, bs = (longBody level bs).content ++ rest ∧
      ∀ y, rest.head? = some y → y = byte ']' := by
  induction bs with
  | nil => exact ⟨[], rfl, by simp⟩
  | cons b bs ih =>
    by_cases hend : b = byte ']' ∧ endsBracket level bs = true
    · exact ⟨b :: bs, by rw [hend.1, longBody_closed hend.2]; rfl, by simp [hend.1]⟩
    · obtain ⟨rest, hbs, hrest⟩ := ih
      refine ⟨rest, ?_, hrest⟩
      rw [longBody_open hend, List.cons_append, ← hbs]

theorem next_name_right {b y : UInt8} {bs : Bytes} (h : (next b bs).1.kind = .name)
    (hy : (next b bs).2.head? = some y) : isNameByte y = false := by
  have hread := next_reads b bs
  generalize next b bs = read at h hy hread
  cases hread with
  | name bs hb => exact head_dropWhile hy
  | comment | quoted | bracketed | number | other => cases h

/-- A string that is read off a text without escapes stands in it as it is, after an ASCII byte that
ends its opening, and before one or the end of the text. -/
theorem next_string {b : UInt8} {bs content source : Bytes}
    (h : (next b bs).1 = ⟨.string content, source⟩) (hplain : byte '\\' ∉ content) :
    ∃ front x rest, b :: bs = front ++ x :: (content ++ rest) ∧ Opens (front ++ [x]) ∧
      x < 0x80 ∧ ∀ y, rest.head? = some y → y < 0x80 := by
  have hread := next_reads b bs
  generalize next b bs = read at h hread
  cases hread with
  | quoted bs hq =>
    obtain ⟨rfl, -⟩ : (short b bs).content = content ∧ _ := by simpa using h
    obtain ⟨rest, hbs, hrest⟩ := short_content hplain
    have hascii : b < 0x80 := by
      rcases hq with rfl | rfl <;> decide
    refine ⟨[], b, rest, congrArg (b :: ·) hbs, .quote hq, hascii, ?_⟩
    intro y hy
    rcases hrest y hy with rfl | rfl | rfl
    · decide
    · exact hascii
    · decide
  | @bracketed level bs hlevel =>
    obtain ⟨rfl, -⟩ : (longBody level (bs.drop (level + 1))).content = content ∧ _ := by
      simpa using h
    obtain ⟨rest, hbs, hrest⟩ := longBody_content level (bs.drop (level + 1))
    refine ⟨byte '[' :: List.replicate level (byte '='), byte '[', rest, ?_, .bracket level,
      by decide, ?_⟩
    · rw [List.cons_append, ← hbs, ← level?_eq hlevel]
    · intro y hy
      obtain rfl := hrest y hy
      decide
  | comment | name | number | other => simp [otherLexeme] at h

theorem literal_eq {content : Bytes} {name : String} (h : literal content = .literal name) :
    content ≠ [] ∧ byte '\\' ∉ content ∧ Utf8.decodeLossy content = name := by
  rw [literal] at h
  split at h
  · cases h
  · rename_i hc
    simp only [Bool.or_eq_true, List.isEmpty_iff, List.contains_iff_mem, not_or] at hc
    exact ⟨hc.1, hc.2, Target.literal.inj h⟩

theorem skip_parts (ls : List Lexeme) :
    ∃ gap, ls = gap ++ Requirement.skip ls ∧ gap.filter (!isSkipped ·) = [] := by
  refine ⟨ls.takeWhile isSkipped, List.takeWhile_append_dropWhile.symm, ?_⟩
  apply List.filter_eq_nil_iff.mpr
  intro l hl
  simp [List.all_eq_true.mp List.all_takeWhile l hl]

theorem enclosedTarget_literal {ls : List Lexeme} {name : String}
    (h : enclosedTarget ls = .literal name) :
    ∃ gap content source more, ls = gap ++ ⟨.string content, source⟩ :: more ∧
      gap.filter (!isSkipped ·) = [] ∧ literal content = .literal name := by
  obtain ⟨gap, hls, hgap⟩ := skip_parts ls
  rw [enclosedTarget] at h
  split at h
  · rename_i content source more hskip
    refine ⟨gap, content, source, more, hskip ▸ hls, hgap, ?_⟩
    split at h
    · split at h
      · exact h
      · cases h
    · cases h
  · cases h

/-- A name that is known is the content of a string after the `require`. -/
theorem targetOf_literal {ls : List Lexeme} {name : String} (h : targetOf ls = .literal name) :
    ∃ gap content source more, ls = gap ++ ⟨.string content, source⟩ :: more ∧
      gap.filter (!isSkipped ·) <+: [otherLexeme (byte '(')] ∧ literal content = .literal name := by
  obtain ⟨gap, hls, hgap⟩ := skip_parts ls
  rw [targetOf] at h
  split at h
  · cases h
  · rename_i l more hskip
    rw [hskip] at hls
    split at h
    · rename_i content hkind
      refine ⟨gap, content, l.source, more, ?_, by rw [hgap]; exact List.nil_prefix, h⟩
      rw [hls, ← hkind]
    · split at h
      · rename_i hopen
        obtain ⟨gap', content, source, more', rfl, hgap', hliteral⟩ := enclosedTarget_literal h
        have hl : l = otherLexeme (byte '(') := by
          simp only [isSign, Bool.and_eq_true, decide_eq_true_eq] at hopen
          obtain ⟨kind, lsource⟩ := l
          simpa [otherLexeme] using hopen
        have hvisible : isSkipped (otherLexeme (byte '(')) = false := by decide
        refine ⟨gap ++ l :: gap', content, source, more', by rw [hls]; simp, ?_, hliteral⟩
        simp [List.filter_append, hgap, hgap', hl, hvisible]
      · cases h

theorem not_mem_of_encode {name : String} (h : byte '\\' ∉ Utf8.encode name) :
    '\\' ∉ name.toList := by
  intro hmem
  apply h
  apply List.mem_flatMap.mpr
  exact ⟨_, hmem, by decide⟩

/-- A name that is known stands in the text after its `require`. -/
theorem names_of_literal {after : Bytes} {name : String} (htext : IsTextEnd after)
    (h : targetOf (lexemes after) = .literal name) : Names after name := by
  obtain ⟨gap, content, source, more, hls, hgap, hliteral⟩ := targetOf_literal h
  obtain ⟨hne, hplain, hname⟩ := literal_eq hliteral
  obtain ⟨b, bs, hafter, hstring, -⟩ := lexemes_split hls
  obtain ⟨front, x, rest, hbs, hopens, hx, hrest⟩ := next_string hstring.symm hplain
  obtain ⟨s, before, hs⟩ := htext
  have hsplit : Utf8.encode s =
      before ++ gap.flatMap Lexeme.source ++ front ++ x :: (content ++ rest) := by
    rw [hs, hafter, hbs]
    simp
  have hencode : Utf8.encode name = content := by
    rw [← hname]
    exact Utf8.encode_decodeLossy hsplit hx hrest
  refine ⟨?_, not_mem_of_encode (hencode ▸ hplain), gap, front ++ [x], rest, ?_, ?_, hopens, hgap⟩
  · rintro rfl
    exact hne hencode.symm
  · rw [hafter, hbs, hencode]
    simp
  · rw [hls]
    exact List.prefix_append _ _

/-- The lexemes before a letter do not end in a name byte. -/
theorem front_last {text bs : Bytes} {front back : List Lexeme} {x y : UInt8}
    (hls : lexemes text = front ++ back) (htext : text = front.flatMap Lexeme.source ++ x :: bs)
    (hletter : isLetter x = true) (hy : (front.flatMap Lexeme.source).getLast? = some y) :
    isNameByte y = false := by
  cases hfront : front.getLast? with
  | none =>
    rw [List.getLast?_eq_none_iff.mp hfront] at hy
    cases hy
  | some l =>
    obtain ⟨start, rfl⟩ := List.getLast?_eq_some_iff.mp hfront
    rw [List.append_assoc, List.singleton_append] at hls
    obtain ⟨c, cs, hsplit, rfl, -⟩ := lexemes_split hls
    have hrest : (next c cs).2 = x :: bs := by
      rw [hsplit, ← next_source c cs, List.flatMap_append, List.flatMap_singleton,
        List.append_assoc] at htext
      exact List.append_cancel_left (List.append_cancel_left htext)
    have hlast : (next c cs).1.source.getLast? = some y := by
      rw [List.flatMap_append, List.flatMap_singleton, List.getLast?_append] at hy
      cases hsource : (next c cs).1.source.getLast? with
      | none => exact absurd (List.getLast?_eq_none_iff.mp hsource) (next_source_ne_nil c cs)
      | some z => simpa [hsource] using hy
    exact next_last (by rw [hrest]; rfl) hletter hlast

/-- Each requirement of a text stands on a word `require` of it. -/
theorem stands_of_mem {text : Bytes} {r : Requirement} (h : r ∈ requirements text) :
    ∃ before after, r.Stands text before after ∧ r.target = targetOf (lexemes after) := by
  obtain ⟨front, l, back, hls, hkind, hsource, rfl⟩ := mem_among h
  obtain ⟨b, bs, htext, rfl, rfl⟩ := lexemes_split hls
  have hword : b :: bs = requireName ++ (next b bs).2 := by
    rw [← hsource, next_source]
  refine ⟨front.flatMap Lexeme.source, (next b bs).2, ⟨?_, by simp, by simp [Nat.add_comm], ?_, ?_⟩,
    rfl⟩
  · rw [htext, hword]
  · intro y hy
    have hletter : isLetter b = true := by
      have hhead := congrArg List.head? hword
      rw [show requireName = byte 'r' :: Utf8.encode "equire" by decide] at hhead
      rw [Option.some.inj hhead]
      decide
    exact front_last hls htext hletter hy
  · intro y hy
    exact next_name_right hkind hy

/-- The requirements of a text that is UTF-8 stand one after the other on words `require` of it, each
on the line that it counts, which 32 bits hold in a text of fewer than `2 ^ 32 - 1` line feeds. A name
that is known is written out behind its `require`, after the opening of a string. -/
theorem requirements_positions (source : String) :
    ((requirements (Utf8.encode source)).map Requirement.offset).Pairwise (· < ·) ∧
      ∀ r ∈ requirements (Utf8.encode source), ∃ before after,
        r.Stands (Utf8.encode source) before after ∧
        ((Utf8.encode source).count (byte '\n') < 2 ^ 32 - 1 → r.line < 2 ^ 32) ∧
        ∀ name, r.target = .literal name → Names after name := by
  refine ⟨offsets_increase [] _, fun r hr => ?_⟩
  obtain ⟨before, after, hstands, htarget⟩ := stands_of_mem hr
  refine ⟨before, after, hstands, fun hfew => ?_, fun name hname => ?_⟩
  · rw [hstands.word, List.count_append] at hfew
    rw [hstands.line]
    omega
  · apply names_of_literal _ (htarget ▸ hname)
    refine ⟨source, before ++ requireName, ?_⟩
    rw [hstands.word, List.append_assoc]

/-- A line break inside a string counts, and characters of two bytes do not shift a place. -/
theorem requirements_positions_accented :
    requirements (Utf8.encode "é='\\\nü' require([==[lü.x]==])") =
        [⟨10, 2, .literal "lü.x"⟩] ∧
      ∃ before after,
        Requirement.Stands ⟨10, 2, .literal "lü.x"⟩
          (Utf8.encode "é='\\\nü' require([==[lü.x]==])") before after ∧ Names after "lü.x" := by
  have hfound : requirements (Utf8.encode "é='\\\nü' require([==[lü.x]==])") =
      [⟨10, 2, .literal "lü.x"⟩] := by
    decide +kernel
  have hmem : ⟨10, 2, .literal "lü.x"⟩ ∈
      requirements (Utf8.encode "é='\\\nü' require([==[lü.x]==])") := by
    rw [hfound]
    exact List.mem_singleton_self _
  obtain ⟨before, after, hstands, -, hname⟩ := (requirements_positions _).2 _ hmem
  exact ⟨hfound, before, after, hstands, hname _ rfl⟩

end UnitCache.Lua
