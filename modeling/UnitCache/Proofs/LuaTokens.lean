import UnitCache.Proofs.LuaNumerals
import UnitCache.Proofs.LuaStrings

namespace UnitCache.Lua

open Lexeme Lexer

theorem lexemes_cons (b : UInt8) (bs : Bytes) :
    lexemes (b :: bs) = (next b bs).1 :: lexemes (next b bs).2 := by
  rw [lexemes]

def otherLexeme (b : UInt8) : Lexeme := ⟨.other, [b]⟩

section

variable {b : UInt8}

theorem ne_of_nameStart (hb : isNameStart b = true) :
    b ≠ byte '-' ∧ b ≠ byte '"' ∧ b ≠ byte '\'' ∧ b ≠ byte '[' := by
  refine ⟨?_, ?_, ?_, ?_⟩ <;>
  · rintro rfl
    revert hb
    decide

theorem ne_of_digit (hb : isDigit b = true) :
    b ≠ byte '-' ∧ b ≠ byte '"' ∧ b ≠ byte '\'' ∧ b ≠ byte '[' := by
  refine ⟨?_, ?_, ?_, ?_⟩ <;>
  · rintro rfl
    revert hb
    decide

theorem not_nameStart_of_digit (hb : isDigit b = true) : isNameStart b = false := by
  rw [isDigit, Bool.and_eq_true, decide_eq_true_eq, decide_eq_true_eq, UInt8.le_iff_toNat_le,
    UInt8.le_iff_toNat_le, show (byte '0').toNat = 48 from rfl,
    show (byte '9').toNat = 57 from rfl] at hb
  simp only [isNameStart, isLetter, Bool.or_eq_false_iff, Bool.and_eq_false_iff,
    decide_eq_false_iff_not, UInt8.le_iff_toNat_le, ← UInt8.toNat_inj,
    show (byte 'a').toNat = 97 from rfl, show (byte 'A').toNat = 65 from rfl,
    show (byte '_').toNat = 95 from rfl]
  omega

theorem next_name (bs : Bytes) (hb : isNameStart b = true) :
    next b bs = (⟨.name, b :: bs.takeWhile isNameByte⟩, bs.dropWhile isNameByte) := by
  obtain ⟨h₁, h₂, h₃, h₄⟩ := ne_of_nameStart hb
  simp [next, h₁, h₂, h₃, h₄, hb]

theorem next_number (bs : Bytes) (hb : isDigit b = true) :
    next b bs = (⟨.number, b :: bs.takeWhile isNumberByte⟩, bs.dropWhile isNumberByte) := by
  obtain ⟨h₁, h₂, h₃, h₄⟩ := ne_of_digit hb
  simp [next, h₁, h₂, h₃, h₄, hb, not_nameStart_of_digit hb]

theorem next_quote (bs : Bytes) (hb : IsQuote b) :
    next b bs = (⟨.string (short b bs).content, b :: (short b bs).source⟩, (short b bs).rest) := by
  rcases hb with rfl | rfl <;> simp [next, show byte '"' ≠ byte '-' by decide,
    show byte '\'' ≠ byte '-' by decide]

theorem next_bracket {bs : Bytes} {r : Lexeme.Read} (h : long? bs = some r) :
    next (byte '[') bs = (⟨.string r.content, byte '[' :: r.source⟩, r.rest) := by
  simp [next, show byte '[' ≠ byte '-' by decide, show byte '[' ≠ byte '"' by decide,
    show byte '[' ≠ byte '\'' by decide, h]

/-- A byte that begins no longer lexeme. -/
theorem next_other {bs : Bytes} (hname : isNameStart b = false) (hdigit : isDigit b = false)
    (hquote : ¬IsQuote b) (hdash : b = byte '-' → bs.head? ≠ some (byte '-'))
    (hbracket : b = byte '[' → long? bs = none) : next b bs = (otherLexeme b, bs) := by
  simp only [IsQuote, not_or] at hquote
  rw [next, if_neg (by simpa using hdash), if_neg (by simp [hquote])]
  split
  · rename_i hb
    rw [hbracket hb]
    rfl
  · rw [if_neg (by simp [hname]), if_neg (by simp [hdigit])]
    rfl

end

def isLone (b : UInt8) : Bool :=
  !isNameStart b && !isDigit b && b ≠ byte '"' && b ≠ byte '\'' && b ≠ byte '-' && b ≠ byte '['

theorem lexemes_lone {b : UInt8} (bs : Bytes) (hb : isLone b = true) :
    lexemes (b :: bs) = otherLexeme b :: lexemes bs := by
  simp only [isLone, Bool.and_eq_true, Bool.not_eq_true', decide_eq_true_eq] at hb
  obtain ⟨⟨⟨⟨⟨hname, hdigit⟩, h₁⟩, h₂⟩, h₃⟩, h₄⟩ := hb
  rw [lexemes_cons, next_other hname hdigit (by simp [IsQuote, h₁, h₂])
    (fun h => absurd h h₃) (fun h => absurd h h₄)]

theorem lexemes_lones {bs : Bytes} (after : Bytes) (h : ∀ b ∈ bs, isLone b = true) :
    lexemes (bs ++ after) = bs.map otherLexeme ++ lexemes after := by
  induction bs with
  | nil => rfl
  | cons b bs ih =>
    rw [List.cons_append, lexemes_lone _ (h b (List.mem_cons_self ..)),
      ih fun x hx => h x (List.mem_cons_of_mem _ hx)]
    rfl

theorem takeWhile_append {p : UInt8 → Bool} {l after : Bytes} (hl : ∀ b ∈ l, p b = true)
    (hafter : ∀ b, after.head? = some b → p b = false) :
    (l ++ after).takeWhile p = l ∧ (l ++ after).dropWhile p = after := by
  rw [List.takeWhile_append_of_pos hl, List.dropWhile_append_of_pos hl]
  cases after with
  | nil => simp
  | cons b after =>
    have hb : ¬p b = true := by simp [hafter b rfl]
    rw [List.takeWhile_cons_of_neg hb, List.dropWhile_cons_of_neg hb, List.append_nil]
    exact ⟨rfl, rfl⟩

def isNumeralLexeme (l : Lexeme) : Prop :=
  l.kind = .number ∨ l = otherLexeme (byte '.') ∨ l = otherLexeme (byte '+') ∨
    l = otherLexeme (byte '-')

theorem lexemes_digits {d : UInt8} {ds after : Bytes} (hd : isDigit d = true)
    (hds : ∀ b ∈ ds, isNumberByte b = true)
    (hafter : ∀ b, after.head? = some b → isNumberByte b = false) :
    lexemes (d :: ds ++ after) = ⟨.number, d :: ds⟩ :: lexemes after := by
  obtain ⟨htake, hdrop⟩ := takeWhile_append hds hafter
  rw [List.cons_append, lexemes_cons, next_number _ hd, htake, hdrop]

/-- A numeral from its first digit on. -/
theorem lexemes_body {d : UInt8} {body tail after : Bytes} (hd : isDigit d = true)
    (hbody : ∀ b ∈ body, isNumberByte b = true)
    (htail : IsSigned tail)
    (hafter : ∀ b, after.head? = some b → isNumberByte b = false) :
    ∃ ls, lexemes (d :: body ++ tail ++ after) = ls ++ lexemes after ∧
      ls.head?.map Lexeme.kind = some .number ∧ ∀ l ∈ ls, isNumeralLexeme l := by
  rcases htail with rfl | ⟨s, ds, rfl, hs, hne, hds⟩
  · refine ⟨[⟨.number, d :: body⟩], ?_, rfl, by simp [isNumeralLexeme]⟩
    rw [List.append_nil, lexemes_digits hd hbody hafter]
    rfl
  · cases ds with
    | nil => exact absurd rfl hne
    | cons x ds =>
      have hx := hds x (List.mem_cons_self ..)
      have hds' b (hb : b ∈ ds) := isNumberByte_of_digit (hds b (List.mem_cons_of_mem _ hb))
      have hsafter : ∀ b, (s :: (x :: ds) ++ after).head? = some b → isNumberByte b = false := by
        intro b hb
        obtain rfl : s = b := by simpa using hb
        rcases hs with rfl | rfl <;> decide
      refine ⟨[⟨.number, d :: body⟩, otherLexeme s, ⟨.number, x :: ds⟩], ?_, rfl, ?_⟩
      · have hdash : s = byte '-' → (x :: ds ++ after).head? ≠ some (byte '-') := by
          intro _ h
          obtain rfl : x = byte '-' := by simpa using h
          exact (ne_of_digit hx).1 rfl
        have hnext : next s (x :: ds ++ after) = (otherLexeme s, x :: ds ++ after) := by
          apply next_other _ _ _ hdash
          · rcases hs with rfl | rfl <;> (intro h; exact absurd h (by decide))
          · rcases hs with rfl | rfl <;> decide
          · rcases hs with rfl | rfl <;> decide
          · rcases hs with rfl | rfl <;> (simp only [IsQuote]; decide)
        rw [List.append_assoc, lexemes_digits hd hbody hsafter, List.cons_append, lexemes_cons,
          hnext]
        dsimp only
        rw [lexemes_digits hx hds' hafter]
        rfl
      · intro l hl
        simp only [List.mem_cons, List.not_mem_nil, or_false] at hl
        rcases hl with rfl | rfl | rfl
        · exact .inl rfl
        · rcases hs with rfl | rfl
          · exact .inr (.inr (.inl rfl))
          · exact .inr (.inr (.inr rfl))
        · exact .inl rfl

/-- Number bytes cannot begin with the sign of an exponent or with what follows a numeral. -/
theorem body_cons {x : UInt8} {bs body tail after : Bytes} (hx : isNumberByte x = true)
    (htail : IsSigned tail)
    (hafter : ∀ b, after.head? = some b → isNumberByte b = false)
    (h : x :: bs = body ++ tail ++ after) : ∃ body', body = x :: body' := by
  cases body with
  | cons y body => exact ⟨body, by rw [(List.cons.inj h).1]⟩
  | nil =>
    exfalso
    rcases htail with rfl | ⟨s, ds, rfl, hs, -⟩
    · have h : x :: bs = after := h
      have hfalse := hafter x (by rw [← h]; rfl)
      rw [hx] at hfalse
      cases hfalse
    · obtain ⟨rfl, -⟩ := List.cons.inj h
      rcases hs with rfl | rfl <;> exact absurd hx (by decide)

theorem lexemes_numeral {text lead bs after : Bytes} {d : UInt8} (hnumeral : IsNumeral text)
    (hlead : lead = [] ∨ lead = [byte '.']) (hd : isDigit d = true)
    (hsource : lead ++ d :: bs = text ++ after)
    (hafter : ∀ b, after.head? = some b → isNumberByte b = false) :
    ∃ ls, lexemes (text ++ after) = ls ++ lexemes after ∧ ls ≠ [] ∧
      ∀ l ∈ ls, isNumeralLexeme l := by
  obtain ⟨body, tail, rfl, hbody, htail⟩ := hnumeral.signed
  have hdn := isNumberByte_of_digit hd
  rcases hlead with rfl | rfl
  · obtain ⟨body, rfl⟩ := body_cons hdn htail hafter hsource
    obtain ⟨ls, hls, hfirst, hall⟩ := lexemes_body hd
      (fun b hb => hbody b (List.mem_cons_of_mem _ hb)) htail hafter
    refine ⟨ls, hls, ?_, hall⟩
    rintro rfl
    cases hfirst
  · obtain ⟨body, rfl⟩ := body_cons (by decide) htail hafter hsource
    have hsource : d :: bs = body ++ tail ++ after := (List.cons.inj hsource).2
    obtain ⟨body, rfl⟩ := body_cons hdn htail hafter hsource
    have hbody' : ∀ b ∈ body, isNumberByte b = true := fun b hb =>
      hbody b (List.mem_cons_of_mem _ (List.mem_cons_of_mem _ hb))
    obtain ⟨ls, hls, -, hall⟩ := lexemes_body hd hbody' htail hafter
    refine ⟨otherLexeme (byte '.') :: ls, ?_, by simp, fun l hl => ?_⟩
    · rw [List.cons_append, List.cons_append, lexemes_lone _ (by decide), hls, List.cons_append]
    · rcases List.mem_cons.mp hl with rfl | hl
      · exact .inr (.inl rfl)
      · exact hall l hl

/-- How the text of a string is written: `content` between quotes, or between long brackets. -/
inductive Written : Bytes → Bytes → Prop where
  | quoted {quote : UInt8} (content : Bytes) (hq : IsQuote quote) :
      Written (quote :: (content ++ [quote])) content
  | bracketed (level : Nat) (content : Bytes) :
      Written (byte '[' :: (List.replicate level (byte '=') ++
        byte '[' :: (content ++ closing level))) content

def Verbatim (content : Bytes) : Prop :=
  byte '\r' ∉ content ∧ content.head? ≠ some (byte '\n')

def Token.Spells : Token → Bytes → Prop
  | .name n, source => source = n ∧ source ≠ [] ∧ ∀ b ∈ source, isNameByte b = true
  | .keyword w, source =>
    source = Utf8.encode w ∧ w ∈ keywords ∧ source ≠ [] ∧ ∀ b ∈ source, isNameByte b = true
  | .string v, source =>
    ∃ content, Written source content ∧ (byte '\\' ∉ content → (content = v ↔ Verbatim content))
  | .number _, source => IsNumeral source
  | .sign s, source => source = Utf8.encode s ∧ source ≠ [] ∧
    (s ∈ longSigns ∨ ∃ c ∈ shortSigns, s = String.singleton c)
  | .stray b, source => source = [b] ∧
    Char.ofNat b.toNat ∉ shortSigns
  | .eof, _ => False

def Token.Reads : Token → Bytes → List Lexeme → Prop
  | .name _, source, ls => ls = [⟨.name, source⟩]
  | .keyword _, source, ls => ls = [⟨.name, source⟩]
  | .string _, source, ls => ∃ content, Written source content ∧ ls = [⟨.string content, source⟩]
  | .number _, _, ls => ls ≠ [] ∧ ∀ l ∈ ls, isNumeralLexeme l
  | .sign _, source, ls => ls = source.map otherLexeme
  | .stray _, source, ls => ls = source.map otherLexeme
  | .eof, _, _ => False

def Token.escapesBreaks : Token → Bytes → Bool
  | .string _, source =>
    source.head? = some (byte '[') || Lua.escapesBreaks (byte '\\') source
  | _, _ => true

/-- What a token does to both ways to cut a text, given the text it begins and the text after it. -/
def Token.Cuts (t : Token) (before after : Bytes) : Prop :=
  ∃ source, before = source ++ after ∧ t.Spells source ∧ (t.escapesBreaks source = true →
    ∃ ls, lexemes before = ls ++ lexemes after ∧ t.Reads source ls)

theorem cuts_word {b : UInt8} {bs n : Bytes} {t : Token} (hb : isNameStart b = true)
    (hn : n = (b :: bs).takeWhile isNameByte)
    (ht : t = .name n ∨ ∃ w, t = .keyword w ∧ w ∈ keywords ∧ n = Utf8.encode w) :
    t.Cuts (b :: bs) ((b :: bs).dropWhile isNameByte) := by
  have hname : isNameByte b = true := by simp [isNameByte, hb]
  have hne : n ≠ [] := by simp [hn, hname]
  have hall : ∀ x ∈ n, isNameByte x = true := hn ▸ List.all_eq_true.mp List.all_takeWhile
  have hlexemes : lexemes (b :: bs) = [⟨.name, n⟩] ++ lexemes ((b :: bs).dropWhile isNameByte) := by
    rw [lexemes_cons, next_name _ hb, hn, List.takeWhile_cons_of_pos hname,
      List.dropWhile_cons_of_pos hname]
    rfl
  refine ⟨n, by rw [hn, List.takeWhile_append_dropWhile], ?_, fun _ => ⟨_, hlexemes, ?_⟩⟩
  · rcases ht with rfl | ⟨w, rfl, hw, he⟩
    · exact ⟨rfl, hne, hall⟩
    · exact ⟨he, hw, hne, hall⟩
  · rcases ht with rfl | ⟨w, rfl, -, -⟩ <;> rfl

theorem escapesBreaks_left {last : UInt8} {a b : Bytes} (h : escapesBreaks last (a ++ b) = true) :
    escapesBreaks last a = true := by
  induction a generalizing last with
  | nil => rfl
  | cons x a ih =>
    simp only [List.cons_append, escapesBreaks, Bool.and_eq_true] at h ⊢
    exact ⟨h.1, ih h.2⟩

theorem verbatim_of_breaks {content : Bytes} (h : ∀ b ∈ content, isLineEnd b = false) :
    Verbatim content := by
  refine ⟨fun hr => ?_, fun hn => ?_⟩
  · exact absurd (h _ hr) (by decide)
  · exact absurd (h _ (List.mem_of_mem_head? hn)) (by decide)

theorem cuts_quoted {quote : UInt8} {bs text : Bytes} {line n : Nat} {c : Cursor}
    (hq : IsQuote quote) (h : string quote n [quote] ⟨line, bs⟩ = .ok (text, c)) :
    (Token.string text.tail.dropLast).Cuts (quote :: bs) c.rest := by
  obtain ⟨content, hsource, hshort, htext, hbreaks⟩ := string_ok hq h
  dsimp only at hsource hshort
  refine ⟨quote :: (content ++ [quote]), by rw [hsource]; simp, ⟨content, .quoted content hq, ?_⟩,
    fun he => ?_⟩
  · intro hr
    have hsame : text.tail.dropLast = content := by
      rw [htext hr]
      simp
    exact ⟨fun _ => verbatim_of_breaks (hbreaks hr), fun _ => hsame.symm⟩
  · have hhead : quote ≠ byte '[' := by
      rcases hq with rfl | rfl <;> decide
    have hcontent : Lua.escapesBreaks (byte '\\') (quote :: (content ++ [quote])) = true := by
      simpa [Token.escapesBreaks, hhead] using he
    simp only [Lua.escapesBreaks, Bool.and_eq_true] at hcontent
    refine ⟨[⟨.string content, quote :: (content ++ [quote])⟩], ?_, content, .quoted content hq,
      rfl⟩
    rw [lexemes_cons, next_quote _ hq, hshort _ (escapesBreaks_left hcontent.2)]
    rfl

theorem level?_eq {level : Nat} {bs : Bytes} (h : level? bs = some level) :
    bs = List.replicate level (byte '=') ++ byte '[' :: bs.drop (level + 1) := by
  induction bs generalizing level with
  | nil => cases h
  | cons b bs ih =>
    rw [level?] at h
    split at h
    · rename_i hb
      obtain rfl := Option.some.inj h
      rw [hb]
      rfl
    · split at h
      · rename_i hb
        obtain ⟨n, hn, rfl⟩ := Option.map_eq_some_iff.mp h
        rw [List.replicate_succ, List.cons_append, List.drop_succ_cons, ← ih hn, hb]
      · cases h

theorem cuts_bracketed {bs s : Bytes} {level line : Nat} {what : String} {c : Cursor}
    (hlevel : level? bs = some level)
    (h : longBracket what level ⟨line, bs.drop (level + 1)⟩ = .ok (s, c)) :
    (Token.string s).Cuts (byte '[' :: bs) c.rest := by
  obtain ⟨content, hbody, hsame⟩ := longBracket_ok h
  have hsource := longBody_source level (bs.drop (level + 1))
  dsimp only at hbody
  rw [hbody] at hsource
  have hbs := level?_eq hlevel
  rw [← hsource] at hbs
  dsimp only at hbs
  refine ⟨_, ?_, ⟨content, .bracketed level content, fun _ => hsame⟩,
    fun _ => ⟨_, ?_, content, .bracketed level content, rfl⟩⟩
  · rw [hbs]
    simp
  · have htake : bs.take (level + 1) = List.replicate level (byte '=') ++ [byte '['] := by
      rw [hbs, List.take_append, List.length_replicate, List.take_of_length_le (by simp)]
      simp
    have hlong : long? bs = some ⟨content, List.replicate level (byte '=') ++
        byte '[' :: (content ++ closing level), c.rest⟩ := by
      rw [long?, hlevel, Option.map_some, hbody, htake]
      simp
    rw [lexemes_cons, next_bracket hlong]
    rfl

theorem cuts_number {lead text bs : Bytes} {d : UInt8} {line : Nat} {t : Token} {c : Cursor}
    (hlead : lead = [] ∨ lead = [byte '.']) (hd : isDigit d = true)
    (h : number lead ⟨line, d :: bs⟩ = .ok (t, text, c)) : t.Cuts (lead ++ d :: bs) c.rest := by
  obtain ⟨n, rfl, hsource, hnumeral, hafter⟩ := number_ok hlead hd h
  obtain ⟨ls, hls, hne, hall⟩ := lexemes_numeral hnumeral hlead hd hsource hafter
  exact ⟨text, hsource, hnumeral, fun _ => ⟨ls, by rw [hsource, hls], hne, hall⟩⟩

theorem cuts_longSign {s : String} {whole : Bytes} (hs : s ∈ longSigns)
    (h : (Utf8.encode s).isPrefixOf whole = true) :
    (Token.sign s).Cuts whole (whole.drop s.length) := by
  have hlength : ∀ s ∈ longSigns, (Utf8.encode s).length = s.length := by decide +kernel
  have hlone : ∀ s ∈ longSigns, (Utf8.encode s).all isLone = true := by decide +kernel
  have hne : ∀ s ∈ longSigns, Utf8.encode s ≠ [] := by decide +kernel
  obtain ⟨after, rfl⟩ := List.isPrefixOf_iff_prefix.mp h
  rw [← hlength s hs, List.drop_left]
  exact ⟨_, rfl, ⟨rfl, hne s hs, .inl hs⟩,
    fun _ => ⟨_, lexemes_lones after (List.all_eq_true.mp (hlone s hs)), rfl⟩⟩

theorem encode_singleton {b : UInt8} (h : Char.ofNat b.toNat ∈ shortSigns) :
    Utf8.encode (String.singleton (Char.ofNat b.toNat)) = [b] := by
  have hall : shortSigns.all (fun c =>
      Utf8.encode (String.singleton c) = [UInt8.ofNat c.toNat]) = true := by decide
  have hvalid : b.toNat.isValidChar := .inl (by have := b.toNat_lt; omega)
  have hnat : (Char.ofNat b.toNat).toNat = b.toNat := by
    rw [Char.ofNat, dif_pos hvalid]
    rfl
  rw [of_decide_eq_true (List.all_eq_true.mp hall _ h), hnat, UInt8.ofNat_toNat]

theorem cuts_single {b : UInt8} {bs : Bytes} {t : Token}
    (hnext : next b bs = (otherLexeme b, bs))
    (ht : Char.ofNat b.toNat ∈ shortSigns ∧ t = .sign (String.singleton (Char.ofNat b.toNat)) ∨
      Char.ofNat b.toNat ∉ shortSigns ∧ t = .stray b) : t.Cuts (b :: bs) bs := by
  have hlexemes : lexemes (b :: bs) = [b].map otherLexeme ++ lexemes bs := by
    rw [lexemes_cons, hnext]
    rfl
  rcases ht with ⟨hmem, rfl⟩ | ⟨hmem, rfl⟩
  · exact ⟨[b], rfl, ⟨(encode_singleton hmem).symm, by simp, .inr ⟨_, hmem, rfl⟩⟩,
      fun _ => ⟨_, hlexemes, rfl⟩⟩
  · exact ⟨[b], rfl, ⟨rfl, hmem⟩, fun _ => ⟨_, hlexemes, rfl⟩⟩

/-- A bracket that neither a bracket nor a fence follows opens nothing long. -/
theorem long?_of_head {bs : Bytes} (h : bs.head? ≠ some (byte '['))
    (h' : bs.head? ≠ some (byte '=')) : long? bs = none := by
  cases bs with
  | nil => rfl
  | cons x bs =>
    rw [List.head?_cons, ne_eq, Option.some.injEq] at h h'
    rw [long?, level?, if_neg h, if_neg h', Option.map_none]

theorem token_cuts {b : UInt8} {bs text : Bytes} {line : Nat} {t : Token} {c : Cursor}
    (h : token b bs line = .ok (t, text, c)) (hdash : b = byte '-' → bs.head? ≠ some (byte '-')) :
    t.Cuts (b :: bs) c.rest := by
  unfold token at h
  dsimp only at h
  -- One kind of token after the other, in the order in which they are tried.
  split at h
  · rename_i hb
    split at h
    · rename_i w hw
      cases h
      have he : Utf8.encode w = (b :: bs).takeWhile isNameByte := by
        have hfound := List.find?_some hw
        exact of_decide_eq_true hfound
      exact cuts_word hb rfl (.inr ⟨w, rfl, List.mem_of_find?_eq_some hw, he.symm⟩)
    · cases h
      exact cuts_word hb rfl (.inl rfl)
  rename_i hname
  split at h
  · rename_i hquote
    obtain ⟨⟨text', c'⟩, hs, h⟩ := bind_ok h
    cases h
    exact cuts_quoted (by simpa [IsQuote] using hquote) hs
  rename_i hquote
  split at h
  · rename_i hb
    simp only [Bool.and_eq_true, decide_eq_true_eq] at hb
    split at h
    · rename_i level hlevel
      obtain ⟨⟨s, c'⟩, hs, h⟩ := bind_ok h
      cases h
      rw [hb.1]
      exact cuts_bracketed hlevel hs
    · cases h
  rename_i hbracket
  split at h
  · rename_i hd
    exact cuts_number (.inl rfl) hd h
  rename_i hdigit
  split at h
  · rename_i hpoint
    simp only [Bool.and_eq_true, decide_eq_true_eq] at hpoint
    obtain ⟨rfl, hpoint⟩ := hpoint
    cases bs with
    | nil => simp at hpoint
    | cons d bs => exact cuts_number (.inr rfl) (by simpa using hpoint) h
  split at h
  · rename_i s hs
    cases h
    have hprefix : (Utf8.encode s).isPrefixOf (b :: bs) = true := by
      simpa using List.find?_some hs
    exact cuts_longSign (List.mem_of_find?_eq_some hs) hprefix
  have hlong (hb : b = byte '[') : long? bs = none := by
    simp only [hb, decide_true, Bool.true_and, Bool.or_eq_true, decide_eq_true_eq,
      not_or] at hbracket
    exact long?_of_head hbracket.1 hbracket.2
  have hnext : next b bs = (otherLexeme b, bs) :=
    next_other (by simpa using hname) (by simpa using hdigit) (by simpa [IsQuote] using hquote)
      hdash hlong
  split at h
  · rename_i hmem
    cases h
    exact cuts_single hnext (.inl ⟨by simpa using hmem, rfl⟩)
  · rename_i hmem
    cases h
    exact cuts_single hnext (.inr ⟨by simpa using hmem, rfl⟩)

end UnitCache.Lua
