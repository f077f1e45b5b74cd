import UnitCache.Lua.Lexer
import UnitCache.Proofs.Effects

namespace UnitCache.Lua

open Lexeme Lexer

def closing (level : Nat) : Bytes := byte ']' :: (List.replicate level (byte '=') ++ [byte ']'])

theorem endsBracket_eq {level : Nat} {bs : Bytes} (h : endsBracket level bs = true) :
    bs = List.replicate level (byte '=') ++ byte ']' :: bs.drop (level + 1) := by
  induction level generalizing bs with
  | zero =>
    cases bs with
    | nil => simp [endsBracket] at h
    | cons b bs =>
      have hb : b = byte ']' := by simpa [endsBracket] using h
      simp [hb]
  | succ n ih =>
    cases bs with
    | nil => simp [endsBracket] at h
    | cons b bs =>
      simp only [endsBracket, Bool.and_eq_true, decide_eq_true_eq] at h
      obtain ⟨hb, hbs⟩ := h
      rw [List.replicate_succ, List.cons_append, List.drop_succ_cons, ← ih hbs, hb]

theorem longBody_closed {level : Nat} {bs : Bytes} (h : endsBracket level bs = true) :
    longBody level (byte ']' :: bs) = ⟨[], closing level, bs.drop (level + 1)⟩ := by
  have htake : bs.take (level + 1) = List.replicate level (byte '=') ++ [byte ']'] := by
    conv => lhs; rw [endsBracket_eq h]
    rw [List.take_append, List.length_replicate, List.take_of_length_le (by simp)]
    simp
  simp [longBody, h, htake, closing]

theorem longBody_open {level : Nat} {b : UInt8} {bs : Bytes}
    (h : ¬(b = byte ']' ∧ endsBracket level bs = true)) :
    longBody level (b :: bs) =
      ⟨b :: (longBody level bs).content, b :: (longBody level bs).source,
        (longBody level bs).rest⟩ := by
  rw [longBody, if_neg (by simpa using h)]

theorem isLineEnd_ne {b : UInt8} (h : isLineEnd b = true) : b ≠ byte ']' := by
  rintro rfl
  revert h
  decide

/-- A line end takes one byte or two. -/
theorem afterLineEnd_cases (b : UInt8) (bs : Bytes) :
    afterLineEnd b bs = bs ∨
      ∃ c, isLineEnd c = true ∧ c ≠ b ∧ bs = c :: afterLineEnd b bs := by
  unfold afterLineEnd
  cases bs with
  | nil => exact .inl rfl
  | cons c cs =>
    dsimp only
    split
    · rename_i h
      simp only [ne_eq, Bool.and_eq_true, decide_eq_true_eq] at h
      exact .inr ⟨c, h.1, h.2, rfl⟩
    · exact .inl rfl

/-- A line end inside a long bracket belongs to its content. -/
theorem longBody_lineEnd {level : Nat} {b : UInt8} {bs content after : Bytes}
    (hb : isLineEnd b = true)
    (h : longBody level (afterLineEnd b bs) = ⟨content, content ++ closing level, after⟩) :
    ∃ more, longBody level (b :: bs) =
        ⟨b :: (more ++ content), b :: (more ++ content) ++ closing level, after⟩ ∧
      (byte '\r' ∉ b :: more → more = []) := by
  have hopen (bs : Bytes) : ¬(b = byte ']' ∧ endsBracket level bs = true) :=
    fun h => isLineEnd_ne hb h.1
  rcases afterLineEnd_cases b bs with hone | ⟨c, hc, hne, htwo⟩
  · rw [hone] at h
    exact ⟨[], by rw [longBody_open (hopen bs), h]; rfl, fun _ => rfl⟩
  · refine ⟨[c], ?_, fun hr => ?_⟩
    · rw [longBody_open (hopen bs), htwo, longBody_open (fun h => isLineEnd_ne hc h.1), h]
      rfl
    · exfalso
      simp only [isLineEnd, Bool.or_eq_true, decide_eq_true_eq] at hb hc
      grind

/-- Lua and the rough lexemes agree where a long bracket ends. Its value has each line end as a line
feed. -/
theorem long_ok {what : String} {start level n : Nat} {acc : Bytes} {c c' : Cursor} {s : Bytes}
    (h : long what start level n acc c = .ok (s, c')) :
    ∃ content v, longBody level c.rest = ⟨content, content ++ closing level, c'.rest⟩ ∧
      s = acc.reverse ++ v ∧ byte '\r' ∉ v ∧ v.length ≤ content.length ∧
      (byte '\r' ∉ content → v = content) := by
  induction n generalizing acc c with
  | zero => simp [long] at h
  | succ n ih =>
    rw [long] at h
    cases hrest : c.rest with
    | nil => simp [hrest] at h
    | cons b bs =>
      simp only [hrest] at h
      split at h
      · rename_i hend
        simp only [Bool.and_eq_true, decide_eq_true_eq] at hend
        obtain ⟨rfl, hend⟩ := hend
        simp only [Except.ok.injEq, Prod.mk.injEq] at h
        obtain ⟨rfl, rfl⟩ := h
        exact ⟨[], [], by rw [longBody_closed hend]; rfl, by simp, by simp, by simp, fun _ => rfl⟩
      · rename_i hend
        split at h
        · rename_i hb
          obtain ⟨content, v, hbody, hs, hv, hlen, hsame⟩ := ih h
          obtain ⟨more, hbody', hmore⟩ := longBody_lineEnd hb hbody
          refine ⟨b :: (more ++ content), byte '\n' :: v, hbody', by simp [hs], ?_, ?_, ?_⟩
          · simpa [show byte '\r' ≠ byte '\n' by decide] using hv
          · simp only [List.length_cons, List.length_append]
            omega
          · intro hr
            simp only [List.mem_cons, List.mem_append, not_or] at hr
            have hnil := hmore (by simp [hr.1, hr.2.1])
            have hbn : b = byte '\n' := by
              simp only [isLineEnd, Bool.or_eq_true, decide_eq_true_eq] at hb
              grind
            rw [hnil, hbn, hsame hr.2.2]
            rfl
        · rename_i hb
          obtain ⟨content, v, hbody, hs, hv, hlen, hsame⟩ := ih h
          refine ⟨b :: content, b :: v, ?_, by simp [hs], ?_, by simpa using hlen, ?_⟩
          · rw [longBody_open (by simpa using hend), hbody]
            rfl
          · simp only [List.mem_cons, not_or]
            refine ⟨?_, hv⟩
            rintro rfl
            exact hb (by decide)
          · intro hr
            rw [hsame fun hc => hr (List.mem_cons_of_mem _ hc)]

/-- A long bracket after its opening: its content stands in the text, and is its value unless it
holds a carriage return or begins with a line feed. -/
theorem longBracket_ok {what : String} {level : Nat} {c c' : Cursor} {s : Bytes}
    (h : longBracket what level c = .ok (s, c')) :
    ∃ content, longBody level c.rest = ⟨content, content ++ closing level, c'.rest⟩ ∧
      (content = s ↔ byte '\r' ∉ content ∧ content.head? ≠ some (byte '\n')) := by
  unfold longBracket at h
  cases hrest : c.rest with
  | nil =>
    simp only [hrest] at h
    obtain ⟨content, v, hbody, -, -⟩ := long_ok h
    rw [hrest] at hbody
    simp [longBody, closing] at hbody
  | cons b bs =>
    simp only [hrest] at h
    split at h
    · rename_i hb
      obtain ⟨content, v, hbody, hs, hv, hlen, -⟩ := long_ok h
      obtain ⟨more, hbody', -⟩ := longBody_lineEnd hb hbody
      refine ⟨_, hbody', ?_⟩
      constructor
      · -- the value has no more bytes than the content after its first line end
        intro he
        have hlength := congrArg List.length he
        simp only [hs, List.reverse_nil, List.nil_append, List.length_cons,
          List.length_append] at hlength
        omega
      · rintro ⟨hr, hn⟩
        exfalso
        simp only [isLineEnd, Bool.or_eq_true, decide_eq_true_eq] at hb
        rcases hb with rfl | rfl
        · exact hn rfl
        · exact hr (List.mem_cons_self ..)
    · rename_i hb
      obtain ⟨content, v, hbody, hs, hv, -, hsame⟩ := long_ok h
      rw [hrest] at hbody
      have hs : s = v := by simpa using hs
      refine ⟨content, hbody, ?_⟩
      constructor
      · rintro rfl
        refine ⟨hs ▸ hv, fun hn => ?_⟩
        cases content with
        | nil => cases hn
        | cons x content =>
          obtain rfl : x = byte '\n' := by simpa using hn
          have hsource := longBody_source level (b :: bs)
          rw [hbody] at hsource
          obtain ⟨rfl, -⟩ := List.cons.inj hsource
          exact hb (by decide)
      · rintro ⟨hr, -⟩
        rw [hs, hsame hr]

/-- Whether each line feed stands right after a backslash; `last` is the byte before. -/
def escapesBreaks (last : UInt8) : Bytes → Bool
  | [] => true
  | b :: bs => (b ≠ byte '\n' || last = byte '\\') && escapesBreaks b bs

def isInner (b : UInt8) : Bool := b ≠ byte '"' && b ≠ byte '\'' && b ≠ byte '\\'

def IsQuote (b : UInt8) : Prop := b = byte '"' ∨ b = byte '\''

theorem escapesBreaks_append {last : UInt8} {mid bs : Bytes}
    (h : escapesBreaks last (mid ++ bs) = true) (hmid : ∀ b ∈ mid, isInner b = true)
    (hlast : mid ≠ [] → last ≠ byte '\\') :
    (∀ b ∈ mid, b ≠ byte '\n') ∧ ∃ last', escapesBreaks last' bs = true := by
  induction mid generalizing last with
  | nil => exact ⟨by simp, last, h⟩
  | cons b mid ih =>
    simp only [List.cons_append, escapesBreaks, Bool.and_eq_true, Bool.or_eq_true,
      decide_eq_true_eq] at h
    have hb := hmid b (List.mem_cons_self ..)
    simp only [isInner, Bool.and_eq_true, decide_eq_true_eq] at hb
    obtain ⟨hfree, hrest⟩ := ih h.2 (fun x hx => hmid x (List.mem_cons_of_mem _ hx)) fun _ => hb.2
    refine ⟨fun x hx => ?_, hrest⟩
    rcases List.mem_cons.mp hx with rfl | hx
    · exact h.1.resolve_right (hlast (by simp))
    · exact hfree x hx

theorem short_inner {quote : UInt8} {mid : Bytes} (bs : Bytes) (hq : IsQuote quote)
    (hmid : ∀ b ∈ mid, isInner b = true) (hfree : ∀ b ∈ mid, b ≠ byte '\n') :
    short quote (mid ++ bs) =
      ⟨mid ++ (short quote bs).content, mid ++ (short quote bs).source, (short quote bs).rest⟩ := by
  induction mid with
  | nil => rfl
  | cons b mid ih =>
    have hb := hmid b (List.mem_cons_self ..)
    simp only [isInner, Bool.and_eq_true, decide_eq_true_eq] at hb
    have hbq : b ≠ quote := by
      rcases hq with rfl | rfl
      · exact hb.1.1
      · exact hb.1.2
    have hrest := ih (fun x hx => hmid x (List.mem_cons_of_mem _ hx))
      fun x hx => hfree x (List.mem_cons_of_mem _ hx)
    rw [List.cons_append, short.eq_def]
    dsimp only
    rw [if_neg (hfree b (List.mem_cons_self ..)), if_neg hbq, if_neg hb.2, hrest]
    rfl

theorem short_escape {quote e : UInt8} {mid : Bytes} (bs : Bytes) (hq : IsQuote quote)
    (hmid : ∀ b ∈ mid, isInner b = true) (hfree : ∀ b ∈ mid, b ≠ byte '\n') :
    short quote (byte '\\' :: e :: (mid ++ bs)) =
      ⟨byte '\\' :: e :: (mid ++ (short quote bs).content),
        byte '\\' :: e :: (mid ++ (short quote bs).source), (short quote bs).rest⟩ := by
  have hbq : byte '\\' ≠ quote := by
    rcases hq with rfl | rfl <;> decide
  rw [short.eq_def]
  dsimp only
  rw [if_neg (by decide), if_neg hbq, if_pos rfl, short_inner bs hq hmid hfree]

/-- What an escape takes: nothing at the end of the text, and else one byte and then only bytes that
mean nothing to a rough lexeme. -/
def Escapes (before after : Bytes) : Prop :=
  before = [] ∧ after = [] ∨ ∃ e mid, before = e :: (mid ++ after) ∧
    (∀ b ∈ mid, isInner b = true) ∧ (mid ≠ [] → e ≠ byte '\\')

theorem Escapes.one (e : UInt8) (after : Bytes) : Escapes (e :: after) after :=
  .inr ⟨e, [], rfl, by simp, by simp⟩

theorem isInner_of_hexDigit {b : UInt8} (h : isHexDigit b = true) : isInner b = true := by
  simp only [isInner, Bool.and_eq_true, decide_eq_true_eq]
  refine ⟨⟨?_, ?_⟩, ?_⟩ <;>
  · rintro rfl
    revert h
    decide

theorem isInner_of_space {b : UInt8} (h : isSpace b = true) : isInner b = true := by
  simp only [isInner, Bool.and_eq_true, decide_eq_true_eq]
  refine ⟨⟨?_, ?_⟩, ?_⟩ <;>
  · rintro rfl
    revert h
    decide

theorem isSpace_of_lineEnd {b : UInt8} (h : isLineEnd b = true) : isSpace b = true := by
  simp only [isLineEnd, Bool.or_eq_true, decide_eq_true_eq] at h
  rcases h with rfl | rfl <;> decide

theorem hexDigit_ok {read : Bytes} {c c' : Cursor} {v : Nat} {read' : Bytes}
    (h : hexDigit read c = .ok (v, read', c')) :
    ∃ b, c.rest = b :: c'.rest ∧ isInner b = true := by
  unfold hexDigit at h
  cases hrest : c.rest with
  | nil => simp [hrest] at h
  | cons b bs =>
    simp only [hrest] at h
    split at h
    · rename_i hb
      simp only [Except.ok.injEq, Prod.mk.injEq] at h
      obtain ⟨-, -, rfl⟩ := h
      exact ⟨b, rfl, isInner_of_hexDigit hb⟩
    · cases h

theorem moreDigits_ok {n line v : Nat} {read bs read' : Bytes} {c : Cursor}
    (h : moreDigits n read line bs = .ok (v, read', c)) :
    ∃ mid, bs = mid ++ c.rest ∧ ∀ b ∈ mid, isInner b = true := by
  induction bs generalizing n read with
  | nil =>
    simp only [moreDigits, Except.ok.injEq, Prod.mk.injEq] at h
    obtain ⟨-, -, rfl⟩ := h
    exact ⟨[], rfl, by simp⟩
  | cons b bs ih =>
    rw [moreDigits] at h
    split at h
    · rename_i hb
      split at h
      · obtain ⟨mid, hbs, hmid⟩ := ih h
        refine ⟨b :: mid, by rw [hbs]; rfl, ?_⟩
        simpa using ⟨isInner_of_hexDigit hb, hmid⟩
      · cases h
    · simp only [Except.ok.injEq, Prod.mk.injEq] at h
      obtain ⟨-, -, rfl⟩ := h
      exact ⟨[], rfl, by simp⟩

theorem zap_ok (n : Nat) (c : Cursor) :
    ∃ mid, c.rest = mid ++ (zap n c).rest ∧ ∀ b ∈ mid, isInner b = true := by
  induction n generalizing c with
  | zero => exact ⟨[], rfl, by simp⟩
  | succ n ih =>
    rw [zap]
    cases hrest : c.rest with
    | nil => exact ⟨[], by simp [hrest], by simp⟩
    | cons b bs =>
      dsimp only
      split
      · rename_i hb
        obtain ⟨mid, hmid, hin⟩ := ih ⟨c.line + 1, afterLineEnd b bs⟩
        have hb := isInner_of_space (isSpace_of_lineEnd hb)
        rcases afterLineEnd_cases b bs with hone | ⟨d, hd, -, htwo⟩
        · refine ⟨b :: mid, ?_, by simpa using ⟨hb, hin⟩⟩
          rw [List.cons_append, ← hmid]
          dsimp only
          rw [hone]
        · have hd := isInner_of_space (isSpace_of_lineEnd hd)
          refine ⟨b :: d :: mid, ?_, by simpa using ⟨hb, hd, hin⟩⟩
          rw [List.cons_append, List.cons_append, ← hmid]
          dsimp only
          rw [← htwo]
      · split
        · rename_i hb
          obtain ⟨mid, hmid, hin⟩ := ih ⟨c.line, bs⟩
          exact ⟨b :: mid, by rw [List.cons_append, ← hmid], by
            simpa using ⟨isInner_of_space hb, hin⟩⟩
        · exact ⟨[], by simp [hrest], by simp⟩

theorem escape_digits {b : UInt8} {bs : Bytes} (hb : isDigit b = true) :
    Escapes (b :: bs) ((b :: bs).drop (((b :: bs).take 3).takeWhile isDigit).length) := by
  have hdigit (x : UInt8) (hx : isDigit x = true) : isInner x = true :=
    isInner_of_hexDigit (by simp [isHexDigit, hx])
  rw [List.take_succ_cons, List.takeWhile_cons, if_pos hb, List.length_cons, List.drop_succ_cons]
  refine .inr ⟨b, (bs.take 2).takeWhile isDigit, ?_, fun x hx => ?_, fun _ => ?_⟩
  · have hsplit : (bs.take 2).takeWhile isDigit <+: bs :=
      (List.takeWhile_prefix isDigit).trans (List.take_prefix 2 bs)
    rw [List.prefix_iff_eq_append.mp hsplit]
  · exact hdigit x (List.all_eq_true.mp List.all_takeWhile x hx)
  · rintro rfl
    revert hb
    decide

theorem escape_lineEnd {b : UInt8} (bs : Bytes) (hb : isLineEnd b = true) :
    Escapes (b :: bs) (afterLineEnd b bs) := by
  rcases afterLineEnd_cases b bs with hone | ⟨d, hd, -, htwo⟩
  · rw [hone]
    exact .one b bs
  · refine .inr ⟨b, [d], by rw [List.singleton_append, ← htwo], ?_, fun _ => ?_⟩
    · simpa using isInner_of_space (isSpace_of_lineEnd hd)
    · rintro rfl
      revert hb
      decide

theorem escape_one {b : UInt8} {bs v out : Bytes} {line : Nat} {c' : Cursor}
    (h : (Except.ok (v, ⟨line, bs⟩) : Except SyntaxFault (Bytes × Cursor)) = .ok (out, c')) :
    Escapes (b :: bs) c'.rest := by
  simp only [Except.ok.injEq, Prod.mk.injEq] at h
  obtain ⟨-, rfl⟩ := h
  exact .one b bs

/-- Two hexadecimal digits. -/
theorem escape_hex {b : UInt8} {bs read out : Bytes} {line : Nat} {c' : Cursor}
    (hb : b ≠ byte '\\')
    (h : (do
      let (h, read, c) ← hexDigit read ⟨line, bs⟩
      let (l, _, c) ← hexDigit read c
      return ([UInt8.ofNat (16 * h + l)], c)) = Except.ok (out, c')) :
    Escapes (b :: bs) c'.rest := by
  obtain ⟨⟨v₁, read₁, c₁⟩, h₁, h⟩ := bind_ok h
  obtain ⟨⟨v₂, read₂, c₂⟩, h₂, h⟩ := bind_ok h
  obtain ⟨-, rfl⟩ := Prod.mk.inj (Except.ok.inj h)
  obtain ⟨x, hx, hxin⟩ := hexDigit_ok h₁
  obtain ⟨y, hy, hyin⟩ := hexDigit_ok h₂
  refine .inr ⟨b, [x, y], ?_, by simpa using ⟨hxin, hyin⟩, fun _ => hb⟩
  dsimp only at hx hy
  rw [hx, hy]
  rfl

/-- Hexadecimal digits between braces. -/
theorem escape_codePoint {b : UInt8} {inner read out : Bytes} {line : Nat} {c' : Cursor}
    (hb : b ≠ byte '\\')
    (h : (do
      let (h, read, c) ← hexDigit read ⟨line, inner⟩
      let (n, read, c) ← moreDigits h read c.line c.rest
      match c.rest with
      | e :: rest =>
        if e = byte '\x7d' then return (codePointBytes n, ⟨c.line, rest⟩)
        else throw (badEscape "missing '\x7d'" read c)
      | [] => throw (badEscape "missing '\x7d'" read c)) = Except.ok (out, c')) :
    Escapes (b :: byte '\x7b' :: inner) c'.rest := by
  obtain ⟨⟨v₁, read₁, c₁⟩, h₁, h⟩ := bind_ok h
  obtain ⟨⟨v₂, read₂, c₂⟩, h₂, h⟩ := bind_ok h
  dsimp only at h
  split at h
  · rename_i e rest hrest
    split at h
    · rename_i he
      obtain ⟨-, rfl⟩ := Prod.mk.inj (Except.ok.inj h)
      obtain ⟨x, hx, hxin⟩ := hexDigit_ok h₁
      obtain ⟨mid, hmid, hin⟩ := moreDigits_ok h₂
      refine .inr ⟨b, byte '\x7b' :: x :: (mid ++ [byte '\x7d']), ?_, fun y hy => ?_, fun _ => hb⟩
      · dsimp only at hx hmid
        rw [hx, hmid, hrest, he]
        simp
      · simp only [List.mem_cons, List.mem_append, List.not_mem_nil, or_false] at hy
        rcases hy with rfl | rfl | hy | rfl
        · decide
        · exact hxin
        · exact hin y hy
        · decide
    · cases h
  · cases h

theorem escape_ok {read out : Bytes} {c c' : Cursor} (h : escape read c = .ok (out, c')) :
    Escapes c.rest c'.rest := by
  unfold escape at h
  cases hrest : c.rest with
  | nil =>
    simp only [hrest, Except.ok.injEq, Prod.mk.injEq] at h
    exact .inl ⟨rfl, h.2 ▸ hrest⟩
  | cons b bs =>
    have hne {x : Char} (hx : Char.ofNat b.toNat = x) (h : x ≠ '\\') : b ≠ byte '\\' := by
      rintro rfl
      exact h (hx ▸ by decide)
    simp only [hrest] at h
    split at h
    · rename_i hb
      obtain ⟨-, rfl⟩ := Prod.mk.inj (Except.ok.inj h)
      exact escape_lineEnd bs hb
    · split at h
      · rename_i hb
        split at h
        · obtain ⟨-, rfl⟩ := Prod.mk.inj (Except.ok.inj h)
          exact escape_digits hb
        · cases h
      · split at h
        case h_11 heq =>
          obtain ⟨-, rfl⟩ := Prod.mk.inj (Except.ok.inj h)
          obtain ⟨mid, hmid, hin⟩ := zap_ok (bs.length + 1) ⟨c.line, bs⟩
          exact .inr ⟨b, mid, by rw [← hmid], hin, fun _ => hne heq (by decide)⟩
        case h_12 heq => exact escape_hex (hne heq (by decide)) h
        case h_13 heq =>
          split at h
          · split at h
            · rename_i ho
              rw [ho]
              exact escape_codePoint (hne heq (by decide)) h
            · cases h
          · cases h
        case h_14 => cases h
        all_goals exact escape_one h

theorem short_close {quote : UInt8} (bs : Bytes) (hq : IsQuote quote) :
    short quote (quote :: bs) = ⟨[], [quote], bs⟩ := by
  rw [short.eq_def]
  dsimp only
  rw [if_neg, if_pos rfl]
  rcases hq with rfl | rfl <;> decide

/-- What Lua and the rough lexemes make of a string in quotes that Lua accepts; `raw` stands between
the quotes, `read` was read before. -/
structure QuoteRead (quote : UInt8) (read : Bytes) (before raw after text : Bytes) : Prop where
  source : before = raw ++ quote :: after
  short : ∀ last, escapesBreaks last raw = true → short quote before = ⟨raw, raw ++ [quote], after⟩
  text : byte '\\' ∉ raw → text = read.reverse ++ raw ++ [quote]
  breaks : byte '\\' ∉ raw → ∀ b ∈ raw, isLineEnd b = false

namespace QuoteRead

variable {quote b e : UInt8} {read read' before raw after text mid : Bytes}

theorem close (read bs : Bytes) (hq : IsQuote quote) :
    QuoteRead quote read (quote :: bs) [] bs (quote :: read).reverse :=
  ⟨rfl, fun _ _ => short_close bs hq, by simp, by simp⟩

/-- An escape stays in the string. With it, nothing is said of the text. -/
theorem escape (hq : IsQuote quote) (hin : ∀ b ∈ mid, isInner b = true)
    (hlast : mid ≠ [] → e ≠ byte '\\') (h : QuoteRead quote read' before raw after text) :
    QuoteRead quote read (byte '\\' :: e :: (mid ++ before)) (byte '\\' :: e :: (mid ++ raw))
      after text := by
  refine ⟨?_, fun last hlf => ?_, by simp, by simp⟩
  · rw [h.source]
    simp
  · simp only [escapesBreaks, Bool.and_eq_true] at hlf
    obtain ⟨hfree, last', hlf'⟩ := escapesBreaks_append hlf.2.2 hin hlast
    rw [short_escape _ hq hin hfree, h.short last' hlf']
    simp

/-- Any other byte stands for itself. -/
theorem plain (hbq : b ≠ quote) (hend : isLineEnd b = false) (hb : b ≠ byte '\\')
    (h : QuoteRead quote (b :: read) before raw after text) :
    QuoteRead quote read (b :: before) (b :: raw) after text := by
  refine ⟨?_, fun last hlf => ?_, fun hr => ?_, fun hr x hx => ?_⟩
  · rw [List.cons_append, ← h.source]
  · simp only [escapesBreaks, Bool.and_eq_true] at hlf
    rw [short.eq_def]
    dsimp only
    have hbreak : b ≠ byte '\n' := by
      rintro rfl
      exact absurd hend (by decide)
    rw [if_neg hbreak, if_neg hbq, if_neg hb, h.short b hlf.2]
    rfl
  · rw [h.text fun hc => hr (List.mem_cons_of_mem _ hc)]
    simp
  · rcases List.mem_cons.mp hx with rfl | hx
    · exact hend
    · exact h.breaks (fun hc => hr (List.mem_cons_of_mem _ hc)) x hx

end QuoteRead

theorem string_ok {quote : UInt8} {n : Nat} {read text : Bytes} {c c' : Cursor}
    (hq : IsQuote quote) (h : string quote n read c = .ok (text, c')) :
    ∃ raw, QuoteRead quote read c.rest raw c'.rest text := by
  induction n generalizing read c with
  | zero => simp [string] at h
  | succ n ih =>
    rw [string] at h
    cases hrest : c.rest with
    | nil => simp [hrest] at h
    | cons b bs =>
      simp only [hrest] at h
      split at h
      · rename_i hb
        obtain ⟨rfl, rfl⟩ := Prod.mk.inj (Except.ok.inj h)
        subst hb
        exact ⟨[], .close read bs hq⟩
      rename_i hbq
      split at h
      · cases h
      rename_i hend
      split at h
      · rename_i hb
        subst hb
        obtain ⟨⟨out, c₁⟩, hesc, h⟩ := bind_ok h
        obtain ⟨raw, hraw⟩ := ih h
        rcases escape_ok hesc with ⟨-, hnil⟩ | ⟨e, mid, hmid, hin, hlast⟩
        · -- the text ends after a backslash, so the string is never closed
          have hsource := hraw.source
          rw [hnil] at hsource
          simp at hsource
        · dsimp only at hmid
          exact ⟨_, hmid ▸ hraw.escape hq hin hlast⟩
      · rename_i hb
        obtain ⟨raw, hraw⟩ := ih h
        exact ⟨b :: raw, hraw.plain hbq (by simpa using hend) hb⟩

end UnitCache.Lua
