import UnitCache.Proofs.LuaTokens

namespace UnitCache.Lua

open Lexeme Lexer

inductive Filler where
  | blank (b : UInt8)
  /-- A comment up to the end of its line; `body` follows the dashes. -/
  | line (body : Bytes)
  /-- A comment in long brackets. -/
  | long (body : Bytes)
  deriving DecidableEq, Repr

def Filler.source : Filler → Bytes
  | .blank b => [b]
  | .line body => byte '-' :: byte '-' :: body
  | .long body => byte '-' :: byte '-' :: body

def Filler.bytes (gap : List Filler) : Bytes := gap.flatMap Filler.source

def bracketed? : Bytes → Option Lexeme.Read
  | [] => none
  | b :: bs =>
    if b = byte '[' then (long? bs).map fun r => { r with source := b :: r.source } else none

def fillers : Nat → Bytes → List Filler × Bytes
  | 0, bs => ([], bs)
  | _ + 1, [] => ([], [])
  | steps + 1, b :: bs =>
    if isSpace b then
      let r := fillers steps bs
      (.blank b :: r.1, r.2)
    else if b = byte '-' && bs.head? = some (byte '-') then
      match bracketed? bs.tail with
      | some read =>
        let r := fillers steps read.rest
        (.long read.source :: r.1, r.2)
      | none =>
        let r := fillers steps (bs.tail.dropWhile fun b => !isLineEnd b)
        (.line (bs.tail.takeWhile fun b => !isLineEnd b) :: r.1, r.2)
    else ([], b :: bs)

/-- A token, the blanks and comments before it, and the bytes it stands on. -/
structure Piece where
  gap : List Filler
  token : Token
  source : Bytes
  deriving DecidableEq, Repr

def Piece.bytes (p : Piece) : Bytes := Filler.bytes p.gap ++ p.source

def layoutFrom : Nat → Cursor → List Piece × List Filler
  | 0, _ => ([], [])
  | steps + 1, c =>
    let gap := (fillers (c.rest.length + 1) c.rest).1
    match skip (c.rest.length + 1) c with
    | .error _ => ([], gap)
    | .ok c =>
      match c.rest with
      | [] => ([], gap)
      | b :: bs =>
        match token b bs c.line with
        | .error _ => ([], gap)
        | .ok (t, _, after) =>
          let later := layoutFrom steps after
          (⟨gap, t, (b :: bs).take ((b :: bs).length - after.rest.length)⟩ :: later.1, later.2)

/-- The tokens of a text with all that stands between them, and what stands after the last one. A
text that is at fault is laid out up to its fault. -/
def layout (text : Bytes) : List Piece × List Filler := layoutFrom (text.length + 1) ⟨1, text⟩

theorem bracketed?_source {bs : Bytes} {r : Lexeme.Read} (h : bracketed? bs = some r) :
    r.source ++ r.rest = bs := by
  cases bs with
  | nil => cases h
  | cons b bs =>
    rw [bracketed?] at h
    split at h
    · obtain ⟨r', hr, rfl⟩ := Option.map_eq_some_iff.mp h
      rw [List.cons_append, long?_source hr]
    · cases h

theorem dashes_eq {b : UInt8} {bs : Bytes}
    (h : (b = byte '-' && bs.head? = some (byte '-')) = true) :
    b :: bs = byte '-' :: byte '-' :: bs.tail := by
  simp only [Bool.and_eq_true, decide_eq_true_eq] at h
  obtain ⟨rfl, hbs⟩ := h
  cases bs with
  | nil => cases hbs
  | cons c bs =>
    obtain rfl := Option.some.inj hbs
    rfl

theorem fillers_source (n : Nat) (bs : Bytes) :
    Filler.bytes (fillers n bs).1 ++ (fillers n bs).2 = bs := by
  fun_induction fillers n bs with
  | case1 => rfl
  | case2 => rfl
  | case3 _ b bs _ _ ih => simpa [Filler.bytes, Filler.source] using ih
  | case4 _ b bs _ hdash read hread _ ih =>
    rw [dashes_eq hdash, ← bracketed?_source hread]
    simpa [Filler.bytes, Filler.source] using ih
  | case5 _ b bs _ hdash _ _ ih =>
    rw [dashes_eq hdash]
    simp only [Filler.bytes, List.flatMap_cons, Filler.source, List.cons_append, List.append_assoc]
      at ih ⊢
    rw [ih, List.takeWhile_append_dropWhile]
  | case6 => rfl

def Stops (bs : Bytes) : Prop :=
  (∀ b, bs.head? = some b → isSpace b = false) ∧
    (bs.head? = some (byte '-') → bs.tail.head? ≠ some (byte '-'))

theorem bracketed?_of_longBracket {what : String} {level line : Nat} {inner s : Bytes} {c : Cursor}
    (hlevel : level? inner = some level)
    (h : longBracket what level ⟨line, inner.drop (level + 1)⟩ = .ok (s, c)) :
    ∃ r, bracketed? (byte '[' :: inner) = some r ∧ r.rest = c.rest := by
  obtain ⟨content, hbody, -⟩ := longBracket_ok h
  dsimp only at hbody
  refine ⟨⟨content, byte '[' :: (inner.take (level + 1) ++ (content ++ closing level)), c.rest⟩,
    ?_, rfl⟩
  rw [bracketed?, if_pos rfl, long?, hlevel, Option.map_some, Option.map_some, hbody]

theorem bracketed?_eq_none {o : UInt8} {inner : Bytes}
    (h : (if o = byte '[' then level? inner else none) = none) :
    bracketed? (o :: inner) = none := by
  rw [bracketed?]
  split
  · rename_i ho
    rw [if_pos ho] at h
    rw [long?, h]
    rfl
  · rfl

theorem length_rest_lt {r : Lexeme.Read} {b : UInt8} {bs : Bytes}
    (h : bracketed? bs.tail = some r) : r.rest.length < (b :: bs).length := by
  have hlen := congrArg List.length (bracketed?_source h)
  simp only [List.length_append, List.length_tail, List.length_cons] at hlen ⊢
  omega

theorem length_dropWhile_lt (p : UInt8 → Bool) (b : UInt8) (bs : Bytes) :
    (bs.tail.dropWhile p).length < (b :: bs).length := by
  have hlen := (List.dropWhile_suffix p (l := bs.tail)).length_le
  simp only [List.length_tail, List.length_cons] at hlen ⊢
  omega

theorem length_afterLineEnd_le (b : UInt8) (bs : Bytes) :
    (afterLineEnd b bs).length ≤ bs.length := by
  rcases afterLineEnd_cases b bs with hone | ⟨c, -, -, htwo⟩
  · exact Nat.le_of_eq (congrArg List.length hone)
  · have hlength := congrArg List.length htwo
    rw [List.length_cons] at hlength
    omega

theorem fillers_lineEnd {b : UInt8} {bs : Bytes} {m : Nat} (hb : isLineEnd b = true)
    (hm : (b :: bs).length < m) :
    ∃ k, (afterLineEnd b bs).length < k ∧
      (fillers m (b :: bs)).2 = (fillers k (afterLineEnd b bs)).2 := by
  cases m with
  | zero => omega
  | succ m =>
    have hfirst : (fillers (m + 1) (b :: bs)).2 = (fillers m bs).2 := by
      rw [fillers, if_pos (isSpace_of_lineEnd hb)]
    simp only [List.length_cons] at hm
    rcases afterLineEnd_cases b bs with hone | ⟨c, hc, -, htwo⟩
    · rw [hone]
      exact ⟨m, by omega, hfirst⟩
    · cases m with
      | zero => omega
      | succ m =>
        refine ⟨m, ?_, ?_⟩
        · have hlen := congrArg List.length htwo
          simp only [List.length_cons] at hlen
          omega
        · rw [hfirst]
          conv => lhs; rw [htwo]
          rw [fillers, if_pos (isSpace_of_lineEnd hc)]

inductive SkipStep (n : Nat) (c c' : Cursor) : Prop where
  | finish (hrest : c.rest = []) (h : c = c')
  | lineEnd (b : UInt8) (bs : Bytes) (hrest : c.rest = b :: bs) (hb : isLineEnd b = true)
      (h : skip n ⟨c.line + 1, afterLineEnd b bs⟩ = .ok c')
  | blank (b : UInt8) (bs : Bytes) (hrest : c.rest = b :: bs) (hb : isSpace b = true)
      (h : skip n ⟨c.line, bs⟩ = .ok c')
  | long (b : UInt8) (bs : Bytes) (hrest : c.rest = b :: bs) (hb : isSpace b = false)
      (hdash : (b = byte '-' && bs.head? = some (byte '-')) = true) (r : Lexeme.Read)
      (next : Cursor)
      (hr : bracketed? bs.tail = some r) (hnext : r.rest = next.rest) (h : skip n next = .ok c')
  | line (b : UInt8) (bs : Bytes) (hrest : c.rest = b :: bs) (hb : isSpace b = false)
      (hdash : (b = byte '-' && bs.head? = some (byte '-')) = true)
      (hr : bracketed? bs.tail = none)
      (h : skip n ⟨c.line, bs.tail.dropWhile fun b => !isLineEnd b⟩ = .ok c')
  | stop (b : UInt8) (bs : Bytes) (hrest : c.rest = b :: bs) (hb : isSpace b = false)
      (hdash : ¬(b = byte '-' && bs.head? = some (byte '-')) = true) (h : c = c')

theorem skip_cases {n : Nat} {c c' : Cursor} (h : skip (n + 1) c = .ok c') : SkipStep n c c' := by
  rw [skip] at h
  cases hrest : c.rest with
  | nil =>
    simp only [hrest, Except.ok.injEq] at h
    exact .finish hrest h
  | cons b bs =>
    simp only [hrest] at h
    split at h
    · rename_i hb
      exact .lineEnd b bs hrest hb h
    · split at h
      · rename_i hb
        exact .blank b bs hrest hb h
      · rename_i hb
        have hb : isSpace b = false := by simpa using hb
        split at h
        · rename_i hdash
          split at h
          · rename_i o inner htail
            split at h
            · rename_i level hlevel
              obtain ⟨⟨s, next⟩, hlong, h⟩ := bind_ok h
              split at hlevel
              · rename_i ho
                obtain ⟨r, hr, hnext⟩ := bracketed?_of_longBracket hlevel hlong
                rw [← ho, ← htail] at hr
                exact .long b bs hrest hb hdash r next hr hnext h
              · cases hlevel
            · rename_i hlevel
              exact .line b bs hrest hb hdash (by rw [htail]; exact bracketed?_eq_none hlevel) h
          · rename_i htail
            exact .line b bs hrest hb hdash (by rw [htail]; rfl) h
        · rename_i hdash
          exact .stop b bs hrest hb hdash (Except.ok.inj h)

/-- Lua skips the blanks and comments. -/
theorem skip_ok {n m : Nat} {c c' : Cursor} (h : skip n c = .ok c') (hn : c.rest.length < n)
    (hm : c.rest.length < m) : (fillers m c.rest).2 = c'.rest ∧ Stops c'.rest := by
  induction n generalizing c m with
  | zero => omega
  | succ n ih =>
    cases m with
    | zero => omega
    | succ m =>
      cases skip_cases h with
      | finish hrest hc =>
        rw [← hc, hrest]
        exact ⟨rfl, by simp [Stops]⟩
      | lineEnd b bs hrest hb h =>
        rw [hrest] at hn hm ⊢
        obtain ⟨k, hk, hsame⟩ := fillers_lineEnd hb hm
        have hle := length_afterLineEnd_le b bs
        rw [hsame]
        rw [List.length_cons] at hn
        exact ih h (by dsimp only; omega) hk
      | blank b bs hrest hb h =>
        rw [hrest] at hn hm ⊢
        rw [List.length_cons] at hn hm
        rw [fillers, if_pos hb]
        exact ih h (by dsimp only; omega) (by dsimp only; omega)
      | long b bs hrest hb hdash r next hr hnext h =>
        rw [hrest] at hn hm ⊢
        have hlt := length_rest_lt (b := b) hr
        rw [hnext] at hlt
        rw [fillers, if_neg (by simp [hb]), if_pos hdash, hr]
        dsimp only
        rw [hnext]
        exact ih h (by omega) (by omega)
      | line b bs hrest hb hdash hr h =>
        rw [hrest] at hn hm ⊢
        have hlt := length_dropWhile_lt (fun b => !isLineEnd b) b bs
        rw [fillers, if_neg (by simp [hb]), if_pos hdash, hr]
        exact ih h (by dsimp only; omega) (by dsimp only; omega)
      | stop b bs hrest hb hdash hc =>
        rw [← hc, hrest, fillers, if_neg (by simp [hb]), if_neg hdash]
        refine ⟨rfl, fun x hx => ?_, fun hx hy => ?_⟩
        · obtain rfl := Option.some.inj hx
          exact hb
        · simp only [List.head?_cons, Option.some.injEq, List.tail_cons] at hx hy
          exact hdash (by simp [hx, hy])

/-- How a text is laid out: blanks and comments before each token, then the bytes of the token,
which are rough lexemes of their own. -/
inductive Lays : Bytes → List Piece → List Filler → Prop where
  | done {text : Bytes} {gap : List Filler} (hgap : fillers (text.length + 1) text = (gap, [])) :
      Lays text [] gap
  | token {text before after source : Bytes} {gap last : List Filler} {t : Token} {ps : List Piece}
      (hgap : fillers (text.length + 1) text = (gap, before)) (hstops : Stops before)
      (hsource : before = source ++ after) (hspells : t.Spells source)
      (hreads : t.escapesBreaks source = true →
        ∃ ls, lexemes before = ls ++ lexemes after ∧ t.Reads source ls)
      (hafter : Lays after ps last) : Lays text (⟨gap, t, source⟩ :: ps) last

theorem Written.ne_nil {source content : Bytes} (h : Written source content) : source ≠ [] := by
  cases h <;> simp

theorem Token.Spells.ne_nil {t : Token} {source : Bytes} (h : t.Spells source) : source ≠ [] := by
  cases t with
  | name n => exact h.2.1
  | keyword w => exact h.2.2.1
  | string v =>
    obtain ⟨content, hw, -⟩ := h
    exact hw.ne_nil
  | number n =>
    obtain ⟨front, last, rfl, ⟨b, rfl, -⟩ | ⟨b, rfl, -⟩⟩ := IsNumeral.ends h <;> simp
  | sign s => exact h.2.1
  | stray b =>
    rw [h.1]
    simp
  | eof => exact h.elim

/-- A text without a fault is laid out whole, and the tokens of its layout are its tokens. -/
theorem layoutFrom_lays {n : Nat} {c : Cursor} (hfault : (tokensFrom n c).2 = none)
    (hn : c.rest.length < n) : Lays c.rest (layoutFrom n c).1 (layoutFrom n c).2 ∧
      (tokensFrom n c).1.map Token.Found.token =
        (layoutFrom n c).1.map Piece.token ++ [Token.eof] := by
  induction n generalizing c with
  | zero => omega
  | succ n ih =>
    rw [tokensFrom] at hfault ⊢
    rw [layoutFrom]
    have hfillers := fillers_source (c.rest.length + 1) c.rest
    cases hskip : skip (c.rest.length + 1) c with
    | error f =>
      rw [hskip] at hfault
      cases hfault
    | ok c₁ =>
      obtain ⟨hrest, hstops⟩ := skip_ok hskip (Nat.lt_add_one _) (Nat.lt_add_one _)
      rw [hrest] at hfillers
      simp only [hskip] at hfault ⊢
      cases hc : c₁.rest with
      | nil =>
        rw [hc] at hrest
        exact ⟨.done (Prod.ext rfl hrest), by simp⟩
      | cons b bs =>
        simp only [hc] at hfault ⊢
        cases htoken : token b bs c₁.line with
        | error f =>
          rw [htoken] at hfault
          cases hfault
        | ok found =>
          obtain ⟨t, text, after⟩ := found
          simp only [htoken] at hfault ⊢
          rw [hc] at hstops hrest hfillers
          have hdash : b = byte '-' → bs.head? ≠ some (byte '-') := fun hb =>
            hstops.2 (by rw [hb]; rfl)
          obtain ⟨source, hsource, hspells, hreads⟩ := token_cuts htoken hdash
          have hlen := congrArg List.length hsource
          have hpos := List.length_pos_iff.mpr hspells.ne_nil
          have hall := congrArg List.length hfillers
          rw [List.length_append] at hlen hall
          have htake : (b :: bs).take ((b :: bs).length - after.rest.length) = source := by
            rw [hlen, Nat.add_sub_cancel, hsource, List.take_left]
          obtain ⟨hlays, htokens⟩ := ih hfault (by omega)
          have hgap : fillers (c.rest.length + 1) c.rest =
              ((fillers (c.rest.length + 1) c.rest).1, b :: bs) := Prod.ext rfl hrest
          rw [htake]
          exact ⟨.token hgap hstops hsource hspells hreads hlays, by simp [htokens]⟩

end UnitCache.Lua
