import UnitCache.Lua.Grammar
import UnitCache.Proofs.LuaArguments

namespace UnitCache.Lua

open Lexeme Requirement

def requireToken : Token := .name requireName

/-- The calls of `require` among tokens: where each stands, and the name it is given. The nearest of
the pieces before comes first. -/
def callsFrom (before : List Piece) (offset : Nat) : List Piece → List (Nat × Option Bytes)
  | [] => []
  | p :: ps =>
    let start := offset + (Filler.bytes p.gap).length
    let later := callsFrom (p :: before) (start + p.source.length) ps
    if p.token = requireToken && !selects before then
      (start, (argument? ps).bind Argument.name?) :: later
    else later

def calls (text : Bytes) : List (Nat × Option Bytes) := callsFrom [] 0 (layout text).1

def Requirement.call (r : Requirement) : Nat × Option Bytes := (r.offset, r.target.name?)

/-- A `require` about which its surroundings do not mislead. -/
structure Legible (before : List Piece) (p : Piece) (after : List Piece) : Prop where
  selection : seemsSelected before p.gap = selects before
  argument : selects before = false → ∀ a, argument? after = some a → a.Plain

theorem among_unnamed {before : Bytes} {ls : List Lexeme} (more : List Lexeme)
    (h : ∀ l ∈ ls, l.kind ≠ .name) :
    among before (ls ++ more) = among ((ls.flatMap Lexeme.source).reverse ++ before) more := by
  induction ls generalizing before with
  | nil => rfl
  | cons l ls ih =>
    have hl := h l (List.mem_cons_self ..)
    rw [List.cons_append, among, if_neg (fun hc => hl hc.1),
      ih fun x hx => h x (List.mem_cons_of_mem _ hx)]
    simp

theorem filler_unnamed {l : Lexeme} (h : isFillerLexeme l) : l.kind ≠ .name := by
  rcases h with h | ⟨b, -, rfl⟩
  · simp [h]
  · simp [otherLexeme]

/-- A token that is no name is read as lexemes that are none. -/
theorem reads_unnamed {t : Token} {source : Bytes} {ls : List Lexeme} (h : t.Reads source ls)
    (hname : ∀ n, t ≠ .name n) (hkeyword : ∀ w, t ≠ .keyword w) : ∀ l ∈ ls, l.kind ≠ .name := by
  have hsigns (source : Bytes) : ∀ l ∈ source.map otherLexeme, l.kind ≠ .name := by
    intro l hl
    obtain ⟨b, -, rfl⟩ := List.mem_map.mp hl
    simp [otherLexeme]
  intro l hl
  cases t with
  | name n => exact absurd rfl (hname n)
  | keyword w => exact absurd rfl (hkeyword w)
  | string v =>
    obtain ⟨content, -, rfl⟩ := h
    rw [List.mem_singleton.mp hl]
    simp
  | number n =>
    rcases h.2 l hl with h | rfl | rfl | rfl
    · simp [h]
    · simp [otherLexeme]
    · simp [otherLexeme]
    · simp [otherLexeme]
  | sign s =>
    obtain rfl : ls = _ := h
    exact hsigns source l hl
  | stray b =>
    obtain rfl : ls = _ := h
    exact hsigns source l hl
  | eof => exact h.elim

theorem among_name {before source : Bytes} (more : List Lexeme) :
    (among before (⟨.name, source⟩ :: more)).map call =
      if source = requireName ∧ isMember before = false then
        (before.length, (targetOf more).name?) ::
          (among (source.reverse ++ before) more).map call
      else (among (source.reverse ++ before) more).map call := by
  rw [among]
  by_cases h : source = requireName ∧ isMember before = false
  · rw [if_pos h, if_pos (by simpa using h)]
    rfl
  · rw [if_neg h, if_neg (by simpa using h)]

/-- What the rough lexemes of a token add to the requirements. -/
theorem among_token {before after : Bytes} {p : Piece} {ls : List Lexeme} (hp : p.Sound)
    (hreads : p.token.Reads p.source ls) (hflat : ls.flatMap Lexeme.source = p.source) :
    (among before (ls ++ lexemes after)).map call =
      if p.token = requireToken ∧ isMember before = false then
        (before.length, (targetOf (lexemes after)).name?) ::
          (among (p.source.reverse ++ before) (lexemes after)).map call
      else (among (p.source.reverse ++ before) (lexemes after)).map call := by
  have hspells := hp.spells
  have hother (hname : ∀ n, p.token ≠ .name n) (hkeyword : ∀ w, p.token ≠ .keyword w) :
      (among before (ls ++ lexemes after)).map call =
        (among (p.source.reverse ++ before) (lexemes after)).map call := by
    rw [among_unnamed _ (reads_unnamed hreads hname hkeyword), hflat]
  cases htoken : p.token with
  | name n =>
    rw [htoken] at hreads hspells
    obtain rfl : ls = _ := hreads
    have hn : p.source = n := hspells.1
    rw [List.singleton_append, among_name]
    simp only [hn, requireToken, Token.name.injEq]
  | keyword w =>
    rw [htoken] at hreads hspells
    obtain rfl : ls = _ := hreads
    have hkeywords : ∀ w ∈ keywords, Utf8.encode w ≠ requireName := by decide +kernel
    have hne : p.source ≠ requireName := by
      rw [hspells.1]
      exact hkeywords w hspells.2.1
    rw [List.singleton_append, among_name, if_neg (fun h => hne h.1), if_neg]
    rintro ⟨h, -⟩
    cases h
  | string v => rw [hother (by simp [htoken]) (by simp [htoken]), if_neg (by simp [requireToken])]
  | number n => rw [hother (by simp [htoken]) (by simp [htoken]), if_neg (by simp [requireToken])]
  | sign s => rw [hother (by simp [htoken]) (by simp [htoken]), if_neg (by simp [requireToken])]
  | stray b => rw [hother (by simp [htoken]) (by simp [htoken]), if_neg (by simp [requireToken])]
  | eof => rw [hother (by simp [htoken]) (by simp [htoken]), if_neg (by simp [requireToken])]

theorem lexemes_flatMap_left {before after : Bytes} {ls : List Lexeme} (part : Bytes)
    (hlexemes : lexemes before = ls ++ lexemes after) (hbefore : before = part ++ after) :
    ls.flatMap Lexeme.source = part := by
  have hflat := flatMap_source_lexemes before
  rw [hlexemes, List.flatMap_append, flatMap_source_lexemes, hbefore] at hflat
  exact List.append_cancel_right hflat

/-- No requirement stands before the place where the search for it begins. -/
theorem le_offset {before : Bytes} {ls : List Lexeme} :
    ∀ e ∈ (among before ls).map call, before.length ≤ e.1 := by
  induction ls generalizing before with
  | nil => simp [among]
  | cons l ls ih =>
    have hlater : ∀ e ∈ (among (l.source.reverse ++ before) ls).map call, before.length ≤ e.1 := by
      intro e he
      have hle := ih e he
      simp only [List.length_append, List.length_reverse] at hle
      omega
    rw [among]
    split
    · intro e he
      rcases List.mem_cons.mp he with rfl | he
      · exact Nat.le_refl _
      · exact hlater e he
    · exact hlater

theorem le_callsFrom {before ps : List Piece} {offset : Nat} :
    ∀ e ∈ callsFrom before offset ps, offset ≤ e.1 := by
  induction ps generalizing before offset with
  | nil => simp [callsFrom]
  | cons p ps ih =>
    have hlater : ∀ e ∈ callsFrom (p :: before)
        (offset + (Filler.bytes p.gap).length + p.source.length) ps, offset ≤ e.1 := by
      intro e he
      have hle := ih e he
      omega
    rw [callsFrom]
    split
    · intro e he
      rcases List.mem_cons.mp he with rfl | he
      · exact Nat.le_add_right _ _
      · exact hlater e he
    · exact hlater

/-- What holds at each place of a list holds at its first place and at the places after it. -/
theorem forall_split_cons {p : Piece} {ps before : List Piece}
    {P : List Piece → Piece → List Piece → Prop} :
    (∀ front q after, p :: ps = front ++ q :: after → P (front.reverse ++ before) q after) ↔
      P before p ps ∧
        ∀ front q after, ps = front ++ q :: after → P (front.reverse ++ p :: before) q after := by
  refine ⟨fun h => ⟨h [] p ps rfl, fun front q after he => ?_⟩, fun ⟨hfirst, hlater⟩ => ?_⟩
  · simpa using h (p :: front) q after (by rw [he]; rfl)
  · intro front q after he
    cases front with
    | nil =>
      obtain ⟨rfl, rfl⟩ := List.cons.inj he
      exact hfirst
    | cons x front =>
      obtain ⟨rfl, htail⟩ := List.cons.inj he
      simpa using hlater front q after htail

/-- The look back and the look ahead from a `require`, with all that follows. -/
theorem entry_iff (before : List Piece) (p : Piece) {ps : List Piece} {start : Nat}
    {target : Option Bytes} {found later : List (Nat × Option Bytes)} (hfound : ∀ e ∈ found, start < e.1)
    (hlater : ∀ e ∈ later, start < e.1)
    (htarget : target = (argument? ps).bind Argument.name? ↔
      ∀ a, argument? ps = some a → a.Plain) :
    ((if seemsSelected before p.gap = false then (start, target) :: found else found) =
      if selects before = false then (start, (argument? ps).bind Argument.name?) :: later
      else later) ↔ Legible before p ps ∧ found = later := by
  have hmissed (e : Nat × Option Bytes) (l l' : List (Nat × Option Bytes))
      (hl : ∀ x ∈ l', e.1 < x.1) : e :: l ≠ l' := by
    rintro rfl
    exact Nat.lt_irrefl _ (hl e (List.mem_cons_self ..))
  cases hselects : selects before with
  | true =>
    cases hseems : seemsSelected before p.gap with
    | true =>
      have hlegible : Legible before p ps :=
        ⟨by rw [hselects, hseems], fun h => by rw [hselects] at h; cases h⟩
      simp [hlegible]
    | false =>
      have hno : ¬Legible before p ps := by
        intro h
        have hsame := h.selection
        rw [hselects, hseems] at hsame
        cases hsame
      simp [hno, hmissed (start, target) found later hlater]
  | false =>
    cases hseems : seemsSelected before p.gap with
    | true =>
      have hno : ¬Legible before p ps := by
        intro h
        have hsame := h.selection
        rw [hselects, hseems] at hsame
        cases hsame
      simp [hno, (hmissed (start, (argument? ps).bind Argument.name?) later found hfound).symm]
    | false =>
      have hlegible : Legible before p ps ↔ target = (argument? ps).bind Argument.name? := by
        rw [htarget]
        exact ⟨fun h => h.argument hselects, fun h => ⟨by rw [hselects, hseems], fun _ => h⟩⟩
      simp [hlegible]

theorem target_iff {text : Bytes} {ps : List Piece} {last : List Filler} (h : Aligns text ps last)
    (htext : IsTextEnd text) :
    (targetOf (lexemes text)).name? = (argument? ps).bind Argument.name? ↔
      ∀ a, argument? ps = some a → a.Plain := by
  rw [targetOf_name? h htext]
  cases ha : argument? ps with
  | none => simp
  | some a => simpa using taken?_eq_iff (argument?_spells h ha)

theorem bytesBefore_cons (p : Piece) (before : List Piece) : bytesBefore (p :: before) =
    p.source.reverse ++ ((Filler.bytes p.gap).reverse ++ bytesBefore before) := by
  simp [bytesBefore, Piece.bytes]

theorem length_bytesBefore_cons (p : Piece) (before : List Piece) :
    (bytesBefore (p :: before)).length =
      (bytesBefore before).length + (Filler.bytes p.gap).length + p.source.length := by
  rw [bytesBefore_cons]
  simp only [List.length_append, List.length_reverse]
  omega

/-- What the rough lexemes of a gap and of the token after it add to the requirements. -/
theorem among_piece {text start after : Bytes} {before : List Piece} {p : Piece}
    {gapLexemes ls : List Lexeme} (hbefore : ∀ q ∈ before, q.Sound)
    (htext : text = Filler.bytes p.gap ++ start) (hstart : start = p.source ++ after)
    (hsound : p.Sound)
    (hhead : ∀ b, (Filler.bytes p.gap).head? = some b → isSpace b = true ∨ b = byte '-')
    (hgap : GapRead p.gap text start gapLexemes) (hlexemes : lexemes start = ls ++ lexemes after)
    (hreads : p.token.Reads p.source ls) :
    (among (bytesBefore before) (lexemes text)).map call =
      if p.token = requireToken ∧ seemsSelected before p.gap = false then
        ((bytesBefore before).length + (Filler.bytes p.gap).length,
            (targetOf (lexemes after)).name?) ::
          (among (bytesBefore (p :: before)) (lexemes after)).map call
      else (among (bytesBefore (p :: before)) (lexemes after)).map call := by
  have hgapFlat := lexemes_flatMap_left _ hgap.lexemes htext
  have hflat := lexemes_flatMap_left _ hlexemes hstart
  have hlength : ((Filler.bytes p.gap).reverse ++ bytesBefore before).length =
      (bytesBefore before).length + (Filler.bytes p.gap).length := by
    simp only [List.length_append, List.length_reverse]
    omega
  rw [hgap.lexemes, among_unnamed _ fun l hl => filler_unnamed (hgap.fillers l hl), hgapFlat,
    hlexemes, among_token hsound hreads hflat, ← bytesBefore_cons, isMember_eq hhead hbefore,
    hlength]

/-- From any place between two tokens on, the rough lexemes show the calls that the tokens do just
when every `require` there is legible. -/
theorem map_call_eq_iff {text : Bytes} {ps : List Piece} {last : List Filler}
    (h : Aligns text ps last) {before : List Piece} (hbefore : ∀ q ∈ before, q.Sound)
    (htext : IsTextEnd text) :
    (among (bytesBefore before) (lexemes text)).map call =
        callsFrom before (bytesBefore before).length ps ↔
      ∀ front p after, ps = front ++ p :: after → p.token = requireToken →
        Legible (front.reverse ++ before) p after := by
  induction h generalizing before with
  | @done text gap ls hgap =>
    have hnone : among (bytesBefore before) (lexemes text) = [] := by
      rw [hgap.lexemes, among_unnamed _ fun l hl => filler_unnamed (hgap.fillers l hl), lexemes,
        among]
    simp [hnone, callsFrom]
  | @token text start after last p ps gapLexemes ls htext' hstart hsound hhead hgap hlexemes hreads
      hafter ih =>
    have hafterText : IsTextEnd after := by
      rw [htext', hstart] at htext
      exact htext.after.after
    have hsounds : ∀ q ∈ p :: before, q.Sound := by
      intro q hq
      rcases List.mem_cons.mp hq with rfl | hq
      · exact hsound
      · exact hbefore q hq
    have hlength := length_bytesBefore_cons p before
    have hpos := List.length_pos_iff.mpr hsound.spells.ne_nil
    rw [forall_split_cons (P := fun before p after => p.token = requireToken →
      Legible before p after), ← ih hsounds hafterText,
      among_piece hbefore htext' hstart hsound hhead hgap hlexemes hreads, callsFrom, ← hlength]
    by_cases hrequire : p.token = requireToken
    · have hfound : ∀ e ∈ (among (bytesBefore (p :: before)) (lexemes after)).map call,
          (bytesBefore before).length + (Filler.bytes p.gap).length < e.1 := by
        intro e he
        have hle := le_offset e he
        omega
      have hcalls : ∀ e ∈ callsFrom (p :: before) (bytesBefore (p :: before)).length ps,
          (bytesBefore before).length + (Filler.bytes p.gap).length < e.1 := by
        intro e he
        have hle := le_callsFrom e he
        omega
      have hentry := entry_iff before p hfound hcalls (target_iff hafter hafterText)
      simpa [hrequire] using hentry
    · simp [hrequire]

/-- On a text that Lua reads, its layout is that of its tokens. If comments end at line feeds and
strings in quotes go on over line feeds only right after backslashes, the requirements that the
rough lexemes show are the calls that the tokens show just when every `require` is legible. -/
theorem requirements_agree_iff {text : String} {tree : Function}
    (hparse : parse (Utf8.encode text) = .ok tree)
    (haligned : Aligned (layout (Utf8.encode text)).1 (layout (Utf8.encode text)).2) :
    (tokens (Utf8.encode text)).1.map Token.Found.token =
        (layout (Utf8.encode text)).1.map Piece.token ++ [.eof] ∧
      ((requirements (Utf8.encode text)).map call = calls (Utf8.encode text) ↔
        ∀ before p after, (layout (Utf8.encode text)).1 = before ++ p :: after →
          p.token = requireToken → Legible before.reverse p after) := by
  have hfault : (tokens (Utf8.encode text)).2 = none := by
    unfold parse at hparse
    dsimp only at hparse
    split at hparse
    · cases hparse
    · split at hparse
      · cases hparse
      · rename_i hnone
        exact hnone
  obtain ⟨hlays, htokens⟩ := layoutFrom_lays hfault (Nat.lt_add_one _)
  refine ⟨htokens, ?_⟩
  have haligns := hlays.aligns haligned
  have hnone : ∀ q ∈ ([] : List Piece), q.Sound := by simp
  have hiff := map_call_eq_iff haligns hnone ⟨text, [], rfl⟩
  simpa [bytesBefore, requirements, calls, layout] using hiff

theorem parse_isOk (text : Bytes) (h : (parse text).isOk = true) :
    ∃ tree, parse text = .ok tree := by
  cases hparse : parse text with
  | error f =>
    rw [hparse] at h
    cases h
  | ok tree => exact ⟨tree, rfl⟩

/-- A comment that ends in a dot hides the `require` after it. -/
theorem requirements_agree_iff_comment :
    ∃ (text : String) (tree : Function), text = "-- see lib.\nrequire('x')" ∧
      parse (Utf8.encode text) = .ok tree ∧
      Aligned (layout (Utf8.encode text)).1 (layout (Utf8.encode text)).2 ∧
      (requirements (Utf8.encode text)).map call = [] ∧
      calls (Utf8.encode text) = [(12, some [byte 'x'])] ∧
      ¬∀ before p after, (layout (Utf8.encode text)).1 = before ++ p :: after →
        p.token = requireToken → Legible before.reverse p after := by
  obtain ⟨tree, htree⟩ := parse_isOk (Utf8.encode "-- see lib.\nrequire('x')")
    (by decide +kernel)
  have haligned : Aligned (layout (Utf8.encode "-- see lib.\nrequire('x')")).1
      (layout (Utf8.encode "-- see lib.\nrequire('x')")).2 :=
    ⟨by decide +kernel, by decide +kernel, by decide +kernel⟩
  have hfound : (requirements (Utf8.encode "-- see lib.\nrequire('x')")).map call = [] := by
    decide +kernel
  have hcalls : calls (Utf8.encode "-- see lib.\nrequire('x')") = [(12, some [byte 'x'])] := by
    decide +kernel
  refine ⟨_, tree, rfl, htree, haligned, hfound, hcalls, fun hlegible => ?_⟩
  have hagree := (requirements_agree_iff htree haligned).2.mpr hlegible
  rw [hfound, hcalls] at hagree
  cases hagree

/-- Without alignment the rough lexemes can lose a call, or find one in a string. -/
example : (parse (Utf8.encode "--\rrequire 'x'")).isOk = true ∧
    (requirements (Utf8.encode "--\rrequire 'x'")).map call = [] ∧
    calls (Utf8.encode "--\rrequire 'x'") = [(3, some [byte 'x'])] ∧
    (parse (Utf8.encode "return '\\z\nrequire'")).isOk = true ∧
    (requirements (Utf8.encode "return '\\z\nrequire'")).map call = [(11, none)] ∧
    calls (Utf8.encode "return '\\z\nrequire'") = [] := by decide +kernel

end UnitCache.Lua
