import Mathlib.Data.List.Infix
import Mathlib.Data.List.TakeWhile
import UnitCache.Proofs.LuaOrigins

namespace UnitCache.Lua.Location

variable {cs ds before rest : List Char} {n : Nat} {x : Char}

structure LineNumber (ds : List Char) : Prop where
  ne_nil : ds ≠ []
  digits : ∀ d ∈ ds, d.isDigit = true
  fits : Nat.ofDigitChars 10 ds 0 < 2 ^ 32

theorem LineNumber.ofNat (hn : n < 2 ^ 32) : LineNumber (Nat.toDigits 10 n) where
  ne_nil := Nat.toDigits_ne_nil
  digits _ hd := Nat.isDigit_of_mem_toDigits (by decide) (by decide) hd
  fits := by rwa [Nat.ofDigitChars_ten_toDigits]

theorem LineNumber.no_colon (h : LineNumber ds) : ':' ∉ ds := fun hc =>
  absurd (h.digits ':' hc) (by decide)

/-- A text has a line number between two colons. -/
def Marked (cs : List Char) : Prop := ∃ ds, LineNumber ds ∧ ':' :: ds ++ [':'] <:+: cs

theorem Marked.mono (h : Marked cs) (hcs : cs <:+: ds) : Marked ds := by
  obtain ⟨number, hn, hi⟩ := h
  exact ⟨number, hn, hi.trans hcs⟩

theorem line?_eq_some_iff :
    line? cs = some (n, rest) ↔
      ∃ ds, LineNumber ds ∧ cs = ds ++ ':' :: rest ∧ Nat.ofDigitChars 10 ds 0 = n := by
  constructor
  · intro h
    unfold line? at h
    dsimp only at h
    split at h
    · rename_i tail hdrop
      split at h
      · rename_i hnumber
        obtain ⟨rfl, rfl⟩ := Prod.mk.inj (Option.some.inj h)
        simp only [Bool.and_eq_true, decide_eq_true_eq] at hnumber
        refine ⟨cs.takeWhile Char.isDigit, ⟨hnumber.1, fun d hd => List.mem_takeWhile_imp hd, hnumber.2⟩, ?_, rfl⟩
        rw [← hdrop, List.takeWhile_append_dropWhile]
      · cases h
    · cases h
  · rintro ⟨ds, hds, rfl, rfl⟩
    have htake : (ds ++ ':' :: rest).takeWhile Char.isDigit = ds := by
      rw [List.takeWhile_append_of_pos hds.digits, List.takeWhile_cons_of_neg (by decide), List.append_nil]
    have hdrop : (ds ++ ':' :: rest).dropWhile Char.isDigit = ':' :: rest := by
      rw [List.dropWhile_append_of_pos hds.digits, List.dropWhile_cons_of_neg (by decide)]
    unfold line?
    simp only [htake, hdrop]
    refine if_pos ?_
    rw [Bool.and_eq_true, decide_eq_true_eq, decide_eq_true_eq]
    exact ⟨hds.ne_nil, hds.fits⟩

/-- Digits that a colon ends are read up to that colon, whatever follows. -/
theorem prefix_of_digits {tail : List Char} (hd : ':' ∉ ds)
    (h : before ++ ':' :: tail = ds ++ ':' :: rest) : ds ++ [':'] <+: before ++ [':'] := by
  have hbefore : before ++ [':'] <+: ds ++ ':' :: rest := ⟨tail, by rw [← h]; simp⟩
  have hdigits : ds ++ [':'] <+: ds ++ ':' :: rest := ⟨rest, by simp⟩
  rcases List.prefix_or_prefix_of_prefix hdigits hbefore with hp | hp
  · exact hp
  · rcases List.prefix_concat_iff.mp hp with he | hp
    · exact he ▸ List.prefix_rfl
    · exact absurd (hp.subset List.mem_concat_self) hd

/-- The first number between colons is found. -/
theorem find?_first (hb : ¬Marked (before ++ [':'])) (hd : LineNumber ds) :
    find? (before ++ ':' :: (ds ++ ':' :: rest)) = some (Nat.ofDigitChars 10 ds 0, rest) := by
  induction before with
  | nil =>
    have hline : line? (ds ++ ':' :: rest) = _ := line?_eq_some_iff.mpr ⟨ds, hd, rfl, rfl⟩
    rw [List.nil_append, find?, if_pos rfl, hline]
  | cons c before ih =>
    have hlater := ih fun h => hb (h.mono (List.suffix_cons c _).isInfix)
    rw [List.cons_append, find?]
    split
    · rename_i hc
      subst hc
      cases hl : line? (before ++ ':' :: (ds ++ ':' :: rest)) with
      | none => exact hlater
      | some found =>
        obtain ⟨number, hn, hcut, -⟩ := line?_eq_some_iff.mp hl
        exact absurd ⟨number, hn, ((List.prefix_cons_inj ':').mpr (prefix_of_digits hn.no_colon hcut)).isInfix⟩ hb
    · exact hlater

/-- A text with line numbers between colons has a first one. -/
theorem Marked.exists_first (h : Marked cs) : ∃ before ds after, LineNumber ds ∧
    cs = before ++ ':' :: (ds ++ ':' :: after) ∧ ¬Marked (before ++ [':']) := by
  -- By induction on the length: a number that is not the first one has one before it.
  induction hl : cs.length using Nat.strongRecOn generalizing cs with
  | _ length ih =>
    obtain ⟨ds, hd, before, after, rfl⟩ := h
    by_cases hb : Marked (before ++ [':'])
    · have hshort : (before ++ [':']).length < length := by
        rw [← hl]
        simp only [List.length_append, List.length_cons]
        omega
      obtain ⟨first, ds', after', hd', he, hfirst⟩ := ih _ hshort hb rfl
      refine ⟨first, ds', after' ++ (ds ++ ':' :: after), hd', ?_, hfirst⟩
      have hall := congrArg (· ++ (ds ++ ':' :: after)) he
      simpa using hall
    · exact ⟨before, ds, after, hd, by simp, hb⟩

theorem marked_iff : Marked cs ↔ (find? cs).isSome = true := by
  constructor
  · intro h
    obtain ⟨before, ds, after, hd, rfl, hb⟩ := h.exists_first
    rw [find?_first hb hd]
    rfl
  · intro h
    induction cs with
    | nil => cases h
    | cons c cs ih =>
      have hlater (h : (find? cs).isSome = true) : Marked (c :: cs) :=
        (ih h).mono (List.suffix_cons c cs).isInfix
      rw [find?] at h
      split at h
      · rename_i hc
        subst hc
        cases hline : line? cs with
        | none =>
          rw [hline] at h
          exact hlater h
        | some found =>
          obtain ⟨ds, hd, rfl, -⟩ := line?_eq_some_iff.mp hline
          exact ⟨ds, hd, List.prefix_iff_eq_append.mpr (by simp) |>.isInfix⟩
      · exact hlater h

instance (cs : List Char) : Decidable (Marked cs) := decidable_of_iff _ marked_iff.symm

theorem countP_trimLeft (cs : List Char) :
    (trimLeft cs).countP (!isBlank ·) = cs.countP (!isBlank ·) := by
  induction cs with
  | nil => rfl
  | cons c cs ih =>
    unfold trimLeft at ih ⊢
    by_cases hc : isBlank c = true
    · rw [List.dropWhile_cons_of_pos hc, ih, List.countP_cons_of_neg (by simp [hc])]
    · rw [List.dropWhile_cons_of_neg hc]

/-- What is taken off a text at its ends are blanks. -/
theorem countP_trimBlank (s : String) :
    (trimBlank s).toList.countP (!isBlank ·) = s.toList.countP (!isBlank ·) := by
  rw [trimBlank, String.toList_ofList, trimRight, ← trimLeft, List.countP_reverse, countP_trimLeft,
    List.countP_reverse, countP_trimLeft]

theorem split_of_first {s : String} (hs : s.toList = before ++ ':' :: (ds ++ ':' :: rest))
    (hb : ¬Marked (before ++ [':'])) (hd : LineNumber ds) :
    split s = (some (Nat.ofDigitChars 10 ds 0), trimBlank (String.ofList rest)) := by
  rw [split, hs, find?_first hb hd]

theorem toList_message (place m : String) (n : Nat) :
    (place ++ ":" ++ toString n ++ ": " ++ m).toList =
      place.toList ++ ':' :: (Nat.toDigits 10 n ++ ':' :: ' ' :: m.toList) := by
  simp

theorem trimBlank_cons (hx : isBlank x = true) (m : String) :
    trimBlank (String.ofList (x :: m.toList)) = trimBlank m := by
  rw [trimBlank, trimBlank, String.toList_ofList, trimLeft, List.dropWhile_cons_of_pos hx]
  rfl

/-- The line and the text of a message are told apart just when the place has no number that could
be taken for the line. -/
theorem split_eq_iff (place m : String) (hn : n < 2 ^ 32) :
    split (place ++ ":" ++ toString n ++ ": " ++ m) = (some n, trimBlank m) ↔
      ¬Marked (place ++ ":").toList := by
  have hplace : (place ++ ":").toList = place.toList ++ [':'] := by simp
  rw [hplace]
  constructor
  · intro hsplit hmarked
    obtain ⟨before, ds, after, hd, he, hb⟩ := hmarked.exists_first
    have hmessage : (place ++ ":" ++ toString n ++ ": " ++ m).toList =
        before ++ ':' :: (ds ++ ':' :: (after ++ (Nat.toDigits 10 n ++ ':' :: ' ' :: m.toList))) := by
      have hall := congrArg (· ++ (Nat.toDigits 10 n ++ ':' :: ' ' :: m.toList)) he
      rw [toList_message]
      simpa using hall
    rw [split_of_first hmessage hb hd] at hsplit
    -- What follows the first number has a colon more than the text of the message.
    have hcount := congrArg (fun s : String => s.toList.countP (!isBlank ·)) (Prod.mk.inj hsplit).2
    have hcolon : isBlank ':' = false := by decide
    simp only [countP_trimBlank, String.toList_ofList, List.countP_append, List.countP_cons, hcolon] at hcount
    simp at hcount
    omega
  · intro hb
    have hsplit := split_of_first (toList_message place m n) hb (LineNumber.ofNat hn)
    rw [hsplit, Nat.ofDigitChars_ten_toDigits, trimBlank_cons (by decide)]

/-- A character that is neither a digit nor a colon parts a text. -/
theorem marked_append_cons (hd : x.isDigit = false) (hc : x ≠ ':') {a b : List Char} :
    Marked (a ++ x :: b) ↔ Marked a ∨ Marked b := by
  constructor
  · rintro ⟨ds, hds, hi⟩
    have hx : x ∉ ':' :: ds ++ [':'] := by
      have hdigits : x ∉ ds := fun hm => by simp [hds.digits x hm] at hd
      simp [hdigits, hc]
    rcases List.infix_append_iff.mp hi with hi | hi | ⟨l, r, he, hl, hr⟩
    · exact .inl ⟨ds, hds, hi⟩
    · rcases List.infix_cons_iff.mp hi with hp | hi
      · exact absurd (List.cons_prefix_cons.mp hp).1.symm hc
      · exact .inr ⟨ds, hds, hi⟩
    · cases r with
      | nil =>
        rw [List.append_nil] at he
        exact .inl ⟨ds, hds, he ▸ hl.isInfix⟩
      | cons y r =>
        obtain rfl := (List.cons_prefix_cons.mp hr).1
        exact absurd (he ▸ List.mem_append_right l List.mem_cons_self) hx
  · rintro (h | h)
    · exact h.mono (List.prefix_append a _).isInfix
    · exact h.mono ((List.suffix_cons x b).trans (List.suffix_append a _)).isInfix

theorem marked_pasteWith (hd : x.isDigit = false) (hc : x ≠ ':') (ps : List (List Char)) :
    Marked (pasteWith x ps) ↔ ∃ p ∈ ps, Marked p := by
  induction ps with
  | nil =>
    have hempty : ¬Marked [] := by decide
    simp [pasteWith, hempty]
  | cons p ps ih =>
    cases ps with
    | nil => simp [pasteWith]
    | cons q ps =>
      rw [pasteWith_cons (by simp), marked_append_cons hd hc, ih]
      simp

/-- The address of a text in memory has a line number where a segment of the name has one. -/
theorem marked_uri {u : NamedUnit} {text : String} (hu : u.source = .memory text) :
    Marked (u.uri ++ ":").toList ↔ ∃ s ∈ UnitName.segments u.name, Marked s := by
  have huri : (u.uri ++ ":").toList =
      "string:".toList ++ '/' :: ([] ++ '/' :: ([] ++ '/' ::
        (pasteWith '/' (UnitName.segments u.name) ++ '.' :: "lua:".toList))) := by
    simp [NamedUnit.uri, hu, UnitName.resource]
  have hscheme : ¬Marked "string:".toList := by decide
  have hextension : ¬Marked "lua:".toList := by decide
  have hempty : ¬Marked [] := by decide
  rw [huri, marked_append_cons (by decide) (by decide), marked_append_cons (by decide) (by decide),
    marked_append_cons (by decide) (by decide), marked_append_cons (by decide) (by decide),
    marked_pasteWith (by decide) (by decide)]
  simp only [hscheme, hextension, hempty, false_or, or_false]

end UnitCache.Lua.Location

namespace UnitCache.Utf8

theorem isSecond_of_ascii {x : UInt8} (hx : x < 0x80) (a : UInt8) :
    isSecondOfThree a x = false ∧ isSecondOfFour a x = false := by
  have h := UInt8.lt_iff_toNat_lt.mp hx
  simp only [isSecondOfThree, isSecondOfFour, isTail_of_ascii hx, UInt8.le_iff_toNat_le, UInt8.reduceToNat] at h ⊢
  grind

/-- An ASCII byte ends whatever character stands before it. -/
theorem decodeLossy_append {x : UInt8} (hx : x < 0x80) (as bs : Bytes) :
    decodeLossy (as ++ x :: bs) = decodeLossy as ++ decodeLossy (x :: bs) := by
  have hpieces : (pieces (as ++ x :: bs)).map Piece.show =
      (pieces as).map Piece.show ++ (pieces (x :: bs)).map Piece.show := by
    have ht := isTail_of_ascii hx
    have hs := isSecond_of_ascii hx
    fun_induction pieces as with
    | case1 => rfl
    | _ =>
      simp only [List.cons_append, List.nil_append, List.map_cons, List.map_nil] at *
      rw [pieces.eq_def]
      simp only [Piece.show, *, ↓reduceIte, Bool.false_eq_true, List.map_cons]
  rw [decodeLossy, decodeLossy, decodeLossy, hpieces, String.ofList_append]

theorem decodeLossy_encode_append (s : String) (bs : Bytes) :
    decodeLossy (encode s ++ bs) = s ++ decodeLossy bs := by
  have hpieces (cs : List Char) : (pieces (cs.flatMap String.utf8EncodeChar ++ bs)).map Piece.show =
      cs ++ (pieces bs).map Piece.show := by
    induction cs with
    | nil => rfl
    | cons c cs ih =>
      rw [List.flatMap_cons, List.append_assoc, pieces_append, List.map_cons, ih]
      rfl
  rw [decodeLossy, encode, hpieces, String.ofList_append, String.ofList_toList, ← decodeLossy]

end UnitCache.Utf8

namespace UnitCache.Lua

open Location (Marked split)

def SyntaxFault.said (f : SyntaxFault) : String :=
  f.message ++ match f.near with
    | some t => " near " ++ Utf8.decodeLossy t
    | none => ""

namespace Compile

def shownPlace (origin : String) : String :=
  Utf8.decodeLossy (Chunk.shortName (Utf8.encode ("@" ++ origin)))

theorem encode_place (origin : String) : Utf8.encode ("@" ++ origin) = byte '@' :: Utf8.encode origin := by
  simp [Utf8.encode]
  rfl

/-- A place of up to fifty-nine bytes is shown as it is. -/
theorem shownPlace_eq {origin : String} (h : (Utf8.encode origin).length ≤ 59) :
    shownPlace origin = origin := by
  rw [shownPlace, encode_place, Chunk.shortName, if_pos rfl, if_pos h, Utf8.decodeLossy_encode]

/-- What is said of a text that is not Lua begins with the place and the line. -/
theorem faultText_eq (c : Chunk) (f : SyntaxFault) : c.faultText f =
    Utf8.decodeLossy c.shown ++ ":" ++ toString f.line ++ ": " ++ f.said := by
  have hcolon : Utf8.encode (":" ++ toString f.line ++ ": ") =
      byte ':' :: Utf8.encode (toString f.line ++ ": ") := by
    simp [Utf8.encode]
    rfl
  have hsaid (near : Bytes) : Utf8.decodeLossy (Chunk.location c.shown f.line ++ Utf8.encode f.message ++ near) =
      Utf8.decodeLossy c.shown ++ (":" ++ toString f.line ++ ": " ++ (f.message ++ Utf8.decodeLossy near)) := by
    rw [Chunk.location, hcolon, List.append_assoc, List.append_assoc, List.cons_append,
      Utf8.decodeLossy_append (by decide), ← List.cons_append, ← hcolon, Utf8.decodeLossy_encode_append,
      Utf8.decodeLossy_encode_append]
  rw [Chunk.faultText, hsaid, SyntaxFault.said]
  cases f.near with
  | none => simp [String.append_assoc, Utf8.decodeLossy, Utf8.pieces]
  | some t => simp [String.append_assoc, Utf8.decodeLossy_encode_append]

theorem chunk_malformed {origin text : String} {f : SyntaxFault} (ho : '\x00' ∉ origin.toList)
    (ht : (Utf8.encode text).head? ≠ some 0x1B)
    (hf : parse (Utf8.encode text) = .error (.malformed f)) :
    chunk origin text = .error (shownPlace origin ++ ":" ++ toString f.line ++ ": " ++ f.said) := by
  have hbinary : Chunk.isBinary (Utf8.encode text) = false := by
    cases hb : Utf8.encode text with
    | nil => rfl
    | cons b bs =>
      have hne : b ≠ 0x1B := by simpa [hb] using ht
      simp [Chunk.isBinary, Chunk.mark, List.isPrefixOf, hne.symm]
  simp only [chunk, findIdx?_zero ho, hbinary, ht, hf, Bool.false_eq_true, if_false]
  exact congrArg Except.error (faultText_eq _ f)

theorem run_text_error {name origin source message : String} (h : chunk origin source = .error message)
    (reach : Nat) (s : Session) : (Compile.text (reach + 1) name origin source).run s =
      .done ((), { s with
        visited := name :: s.visited
        diagnostics := s.diagnostics ++ [⟨.error, name, (split message).1, (split message).2⟩] }) := by
  unfold Compile.text
  simp only [h]
  rfl

end Compile

open Compile in
/-- The line of a message, and its text, are recovered just when the place that it begins with, with
the colon after it, holds no number between colons. In the address of a text in memory only a segment
of the name can hold one. So a text that is not Lua gives the line and the text of its fault wherever
it was found, unless the place as it is shown holds such a number. -/
theorem lines_recovered_iff (place m : String) (n : Nat) (hn : n < 2 ^ 32) :
    (split (place ++ ":" ++ toString n ++ ": " ++ m) = (some n, trimBlank m) ↔
      ¬Marked (place ++ ":").toList) ∧
    (∀ (u : NamedUnit) (text : String), u.source = .memory text → u.uri = place →
      (Marked (place ++ ":").toList ↔ ∃ s ∈ UnitName.segments u.name, Marked s)) ∧
    ∀ (name text : String) (f : SyntaxFault) (reach : Nat) (s : Session),
      '\x00' ∉ place.toList → (Utf8.encode text).head? ≠ some 0x1B →
      parse (Utf8.encode text) = .error (.malformed f) → f.line = n → f.said = m →
      ((Compile.text (reach + 1) name place text).run s = .done ((), { s with
          visited := name :: s.visited
          diagnostics := s.diagnostics ++ [⟨.error, name, some n, trimBlank m⟩] }) ↔
        ¬Marked (shownPlace place ++ ":").toList) := by
  refine ⟨Location.split_eq_iff place m hn, ?_, ?_⟩
  · rintro u text hu rfl
    exact Location.marked_uri hu
  · rintro name text f reach s ho ht hf rfl rfl
    rw [run_text_error (chunk_malformed ho ht hf), ← Location.split_eq_iff _ f.said hn]
    simp [Prod.ext_iff]

def stray : String := "\n)"

open Compile in
/-- The line is recovered for the unit `a`, but for the unit `a:1:b` it is read off the name. -/
theorem lines_recovered_iff_colons :
    let a : NamedUnit := ⟨"a", .memory stray, by decide⟩
    let b : NamedUnit := ⟨"a:1:b", .memory stray, by decide⟩
    let result (u : NamedUnit) := (Compile.text 1 u.name u.uri stray).run {}
    let right (u : NamedUnit) : Diagnostic := ⟨.error, u.name, some 2, "unexpected symbol near ')'"⟩
    result a = .done ((), { visited := ["a"], diagnostics := [right a] }) ∧
      result b ≠ .done ((), { visited := ["a:1:b"], diagnostics := [right b] }) ∧
      Marked (b.uri ++ ":").toList ∧
      split "string:///a:1:b.lua:2: unexpected symbol near ')'" =
        (some 1, "b.lua:2: unexpected symbol near ')'") ∧
      split (b.uri ++ ":" ++ toString 2 ++ ": " ++ "unexpected symbol near ')'") ≠
        (some 2, trimBlank "unexpected symbol near ')'") := by
  intro a b result right
  let f : SyntaxFault := ⟨2, "unexpected symbol", some (Utf8.encode "')'")⟩
  have hparse : parse (Utf8.encode stray) = .error (.malformed f) := by
    have hfault : (match parse (Utf8.encode stray) with
        | .error (.malformed f) => some f
        | _ => none) = some f := by decide +kernel
    split at hfault
    · rename_i heq
      rw [heq, Option.some.inj hfault]
    · cases hfault
  have hsaid : trimBlank f.said = "unexpected symbol near ')'" := by decide +kernel
  obtain ⟨-, -, hfoundA⟩ := lines_recovered_iff a.uri f.said 2 (by decide)
  obtain ⟨hsplit, huri, hfoundB⟩ := lines_recovered_iff b.uri f.said 2 (by decide)
  have hiffA := hfoundA a.name stray f 0 {} (by decide +kernel) (by decide +kernel) hparse rfl rfl
  have hiffB := hfoundB b.name stray f 0 {} (by decide +kernel) (by decide +kernel) hparse rfl rfl
  rw [hsaid] at hiffA hiffB
  have hmarked : Marked (b.uri ++ ":").toList := (huri b stray rfl rfl).mpr (by decide +kernel)
  have hshown : shownPlace b.uri = b.uri := shownPlace_eq (by decide +kernel)
  rw [hshown] at hiffB
  refine ⟨hiffA.mpr (by decide +kernel), fun h => hiffB.mp h hmarked, hmarked, by decide +kernel,
    fun h => hsplit.mp h hmarked⟩

end UnitCache.Lua
