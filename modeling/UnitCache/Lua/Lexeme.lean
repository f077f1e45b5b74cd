import UnitCache.Text.Utf8

namespace UnitCache.Lua

def byte (c : Char) : UInt8 := UInt8.ofNat c.toNat

def isLetter (b : UInt8) : Bool :=
  (byte 'a' ≤ b && b ≤ byte 'z') || (byte 'A' ≤ b && b ≤ byte 'Z')

def isDigit (b : UInt8) : Bool := byte '0' ≤ b && b ≤ byte '9'

def isNameStart (b : UInt8) : Bool := isLetter b || b = byte '_'

def isNameByte (b : UInt8) : Bool := isNameStart b || isDigit b

inductive Lexeme.Kind where
  | comment
  | string (content : Bytes)
  | name
  | number
  | other
  deriving DecidableEq, Repr

structure Lexeme where
  kind : Lexeme.Kind
  /-- The bytes it stands on. -/
  source : Bytes
  deriving DecidableEq, Repr

namespace Lexeme

/-- A part read off the front of a text: its content, its bytes, and the text after it. -/
structure Read where
  content : Bytes
  source : Bytes
  rest : Bytes

/-- The level of a long bracket, given the text after its first `[`: the number of `=` signs before
a second `[`. -/
def level? : Bytes → Option Nat
  | [] => none
  | b :: bs =>
    if b = byte '[' then some 0
    else if b = byte '=' then (level? bs).map (· + 1)
    else none

/-- Whether a text begins with so many `=` and a `]`. -/
def endsBracket : Nat → Bytes → Bool
  | 0, b :: _ => b = byte ']'
  | n + 1, b :: bs => b = byte '=' && endsBracket n bs
  | _, [] => false

/-- The content of a long bracket and its closing. Without a closing it takes the whole text. -/
def longBody (level : Nat) : Bytes → Read
  | [] => ⟨[], [], []⟩
  | b :: bs =>
    if b = byte ']' && endsBracket level bs then
      ⟨[], b :: bs.take (level + 1), bs.drop (level + 1)⟩
    else
      let r := longBody level bs
      ⟨b :: r.content, b :: r.source, r.rest⟩

/-- A long bracket after its first `[`. -/
def long? (bs : Bytes) : Option Read :=
  (level? bs).map fun n =>
    let r := longBody n (bs.drop (n + 1))
    { r with source := bs.take (n + 1) ++ r.source }

/-- A string after its opening quote. A backslash keeps the byte after it from ending the string;
both stay in the content. -/
def short (quote : UInt8) : Bytes → Read
  | [] => ⟨[], [], []⟩
  | b :: bs =>
    if b = byte '\n' then ⟨[], [], b :: bs⟩
    else if b = quote then ⟨[], [b], bs⟩
    else if b = byte '\\' then
      match bs with
      | [] => ⟨[], [b], []⟩
      | e :: cs =>
        let r := short quote cs
        ⟨b :: e :: r.content, b :: e :: r.source, r.rest⟩
    else
      let r := short quote bs
      ⟨b :: r.content, b :: r.source, r.rest⟩

/-- A comment after its two dashes. -/
def comment (bs : Bytes) : Read :=
  let line : Read := ⟨[], bs.takeWhile (· ≠ byte '\n'), bs.dropWhile (· ≠ byte '\n')⟩
  match bs with
  | b :: cs =>
    if b = byte '[' then
      match long? cs with
      | some r => { r with source := b :: r.source }
      | none => line
    else line
  | [] => line

def isNumberByte (b : UInt8) : Bool := isLetter b || isDigit b || b = byte '.'

/-- The lexeme at the front of the text `b :: bs`, and the text after it. -/
def next (b : UInt8) (bs : Bytes) : Lexeme × Bytes :=
  if b = byte '-' && bs.head? = some (byte '-') then
    let r := comment bs.tail
    (⟨.comment, b :: byte '-' :: r.source⟩, r.rest)
  else if b = byte '"' || b = byte '\'' then
    let r := short b bs
    (⟨.string r.content, b :: r.source⟩, r.rest)
  else if b = byte '[' then
    match long? bs with
    | some r => (⟨.string r.content, b :: r.source⟩, r.rest)
    | none => (⟨.other, [b]⟩, bs)
  else if isNameStart b then
    (⟨.name, b :: bs.takeWhile isNameByte⟩, bs.dropWhile isNameByte)
  else if isDigit b then
    (⟨.number, b :: bs.takeWhile isNumberByte⟩, bs.dropWhile isNumberByte)
  else (⟨.other, [b]⟩, bs)

theorem longBody_source (level : Nat) (bs : Bytes) :
    (longBody level bs).source ++ (longBody level bs).rest = bs := by
  induction bs with
  | nil => rfl
  | cons b bs ih =>
    simp only [longBody]
    split
    · simp
    · simpa using ih

theorem long?_source {bs : Bytes} {r : Read} (h : long? bs = some r) : r.source ++ r.rest = bs := by
  simp only [long?, Option.map_eq_some_iff] at h
  obtain ⟨n, _, rfl⟩ := h
  simp [List.append_assoc, longBody_source]

theorem short_source (quote : UInt8) (bs : Bytes) :
    (short quote bs).source ++ (short quote bs).rest = bs := by
  fun_induction short quote bs <;> simp_all +zetaDelta

theorem comment_source (bs : Bytes) : (comment bs).source ++ (comment bs).rest = bs := by
  cases bs with
  | nil => rfl
  | cons b bs =>
    simp only [comment]
    split
    · split
      · rename_i r h
        simp [long?_source h]
      · exact List.takeWhile_append_dropWhile
    · exact List.takeWhile_append_dropWhile

theorem next_source (b : UInt8) (bs : Bytes) : (next b bs).1.source ++ (next b bs).2 = b :: bs := by
  simp only [next]
  split
  · rename_i h
    simp only [Bool.and_eq_true, decide_eq_true_eq] at h
    cases bs with
    | nil => simp at h
    | cons c cs =>
      have hc : c = byte '-' := by simpa using h.2
      simp [comment_source, hc]
  · split
    · simp [short_source]
    · split
      · split
        · rename_i r h
          simp [long?_source h]
        · rfl
      · split
        · simp [List.takeWhile_append_dropWhile]
        · split
          · simp [List.takeWhile_append_dropWhile]
          · rfl

theorem next_source_ne_nil (b : UInt8) (bs : Bytes) : (next b bs).1.source ≠ [] := by
  simp only [next]
  repeat' split
  all_goals simp

theorem length_next_lt (b : UInt8) (bs : Bytes) : (next b bs).2.length < (b :: bs).length := by
  have h := congrArg List.length (next_source b bs)
  have := List.length_pos_iff.mpr (next_source_ne_nil b bs)
  rw [List.length_append] at h
  omega

end Lexeme

open Lexeme in
/-- The lexemes of a text in order. Put together they are the text, and no text is refused. -/
def lexemes : Bytes → List Lexeme
  | [] => []
  | b :: bs => (next b bs).1 :: lexemes (next b bs).2
termination_by bs => bs.length
decreasing_by exact length_next_lt b bs

theorem flatMap_source_lexemes (bs : Bytes) : (lexemes bs).flatMap Lexeme.source = bs := by
  fun_induction lexemes bs with
  | case1 => rfl
  | case2 b bs ih => rw [List.flatMap_cons, ih, Lexeme.next_source]

end UnitCache.Lua
