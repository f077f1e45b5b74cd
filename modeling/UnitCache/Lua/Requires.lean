import UnitCache.Lua.Lexeme
/-!
The modules that a Lua text asks for. Each name `require` that does not look like a field or method
counts once, in order; its target is known when a string follows, alone or in parentheses. Whether it
looks so depends on the bytes before it, be they in a comment.
-/
namespace UnitCache.Lua

inductive Requirement.Target where
  /-- The module's name, written out. -/
  | literal (name : String)
  /-- A name that only running the text would tell. -/
  | dynamic
  deriving DecidableEq, Repr

structure Requirement where
  /-- How many bytes stand before it. -/
  offset : Nat
  line : Nat
  target : Requirement.Target
  deriving DecidableEq, Repr

namespace Requirement

def requireName : Bytes := Utf8.encode "require"

/-- Bytes between a dot and the field it selects. -/
def isGap (b : UInt8) : Bool :=
  b = byte ' ' || b = byte '\t' || b = byte '\r' || b = byte '\n'

/-- Whether what stands before a name, back to front, makes it a field or a method. Two dots join
texts and select nothing. -/
def isMember (before : Bytes) : Bool :=
  match before.dropWhile isGap with
  | [] => false
  | b :: bs =>
    b = byte ':' || (b = byte '.' && bs.head? ≠ some (byte '.'))

/-- Bytes that may stand between `require` and its argument. -/
def isSpace (b : UInt8) : Bool := isGap b || b = 0x0C

def isSkipped (l : Lexeme) : Bool :=
  match l.kind, l.source with
  | .comment, _ => true
  | .other, [b] => isSpace b
  | _, _ => false

def skip (ls : List Lexeme) : List Lexeme := ls.dropWhile isSkipped

def isSign (c : Char) (l : Lexeme) : Bool := l.kind = .other && l.source = [byte c]

/-- A name as written; an empty one and one with escapes is not known. -/
def literal (content : Bytes) : Target :=
  if content.isEmpty || content.contains (byte '\\') then .dynamic
  else .literal (Utf8.decodeLossy content)

/-- The target that the lexemes after `require` and a parenthesis give. -/
def enclosedTarget (ls : List Lexeme) : Target :=
  match skip ls with
  | ⟨.string content, _⟩ :: ls =>
    match skip ls with
    | r :: _ => if isSign ')' r then literal content else .dynamic
    | [] => .dynamic
  | _ => .dynamic

/-- The target that the lexemes after `require` give. -/
def targetOf (ls : List Lexeme) : Target :=
  match skip ls with
  | [] => .dynamic
  | l :: ls =>
    match l.kind with
    | .string content => literal content
    | _ => if isSign '(' l then enclosedTarget ls else .dynamic

/-- The requirements among lexemes, given the bytes before them back to front. -/
def among (before : Bytes) : List Lexeme → List Requirement
  | [] => []
  | l :: ls =>
    let later := among (l.source.reverse ++ before) ls
    if l.kind = .name ∧ l.source = requireName ∧ !isMember before then
      ⟨before.length, before.count (byte '\n') + 1, targetOf ls⟩ :: later
    else later

end Requirement

/-- The requirements of a text, in order. -/
def requirements (text : Bytes) : List Requirement := Requirement.among [] (lexemes text)

end UnitCache.Lua
