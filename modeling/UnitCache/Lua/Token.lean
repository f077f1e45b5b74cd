import UnitCache.Lua.Numeral

namespace UnitCache.Lua

inductive Token where
  | name (n : Bytes)
  | string (s : Bytes)
  | number (n : Number)
  | keyword (w : String)
  | sign (s : String)
  /-- A byte that begins no token. -/
  | stray (b : UInt8)
  | eof
  deriving DecidableEq, Repr

def keywords : List String :=
  ["and", "break", "do", "else", "elseif", "end", "false", "for", "function", "goto", "if", "in",
    "local", "nil", "not", "or", "repeat", "return", "then", "true", "until", "while"]

/-- Signs of several characters, the longer ones first. -/
def longSigns : List String := ["...", "..", "==", "~=", "<=", ">=", "//", "<<", ">>", "::"]

def shortSigns : List Char := "+-*/%^#&~|<>=()[]\x7b\x7d;:,.".toList

/-- A text as it is quoted in messages, where it ends at a zero byte. -/
def quoteText (bs : Bytes) : Bytes := byte '\'' :: bs.takeWhile (· ≠ 0) ++ [byte '\'']

/-- A token with where it was found. -/
structure Token.Found where
  token : Token
  /-- What was read for it: the text of a name or number, a string with its quotes. -/
  source : Bytes
  /-- The line on which it ends. -/
  line : Nat
  deriving Repr

namespace Token

def isPrintableByte (b : UInt8) : Bool := 32 ≤ b && b ≤ 126

/-- How a message names a token. -/
def Found.shown (f : Found) : Bytes :=
  match f.token with
  | .name _ | .string _ | .number _ => quoteText f.source
  | .keyword w => quoteText (Utf8.encode w)
  | .sign s => quoteText (Utf8.encode s)
  | .stray b =>
    if isPrintableByte b then quoteText [b]
    else quoteText (Utf8.encode ("<\\" ++ toString b.toNat ++ ">"))
  | .eof => Utf8.encode "<eof>"

/-- How a message names a token that is missing. -/
def wanted : Token → String
  | .name _ => "<name>"
  | .string _ => "<string>"
  | .number _ => "<number>"
  | .keyword w => "'" ++ w ++ "'"
  | .sign s => "'" ++ s ++ "'"
  | .stray b => "'" ++ String.ofList [Char.ofNat b.toNat] ++ "'"
  | .eof => "<eof>"

end Token

/-- A text that is not Lua: what is wrong, on which line, and near which token if that helps. -/
structure SyntaxFault where
  line : Nat
  message : String
  near : Option Bytes
  deriving DecidableEq, Repr

end UnitCache.Lua
