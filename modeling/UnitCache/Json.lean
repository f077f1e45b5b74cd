namespace UnitCache

inductive Json where
  | null
  | bool (b : Bool)
  /-- A number as it is written. -/
  | number (text : String)
  | string (s : String)
  | array (items : List Json)
  | object (fields : List (String × Json))
  deriving Repr, Inhabited

namespace Json

def nat (n : Nat) : Json := .number (toString n)

def int (n : Int) : Json := .number (toString n)

def ofOption {α : Type} (f : α → Json) : Option α → Json
  | some a => f a
  | none => .null

def hexDigit (n : Nat) : Char := (Nat.digitChar n)

/-- A character inside a string: quotes, backslashes and controls are escaped, all else is itself. -/
def encodeChar (c : Char) : List Char :=
  match c with
  | '"' => ['\\', '"']
  | '\\' => ['\\', '\\']
  | '\n' => ['\\', 'n']
  | '\r' => ['\\', 'r']
  | '\t' => ['\\', 't']
  | '\x08' => ['\\', 'b']
  | '\x0c' => ['\\', 'f']
  | c =>
    if c.toNat < 0x20 then
      ['\\', 'u', '0', '0', hexDigit (c.toNat / 16), hexDigit (c.toNat % 16)]
    else [c]

def encodeString (s : String) : String :=
  String.ofList ('"' :: s.toList.flatMap encodeChar ++ ['"'])

def openObject : String := "\x7b"

def closeObject : String := "\x7d"

mutual

def compact : Json → String
  | .null => "null"
  | .bool b => toString b
  | .number text => text
  | .string s => encodeString s
  | .array items => "[" ++ ",".intercalate (compactItems items) ++ "]"
  | .object fields => openObject ++ ",".intercalate (compactFields fields) ++ closeObject

def compactItems : List Json → List String
  | [] => []
  | j :: js => compact j :: compactItems js

def compactFields : List (String × Json) → List String
  | [] => []
  | (k, j) :: js => (encodeString k ++ ":" ++ compact j) :: compactFields js

end

def newLine (depth : Nat) : String := "\n" ++ String.ofList (List.replicate (2 * depth) ' ')

/-- Parts between brackets, each on its own line. -/
def block (opening closing : String) (depth : Nat) (parts : List String) : String :=
  if parts.isEmpty then opening ++ closing
  else
    opening ++ newLine (depth + 1) ++ ("," ++ newLine (depth + 1)).intercalate parts ++
      newLine depth ++ closing

mutual

/-- The text with indentation, for a value that stands at the given depth. -/
def prettyAt (depth : Nat) : Json → String
  | .null => "null"
  | .bool b => toString b
  | .number text => text
  | .string s => encodeString s
  | .array items => block "[" "]" depth (prettyItems depth items)
  | .object fields => block openObject closeObject depth (prettyFields depth fields)

def prettyItems (depth : Nat) : List Json → List String
  | [] => []
  | j :: js => prettyAt (depth + 1) j :: prettyItems depth js

def prettyFields (depth : Nat) : List (String × Json) → List String
  | [] => []
  | (k, j) :: js => (encodeString k ++ ": " ++ prettyAt (depth + 1) j) :: prettyFields depth js

end

def pretty (j : Json) : String := prettyAt 0 j

end Json
end UnitCache
