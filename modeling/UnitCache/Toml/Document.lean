import UnitCache.Toml.Scalar
import UnitCache.Toml.Value

namespace UnitCache.Toml

/-- How deep arrays and inline tables may be nested. -/
def maxDepth : Nat := 80

def plainValue (cs : List Char) : Option Value :=
  if cs = "true".toList then some (.boolean true)
  else if cs = "false".toList then some (.boolean false)
  else if isInteger cs || isFloat cs then some (.number (String.ofList cs))
  else if isMoment cs then some (.moment (String.ofList cs))
  else none

mutual

/-- A value. The number of steps bounds the recursion and is more than there are characters. -/
def value : Nat → Nat → Reader Value
  | 0, _ => failure
  | steps + 1, depth => do
    match ← Reader.peek with
    | some '"' | some '\'' => return .string (← quotedString true)
    | some '[' =>
      if maxDepth ≤ depth then failure
      let _ ← Reader.next
      return .array (← items steps (depth + 1))
    | some '\x7b' =>
      if maxDepth ≤ depth then failure
      let _ ← Reader.next
      let (_, fields) ← inlineFields steps (depth + 1) (.inline, [])
      return .table .inline fields
    | _ => plainValue (← bareScalar)

/-- The items of an array up to its bracket. -/
def items : Nat → Nat → Reader (List Value)
  | 0, _ => failure
  | steps + 1, depth => do
    skipSpace
    if ← Reader.accepts "]" then return []
    let v ← value steps depth
    skipSpace
    if ← Reader.accepts "," then return v :: (← items steps depth)
    Reader.accept ']'
    return [v]

/-- The fields of an inline table up to its brace. -/
def inlineFields : Nat → Nat → Table → Reader Table
  | 0, _, _ => failure
  | steps + 1, depth, t => do
    skipSpace
    if ← Reader.accepts "\x7d" then return t
    let ks ← key
    Reader.accept '='
    skipBlanks
    let v ← value steps depth
    let t ← (Table.insert ks.dropLast (ks.getLastD "") v t : Option Table)
    skipSpace
    if ← Reader.accepts "," then inlineFields steps depth t
    else
      Reader.accept '\x7d'
      return t

end

/-- Where the fields that follow a header go. -/
abbrev Section := List String

/-- One line: a header, a field or nothing. -/
def line (current : Section) (root : Table) : Reader (Section × Table) := do
  skipBlanks
  match ← Reader.peek with
  | some '[' =>
    let _ ← Reader.next
    let several ← Reader.accepts "["
    let ks ← key
    Reader.accept ']'
    if several then Reader.accept ']'
    let opening := if several then Table.openElement else Table.openHeader
    let root ← (opening ks.dropLast (ks.getLastD "") root : Option Table)
    endOfLine
    return (ks, root)
  | none | some '#' | some '\n' | some '\r' =>
    endOfLine
    return (current, root)
  | some _ =>
    let ks ← key
    Reader.accept '='
    skipBlanks
    let v ← value (2 * (← get).length + 2) 0
    let root ← (Table.alter false (Table.insert ks.dropLast (ks.getLastD "") v) current root :
      Option Table)
    endOfLine
    return (current, root)

def lines : Nat → Section → Table → Reader Table
  | 0, _, root => return root
  | steps + 1, current, root => do
    if (← get).isEmpty then return root
    let (current, root) ← line current root
    lines steps current root

def dropMark : List Char → List Char
  | '\uFEFF' :: cs => cs
  | cs => cs

/-- The fields of a document, if the text is one. -/
def parse? (text : String) : Option Fields :=
  let cs := dropMark text.toList
  ((lines (cs.length + 1) [] (.header, []) cs).map (·.1)).map (·.2)

end UnitCache.Toml
