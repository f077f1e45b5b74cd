namespace UnitCache.Toml

/-- Reads a part off the front of a text. -/
abbrev Reader (α : Type) := StateT (List Char) Option α

namespace Reader

def peek : Reader (Option Char) := fun cs => some (cs.head?, cs)

def next : Reader Char
  | c :: cs => some (c, cs)
  | [] => none

def accept (c : Char) : Reader Unit
  | d :: cs => if d = c then some ((), cs) else none
  | [] => none

/-- Whether a text comes next, which is then taken. -/
def accepts (word : String) : Reader Bool := fun cs =>
  if word.toList.isPrefixOf cs then some (true, cs.drop word.length) else some (false, cs)

def takeWhile (p : Char → Bool) : Reader (List Char) := fun cs =>
  some (cs.takeWhile p, cs.dropWhile p)

end Reader

/-- Characters that no text may hold as they are. -/
def isControl (c : Char) : Bool := (c.toNat < 0x20 && c ≠ '\t') || c.toNat = 0x7F

def skipBlanks : Reader Unit := do
  let _ ← Reader.takeWhile (fun c => c = ' ' || c = '\t')

/-- The text of a comment, given the rest of its line: a carriage return that ends the line is not
part of it. -/
def commentText (text : List Char) : List Char :=
  if text.getLast? = some '\r' then text.dropLast else text

/-- A comment, if there is one, up to the end of its line. -/
def skipComment : Reader Unit
  | '#' :: cs =>
    let text := commentText (cs.takeWhile (· ≠ '\n'))
    if text.any isControl then none else some ((), cs.drop text.length)
  | cs => some ((), cs)

/-- The end of a line, or of the document. -/
def endOfLine : Reader Unit := do
  skipBlanks
  skipComment
  match ← Reader.peek with
  | none => return
  | some '\r' => Reader.accept '\r'; Reader.accept '\n'
  | some _ => Reader.accept '\n'

/-- Blanks, comments and ends of lines, as long as there are any. -/
def skipLines : Nat → List Char → Option (List Char)
  | 0, cs => some cs
  | steps + 1, cs =>
    match cs with
    | ' ' :: cs | '\t' :: cs | '\n' :: cs | '\r' :: '\n' :: cs => skipLines steps cs
    | '#' :: cs =>
      let text := commentText (cs.takeWhile (· ≠ '\n'))
      if text.any isControl then none else skipLines steps (cs.drop text.length)
    | cs => some cs

def skipSpace : Reader Unit := fun cs => (skipLines cs.length cs).map (fun r => ((), r))

def hexValue (c : Char) : Option Nat :=
  if '0' ≤ c && c ≤ '9' then some (c.toNat - '0'.toNat)
  else if 'a' ≤ c && c ≤ 'f' then some (c.toNat - 'a'.toNat + 10)
  else if 'A' ≤ c && c ≤ 'F' then some (c.toNat - 'A'.toNat + 10)
  else none

def hexNumber : Nat → Nat → Reader Nat
  | 0, n => return n
  | k + 1, n => do
    match hexValue (← Reader.next) with
    | some d => hexNumber k (16 * n + d)
    | none => failure

/-- A character given by so many hexadecimal digits. -/
def codePoint (digits : Nat) : Reader Char := do
  let n ← hexNumber digits 0
  if n.isValidChar then return Char.ofNat n else failure

/-- What stands for a character after a backslash. -/
def escape : Reader Char := do
  match ← Reader.next with
  | 'b' => return '\x08'
  | 't' => return '\t'
  | 'n' => return '\n'
  | 'f' => return '\x0c'
  | 'r' => return '\r'
  | 'e' => return '\x1b'
  | '"' => return '"'
  | '\\' => return '\\'
  | 'x' => codePoint 2
  | 'u' => codePoint 4
  | 'U' => codePoint 8
  | _ => failure

/-- A string in double quotes after the opening one; `acc` holds what was read, back to front. -/
def basicString : Nat → List Char → Reader String
  | 0, _ => failure
  | steps + 1, acc => do
    match ← Reader.next with
    | '"' => return String.ofList acc.reverse
    | '\\' => basicString steps ((← escape) :: acc)
    | c => if isControl c then failure else basicString steps (c :: acc)

def literalString : Nat → List Char → Reader String
  | 0, _ => failure
  | steps + 1, acc => do
    match ← Reader.next with
    | '\'' => return String.ofList acc.reverse
    | c => if isControl c then failure else literalString steps (c :: acc)

/-- How many quotes come next, five at most. -/
def quotes (quote : Char) : Reader Nat := fun cs =>
  let n := min 5 (cs.takeWhile (· = quote)).length
  some (n, cs.drop n)

/-- A backslash at the end of a line takes the line end and all space after it away. -/
def lineContinues (cs : List Char) : Option (List Char) :=
  match cs.dropWhile (fun c => c = ' ' || c = '\t') with
  | '\n' :: cs | '\r' :: '\n' :: cs =>
    some (cs.dropWhile (fun c => c = ' ' || c = '\t' || c = '\n' || c = '\r'))
  | _ => none

/-- A string of several lines after its opening quotes. -/
def longString (quote : Char) (escapes : Bool) : Nat → List Char → Reader String
  | 0, _ => failure
  | steps + 1, acc => do
    let n ← quotes quote
    if 3 ≤ n then return String.ofList (List.replicate (n - 3) quote ++ acc).reverse
    else if 0 < n then longString quote escapes steps (List.replicate n quote ++ acc)
    else
      let c ← Reader.next
      if c = '\\' && escapes then
        match lineContinues (← get) with
        | some cs => set cs; longString quote escapes steps acc
        | none => longString quote escapes steps ((← escape) :: acc)
      else if c = '\r' then
        Reader.accept '\n'
        longString quote escapes steps ('\n' :: '\r' :: acc)
      else if c ≠ '\n' && isControl c then failure
      else longString quote escapes steps (c :: acc)

/-- A line end right after the opening quotes is not part of the string. -/
def skipFirstLineEnd : Reader Unit := do
  if !(← Reader.accepts "\r\n") then
    let _ ← Reader.accepts "\n"

/-- A string, which begins with a quote. -/
def quotedString (several : Bool) : Reader String := do
  let steps := (← get).length + 1
  let quote ← Reader.next
  let escapes := quote = '"'
  if several && (← Reader.accepts (String.ofList [quote, quote])) then
    skipFirstLineEnd
    longString quote escapes steps []
  else if escapes then basicString steps []
  else literalString steps []

def isBareKey (c : Char) : Bool := c.isAlphanum || c = '_' || c = '-'

/-- One part of a key. -/
def simpleKey : Reader String := do
  match ← Reader.peek with
  | some '"' | some '\'' => quotedString false
  | _ =>
    let cs ← Reader.takeWhile isBareKey
    if cs.isEmpty then failure
    return String.ofList cs

/-- A key: its parts between dots. -/
def keyParts : Nat → Reader (List String)
  | 0 => failure
  | steps + 1 => do
    skipBlanks
    let k ← simpleKey
    skipBlanks
    if ← Reader.accepts "." then return k :: (← keyParts steps) else return [k]

def key : Reader (List String) := do keyParts ((← get).length + 1)

/-- Digits with single underscores between them. -/
def areDigits (p : Char → Bool) : List Char → Bool
  | [] => false
  | [c] => p c
  | c :: '_' :: cs => p c && areDigits p cs
  | c :: cs => p c && areDigits p cs

def isDecimal (cs : List Char) : Bool :=
  areDigits Char.isDigit cs && (cs.head? ≠ some '0' || cs.length = 1)

def dropSign : List Char → List Char
  | '+' :: cs => cs
  | '-' :: cs => cs
  | cs => cs

def isInteger (cs : List Char) : Bool :=
  match cs with
  | '0' :: 'x' :: ds => areDigits (fun c => (hexValue c).isSome) ds
  | '0' :: 'o' :: ds => areDigits (fun c => '0' ≤ c && c ≤ '7') ds
  | '0' :: 'b' :: ds => areDigits (fun c => c = '0' || c = '1') ds
  | cs => isDecimal (dropSign cs)

def isExponent (cs : List Char) : Bool := areDigits Char.isDigit (dropSign cs)

def isFloat (cs : List Char) : Bool :=
  let cs := dropSign cs
  if cs = "inf".toList || cs = "nan".toList then true
  else
    let (mantissa, rest) := cs.span (fun c => c ≠ 'e' && c ≠ 'E')
    let exponentOk := match rest with
      | [] => true
      | _ :: e => isExponent e
    let (whole, frac) := mantissa.span (· ≠ '.')
    let fracOk := match frac with
      | [] => !rest.isEmpty
      | _ :: ds => areDigits Char.isDigit ds
    isDecimal whole && fracOk && exponentOk

/-- A number of exactly so many digits. -/
def digitsOf (n : Nat) : Reader Nat := fun cs =>
  let ds := cs.take n
  if ds.length = n && ds.all Char.isDigit then
    some (ds.foldl (fun k c => 10 * k + (c.toNat - '0'.toNat)) 0, cs.drop n)
  else none

def daysIn (year month : Nat) : Nat :=
  if month = 2 then
    if year % 4 = 0 && (year % 100 ≠ 0 || year % 400 = 0) then 29 else 28
  else if month = 4 || month = 6 || month = 9 || month = 11 then 30
  else 31

def date : Reader Unit := do
  let year ← digitsOf 4
  Reader.accept '-'
  let month ← digitsOf 2
  Reader.accept '-'
  let day ← digitsOf 2
  if month < 1 || 12 < month || day < 1 || daysIn year month < day then failure

def time : Reader Unit := do
  let hour ← digitsOf 2
  Reader.accept ':'
  let minute ← digitsOf 2
  if 23 < hour || 59 < minute then failure
  if ← Reader.accepts ":" then
    let second ← digitsOf 2
    if 60 < second then failure
    if ← Reader.accepts "." then
      if (← Reader.takeWhile Char.isDigit).isEmpty then failure

def offset : Reader Unit := do
  match ← Reader.peek with
  | none => return
  | some c =>
    let _ ← Reader.next
    if c = 'Z' || c = 'z' then return
    if c ≠ '+' && c ≠ '-' then failure
    let hour ← digitsOf 2
    Reader.accept ':'
    let minute ← digitsOf 2
    if 23 < hour || 59 < minute then failure

def dateTime : Reader Unit := do
  date
  match ← Reader.peek with
  | none => return
  | some c =>
    let _ ← Reader.next
    if c ≠ 'T' && c ≠ 't' && c ≠ ' ' then failure
    time
    offset

/-- Whether a whole text is a date, a time or both. -/
def isMoment (cs : List Char) : Bool :=
  let whole (r : Reader Unit) : Bool := (r cs).map (·.2) = some []
  whole dateTime || whole time

/-- Characters of numbers, dates and the like. -/
def isBareScalar (c : Char) : Bool := c.isAlphanum || c = '+' || c = '-' || c = '.' || c = '_' || c = ':'

/-- A number or date as written. A date may be followed by a single space and a time. -/
def bareScalar : Reader (List Char) := do
  let cs ← Reader.takeWhile isBareScalar
  match ← get with
  | ' ' :: d :: rest =>
    if d.isDigit && (date cs).map (·.2) = some [] then
      set rest
      return cs ++ ' ' :: d :: (← Reader.takeWhile isBareScalar)
    else return cs
  | _ => return cs

end UnitCache.Toml
