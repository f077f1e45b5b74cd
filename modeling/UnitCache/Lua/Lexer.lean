import UnitCache.Lua.Token

namespace UnitCache.Lua

namespace Lexer

/-- The text still to be read and the line it begins on. -/
structure Cursor where
  line : Nat
  rest : Bytes

def isLineEnd (b : UInt8) : Bool := b = byte '\n' || b = byte '\r'

/-- Two different line ends in a row are one. `bs` follows the line end `b`. -/
def afterLineEnd (b : UInt8) (bs : Bytes) : Bytes :=
  match bs with
  | c :: cs => if isLineEnd c && c ≠ b then cs else c :: cs
  | [] => []

/-- The content of a long bracket whose opening has been read; `what` names it in a fault. -/
def long (what : String) (start level : Nat) : Nat → Bytes → Cursor → Except SyntaxFault (Bytes × Cursor)
  | 0, _, c => .error ⟨c.line, "", none⟩
  | steps + 1, acc, c =>
    match c.rest with
    | [] =>
      .error ⟨c.line, "unfinished long " ++ what ++ " (starting at line " ++ toString start ++ ")",
        some (Utf8.encode "<eof>")⟩
    | b :: bs =>
      if b = byte ']' && Lexeme.endsBracket level bs then
        .ok (acc.reverse, ⟨c.line, bs.drop (level + 1)⟩)
      else if isLineEnd b then
        long what start level steps (byte '\n' :: acc) ⟨c.line + 1, afterLineEnd b bs⟩
      else long what start level steps (b :: acc) ⟨c.line, bs⟩

/-- A line end right after the opening is not part of the content. -/
def longBracket (what : String) (level : Nat) (c : Cursor) : Except SyntaxFault (Bytes × Cursor) :=
  let body : Cursor :=
    match c.rest with
    | b :: bs => if isLineEnd b then ⟨c.line + 1, afterLineEnd b bs⟩ else c
    | [] => c
  long what c.line level (c.rest.length + 1) [] body

/-- Skips blanks and comments. -/
def skip : Nat → Cursor → Except SyntaxFault Cursor
  | 0, c => .ok c
  | steps + 1, c =>
    match c.rest with
    | [] => .ok c
    | b :: bs =>
      if isLineEnd b then skip steps ⟨c.line + 1, afterLineEnd b bs⟩
      else if isSpace b then skip steps ⟨c.line, bs⟩
      else if b = byte '-' && bs.head? = some (byte '-') then
        let bs := bs.tail
        let toLineEnd : Cursor := ⟨c.line, bs.dropWhile (fun b => !isLineEnd b)⟩
        match bs with
        | o :: inner =>
          match (if o = byte '[' then Lexeme.level? inner else none) with
          | some level => do
            let (_, c) ← longBracket "comment" level ⟨c.line, inner.drop (level + 1)⟩
            skip steps c
          | none => skip steps toLineEnd
        | [] => skip steps toLineEnd
      else .ok c

/-- A fault in an escape: the byte at fault is shown too. -/
def badEscape (message : String) (read : Bytes) (c : Cursor) : SyntaxFault :=
  ⟨c.line, message, some (quoteText (read.reverse ++ c.rest.take 1))⟩

/-- The bytes of a code point, which may be larger than those of Unicode. -/
def codePointBytes (n : Nat) : Bytes :=
  let tail (k : Nat) : UInt8 := UInt8.ofNat (0x80 + n / Nat.pow 64 k % 64)
  if n < 0x80 then [UInt8.ofNat n]
  else if n < 0x800 then [UInt8.ofNat (0xC0 + n / 64), tail 0]
  else if n < 0x10000 then [UInt8.ofNat (0xE0 + n / Nat.pow 64 2), tail 1, tail 0]
  else if n < 0x200000 then [UInt8.ofNat (0xF0 + n / Nat.pow 64 3), tail 2, tail 1, tail 0]
  else if n < 0x4000000 then [UInt8.ofNat (0xF8 + n / Nat.pow 64 4), tail 3, tail 2, tail 1, tail 0]
  else [UInt8.ofNat (0xFC + n / Nat.pow 64 5), tail 4, tail 3, tail 2, tail 1, tail 0]

/-- A hexadecimal digit, after what was read so far. -/
def hexDigit (read : Bytes) (c : Cursor) : Except SyntaxFault (Nat × Bytes × Cursor) :=
  match c.rest with
  | b :: bs =>
    if isHexDigit b then .ok (hexValue b, b :: read, ⟨c.line, bs⟩)
    else .error (badEscape "hexadecimal digit expected" read c)
  | [] => .error (badEscape "hexadecimal digit expected" read c)

/-- The further digits of a code point. -/
def moreDigits (n : Nat) (read : Bytes) (line : Nat) : Bytes → Except SyntaxFault (Nat × Bytes × Cursor)
  | [] => .ok (n, read, ⟨line, []⟩)
  | b :: bs =>
    if isHexDigit b then
      if n ≤ 0x7FFFFFF then moreDigits (16 * n + hexValue b) (b :: read) line bs
      else .error (badEscape "UTF-8 value too large" read ⟨line, b :: bs⟩)
    else .ok (n, read, ⟨line, b :: bs⟩)

/-- Skips blanks and line ends inside a string. -/
def zap : Nat → Cursor → Cursor
  | 0, c => c
  | steps + 1, c =>
    match c.rest with
    | b :: bs =>
      if isLineEnd b then zap steps ⟨c.line + 1, afterLineEnd b bs⟩
      else if isSpace b then zap steps ⟨c.line, bs⟩
      else c
    | [] => c

/-- What an escape stands for, given what was read up to its backslash (back to front, the backslash
left out) and the text after it. -/
def escape (read : Bytes) (c : Cursor) : Except SyntaxFault (Bytes × Cursor) :=
  let raw := byte '\\' :: read
  match c.rest with
  | [] => .ok ([], c)
  | b :: bs =>
    let after : Cursor := ⟨c.line, bs⟩
    let plain (v : UInt8) : Except SyntaxFault (Bytes × Cursor) := .ok ([v], after)
    if isLineEnd b then .ok ([byte '\n'], ⟨c.line + 1, afterLineEnd b bs⟩)
    else if isDigit b then
      let ds := (c.rest.take 3).takeWhile isDigit
      let n := Number.digitsValue 10 ds
      let c : Cursor := ⟨c.line, c.rest.drop ds.length⟩
      if n ≤ 255 then .ok ([UInt8.ofNat n], c)
      else .error (badEscape "decimal escape too large" (ds.reverse ++ raw) c)
    else
      match Char.ofNat b.toNat with
      | 'a' => plain 7
      | 'b' => plain 8
      | 'f' => plain 12
      | 'n' => plain 10
      | 'r' => plain 13
      | 't' => plain 9
      | 'v' => plain 11
      | '\\' | '"' | '\'' => plain b
      | 'z' => .ok ([], zap (bs.length + 1) after)
      | 'x' => do
        let (h, read, c) ← hexDigit (b :: raw) after
        let (l, _, c) ← hexDigit read c
        return ([UInt8.ofNat (16 * h + l)], c)
      | 'u' =>
        let raw := b :: raw
        match bs with
        | o :: inner =>
          if o = byte '\x7b' then do
            let (h, read, c) ← hexDigit (o :: raw) ⟨c.line, inner⟩
            let (n, read, c) ← moreDigits h read c.line c.rest
            match c.rest with
            | e :: rest =>
              if e = byte '\x7d' then return (codePointBytes n, ⟨c.line, rest⟩)
              else throw (badEscape "missing '\x7d'" read c)
            | [] => throw (badEscape "missing '\x7d'" read c)
          else .error (badEscape "missing '\x7b'" raw after)
        | [] => .error (badEscape "missing '\x7b'" raw after)
      | _ => .error (badEscape "invalid escape sequence" raw c)

/-- A string after its opening quote. `read` holds the quote and the content so far, back to
front. -/
def string (quote : UInt8) : Nat → Bytes → Cursor → Except SyntaxFault (Bytes × Cursor)
  | 0, _, c => .error ⟨c.line, "", none⟩
  | steps + 1, read, c =>
    match c.rest with
    | [] => .error ⟨c.line, "unfinished string", some (Utf8.encode "<eof>")⟩
    | b :: bs =>
      if b = quote then .ok ((b :: read).reverse, ⟨c.line, bs⟩)
      else if isLineEnd b then
        .error ⟨c.line, "unfinished string", some (quoteText read.reverse)⟩
      else if b = byte '\\' then do
        let (out, c) ← escape read ⟨c.line, bs⟩
        string quote steps (out.reverse ++ read) c
      else string quote steps (b :: read) ⟨c.line, bs⟩

/-- The bytes of a numeral: digits, points and exponents, as many as there are. -/
def numeral (hex : Bool) : Nat → Bytes → Bytes × Bytes
  | 0, bs => ([], bs)
  | steps + 1, bs =>
    match bs with
    | [] => ([], [])
    | b :: rest =>
      let isMark :=
        if hex then b = byte 'p' || b = byte 'P' else b = byte 'e' || b = byte 'E'
      if isMark then
        match rest with
        | s :: rest' =>
          if s = byte '+' || s = byte '-' then
            let (ds, r) := numeral hex steps rest'
            (b :: s :: ds, r)
          else
            let (ds, r) := numeral hex steps rest
            (b :: ds, r)
        | [] => ([b], [])
      else if isHexDigit b || b = byte '.' then
        let (ds, r) := numeral hex steps rest
        (b :: ds, r)
      else ([], bs)

/-- The first digit of a numeral, or the `0x` of a hexadecimal one, and the text after it. -/
def numberStart : Bytes → Bytes × Bytes
  | z :: x :: rest =>
    if z = byte '0' && (x = byte 'x' || x = byte 'X') then ([z, x], rest) else ([z], x :: rest)
  | rest => (rest.take 1, rest.drop 1)

/-- A numeral with its bytes; `lead` was read before, and a digit comes next. -/
def number (lead : Bytes) (c : Cursor) : Except SyntaxFault (Token × Bytes × Cursor) :=
  let (start, rest) := numberStart c.rest
  let (ds, rest) := numeral (start.length = 2) (rest.length + 1) rest
  let touching := (rest.take 1).filter isNameStart
  let text := lead ++ start ++ ds ++ touching
  match Number.ofText? text with
  | some n => .ok (.number n, text, ⟨c.line, rest⟩)
  | none => .error ⟨c.line, "malformed number", some (quoteText text)⟩

/-- The token that begins with the byte `b`. -/
def token (b : UInt8) (bs : Bytes) (line : Nat) : Except SyntaxFault (Token × Bytes × Cursor) :=
  let whole := b :: bs
  if isNameStart b then
    let n := whole.takeWhile isNameByte
    let rest := whole.dropWhile isNameByte
    match keywords.find? (fun w => Utf8.encode w = n) with
    | some w => .ok (.keyword w, n, ⟨line, rest⟩)
    | none => .ok (.name n, n, ⟨line, rest⟩)
  else if b = byte '"' || b = byte '\'' then do
    let (text, c) ← string b (bs.length + 1) [b] ⟨line, bs⟩
    return (.string text.tail.dropLast, text, c)
  else if b = byte '[' && (bs.head? = some (byte '[') || bs.head? = some (byte '=')) then
    match Lexeme.level? bs with
    | some level => do
      let (s, c) ← longBracket "string" level ⟨line, bs.drop (level + 1)⟩
      let fence := List.replicate level (byte '=')
      return (.string s,
        byte '[' :: fence ++ byte '[' :: s ++ byte ']' :: fence ++ [byte ']'], c)
    | none =>
      .error ⟨line, "invalid long string delimiter",
        some (quoteText (b :: bs.takeWhile (· = byte '=')))⟩
  else if isDigit b then number [] ⟨line, whole⟩
  else if b = byte '.' && (bs.head?.map isDigit).getD false then number [b] ⟨line, bs⟩
  else
    match longSigns.find? (fun s => (Utf8.encode s).isPrefixOf whole) with
    | some s => .ok (.sign s, [], ⟨line, whole.drop s.length⟩)
    | none =>
      let c := Char.ofNat b.toNat
      if shortSigns.contains c then
        .ok (.sign (String.singleton c), [], ⟨line, bs⟩)
      else .ok (.stray b, [], ⟨line, bs⟩)

/-- All tokens up to the end of the text, or up to a fault. -/
def tokensFrom : Nat → Cursor → List Token.Found × Option SyntaxFault
  | 0, c => ([⟨.eof, [], c.line⟩], none)
  | steps + 1, c =>
    match skip (c.rest.length + 1) c with
    | .error f => ([], some f)
    | .ok c =>
      match c.rest with
      | [] => ([⟨.eof, [], c.line⟩], none)
      | b :: bs =>
        match token b bs c.line with
        | .error f => ([], some f)
        | .ok (t, source, c) =>
          let (ts, f) := tokensFrom steps c
          (⟨t, source, c.line⟩ :: ts, f)

end Lexer

/-- The tokens of a text, the last of them the end, and the fault that cuts them short if any. -/
def tokens (text : Bytes) : List Token.Found × Option SyntaxFault :=
  Lexer.tokensFrom (text.length + 1) ⟨1, text⟩

end UnitCache.Lua
