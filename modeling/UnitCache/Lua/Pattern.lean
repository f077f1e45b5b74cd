import UnitCache.Lua.Numeral

namespace UnitCache.Lua.Pattern

/-- The part of the subject that a capture holds; one that is open has no length yet, and one of a
position alone has none at all. -/
inductive Extent where
  | open
  | position
  | length (n : Nat)
  deriving DecidableEq, Repr

structure Capture where
  start : Nat
  extent : Extent
  deriving DecidableEq, Repr

abbrev Captures := List Capture

def maxCaptures : Nat := 32

def isAlpha (b : UInt8) : Bool := isLetter b

def isAlphaNumeric (b : UInt8) : Bool := isLetter b || isDigit b

def isLower (b : UInt8) : Bool := byte 'a' ≤ b && b ≤ byte 'z'

def isUpper (b : UInt8) : Bool := byte 'A' ≤ b && b ≤ byte 'Z'

def isControl (b : UInt8) : Bool := b < 32 || b = 127

def isGraphic (b : UInt8) : Bool := 33 ≤ b && b ≤ 126

def isPunctuation (b : UInt8) : Bool := isGraphic b && !isAlphaNumeric b

def toLower (b : UInt8) : UInt8 := if isUpper b then b + 32 else b

def toUpper (b : UInt8) : UInt8 := if isLower b then b - 32 else b

/-- Whether a byte is in the class of a letter; a capital letter stands for all other bytes. -/
def isInClass (b letter : UInt8) : Bool :=
  let holds : Option Bool :=
    match Char.ofNat (toLower letter).toNat with
    | 'a' => some (isAlpha b)
    | 'c' => some (isControl b)
    | 'd' => some (isDigit b)
    | 'g' => some (isGraphic b)
    | 'l' => some (isLower b)
    | 'p' => some (isPunctuation b)
    | 's' => some (isSpace b)
    | 'u' => some (isUpper b)
    | 'w' => some (isAlphaNumeric b)
    | 'x' => some (isHexDigit b)
    | 'z' => some (b = 0)
    | _ => none
  match holds with
  | some h => if isUpper letter then !h else h
  | none => letter = b

def escape : UInt8 := byte '%'

/-- The length of a set after its opening bracket, the closing one included. -/
def setLength (isFirst : Bool) : Bytes → Except String Nat
  | [] => .error "malformed pattern (missing ']')"
  | b :: bs =>
    if b = byte ']' && !isFirst then .ok 1
    else if b = escape then
      match bs with
      | [] => .error "malformed pattern (missing ']')"
      | _ :: bs => (setLength false bs).map (· + 2)
    else (setLength false bs).map (· + 1)

/-- The length of the single-byte class that a pattern begins with. -/
def classLength : Bytes → Except String Nat
  | [] => .ok 0
  | b :: bs =>
    if b = escape then
      if bs.isEmpty then .error "malformed pattern (ends with '%')" else .ok 2
    else if b = byte '[' then
      match bs with
      | c :: rest =>
        if c = byte '^' then (setLength true rest).map (· + 2) else (setLength true bs).map (· + 1)
      | [] => .error "malformed pattern (missing ']')"
    else .ok 1

/-- Whether a byte is in one of the members of a set, without its brackets. -/
def isInMembers (c : UInt8) : Bytes → Bool
  | [] => false
  | b :: bs =>
    if b = escape then
      match bs with
      | l :: bs => isInClass c l || isInMembers c bs
      | [] => false
    else
      match bs with
      | d :: e :: rest =>
        if d = byte '-' then (b ≤ c && c ≤ e) || isInMembers c rest
        else b = c || isInMembers c (d :: e :: rest)
      | bs => b = c || isInMembers c bs

/-- Whether a byte is in a set with its brackets. -/
def isInSet (c : UInt8) (set : Bytes) : Bool :=
  let inner := set.tail.dropLast
  match inner with
  | n :: members => if n = byte '^' then !isInMembers c members else isInMembers c inner
  | [] => false

/-- Whether a byte is in the single-byte class that is given. -/
def isInSingle (c : UInt8) (cls : Bytes) : Bool :=
  match cls with
  | [b] => b = byte '.' || b = c
  | b :: l :: _ => if b = escape then isInClass c l else isInSet c cls
  | [] => false

/-- The subject of a match. -/
abbrev Subject := Array UInt8

/-- The end of a balanced part from one byte to another. -/
def balanced (s : Subject) (opening closing : UInt8) : Nat → Nat → Nat → Option Nat
  | 0, _, _ => none
  | steps + 1, i, depth =>
    match s[i]? with
    | none => none
    | some b =>
      if b = closing then
        if depth = 1 then some (i + 1) else balanced s opening closing steps (i + 1) (depth - 1)
      else if b = opening then balanced s opening closing steps (i + 1) (depth + 1)
      else balanced s opening closing steps (i + 1) depth

/-- How many bytes from a place on are in a class, up to a limit. -/
def repeats (s : Subject) (cls : Bytes) (i : Nat) : Nat → Nat
  | 0 => 0
  | steps + 1 =>
    match s[i]? with
    | some b => if isInSingle b cls then repeats s cls (i + 1) steps + 1 else 0
    | none => 0

/-- Closes the capture that was opened last; the latest capture is the first of the list. -/
def closeCapture (i : Nat) : Captures → Option Captures
  | [] => none
  | c :: cs =>
    if c.extent = .open then some ({ c with extent := .length (i - c.start) } :: cs)
    else (closeCapture i cs).map (c :: ·)

/-- What a capture that is closed stands for, counted from one: its text, or nothing if it is a
position. -/
def captured? (s : Subject) (cs : Captures) (index : Nat) : Option (Option Bytes) :=
  match if index = 0 then none else cs.reverse[index - 1]? with
  | some ⟨start, .length n⟩ => some (some (s.extract start (start + n)).toList)
  | some ⟨_, .position⟩ => some none
  | _ => none

/-- Where a match ends, with what it captured. -/
abbrev Match := Option (Nat × Captures)

/-- The first of some lengths with which the rest matches. -/
def tryLengths (rest : Nat → Except String Match) (i : Nat) : List Nat → Except String Match
  | [] => .ok none
  | n :: ns => do
    match ← rest (i + n) with
    | some m => return some m
    | none => tryLengths rest i ns

/-- How deep choices and captures of a pattern may nest. -/
def maxNesting : Nat := 200

/-- Matches a pattern from a place on. Each level of the recursion takes some of the pattern, so its
length bounds the levels; `depth` counts the choices and captures on the way. -/
def matchFrom (s : Subject) : (depth levels : Nat) → Bytes → Nat → Captures → Except String Match
  | _, 0, _, i, cs => .ok (some (i, cs))
  | depth, levels + 1, p, i, cs =>
    match p with
    | [] => .ok (some (i, cs))
    | b :: rest =>
      if b = byte '(' then
        let (extent, rest) :=
          match rest with
          | c :: more => if c = byte ')' then (Extent.position, more) else (.open, rest)
          | [] => (.open, rest)
        if maxCaptures ≤ cs.length then .error "too many captures"
        else deeper depth levels rest (⟨i, extent⟩ :: cs) i
      else if b = byte ')' then
        match closeCapture i cs with
        | some cs => deeper depth levels rest cs i
        | none => .error "invalid pattern capture"
      else if b = byte '$' && rest.isEmpty then
        .ok (if i = s.size then some (i, cs) else none)
      else
        match (if b = escape then rest else []) with
        | k :: more =>
          if k = byte 'b' then
            match more with
            | o :: c :: more =>
              if s[i]? = some o then
                match balanced s o c s.size (i + 1) 1 with
                | some j => matchFrom s depth levels more j cs
                | none => .ok none
              else .ok none
            | _ => .error "malformed pattern (missing arguments to '%b')"
          else if k = byte 'f' then
            if more.head? ≠ some (byte '[') then .error "missing '[' after '%f' in pattern"
            else do
              let n ← classLength more
              let set := more.take n
              let before := if i = 0 then 0 else s[i - 1]?.getD 0
              if !isInSet before set && isInSet (s[i]?.getD 0) set then
                matchFrom s depth levels (more.drop n) i cs
              else return none
          else if isDigit k then
            let index := k.toNat - 48
            match captured? s cs index with
            | some none => .ok none
            | some (some t) =>
              if (s.extract i (i + t.length)).toList = t then
                matchFrom s depth levels more (i + t.length) cs
              else .ok none
            | none => .error ("invalid capture index %" ++ toString index)
          else single depth levels p i cs
        | [] => single depth levels p i cs
where
  /-- Matches what is left behind a choice or the edge of a capture. -/
  deeper (depth levels : Nat) (p : Bytes) (cs : Captures) (i : Nat) : Except String Match :=
    if maxNesting ≤ depth then .error "pattern too complex"
    else matchFrom s (depth + 1) levels p i cs
  /-- A single-byte class with how often it is to match. -/
  single (depth levels : Nat) (p : Bytes) (i : Nat) (cs : Captures) : Except String Match := do
    let n ← classLength p
    let cls := p.take n
    let after := p.drop n
    let here : Bool :=
      match s[i]? with
      | some c => isInSingle c cls
      | none => false
    match after with
    | q :: rest =>
      if q = byte '?' then
        if here then
          match ← deeper depth levels rest cs (i + 1) with
          | some m => return some m
          | none => matchFrom s depth levels rest i cs
        else matchFrom s depth levels rest i cs
      else if q = byte '*' || q = byte '+' then
        let most := repeats s cls i s.size
        let lengths := (List.range (most + 1)).reverse
        tryLengths (deeper depth levels rest cs) i
          (if q = byte '+' then lengths.filter (· ≠ 0) else lengths)
      else if q = byte '-' then
        tryLengths (deeper depth levels rest cs) i
          (List.range (repeats s cls i s.size + 1))
      else if here then matchFrom s depth levels after (i + 1) cs
      else return none
    | [] => if here then return some (i + 1, cs) else return none

/-- Matches a pattern at a place. -/
def matchAt (s : Subject) (p : Bytes) (i : Nat) : Except String Match :=
  matchFrom s 1 (p.length + 1) p i []

/-- The first match at a place or after it: where it begins and ends, and its captures. An anchored
pattern matches at the place alone. -/
def findFrom (s : Subject) (p : Bytes) (anchored : Bool) :
    Nat → Nat → Except String (Option (Nat × Nat × Captures))
  | 0, _ => .ok none
  | steps + 1, i => do
    match ← matchAt s p i with
    | some (j, cs) => return some (i, j, cs)
    | none => if anchored || s.size ≤ i then return none else findFrom s p anchored steps (i + 1)

/-- A pattern without its anchor, and whether it has one. -/
def splitAnchor : Bytes → Bool × Bytes
  | b :: bs => if b = byte '^' then (true, bs) else (false, b :: bs)
  | [] => (false, [])

end UnitCache.Lua.Pattern
