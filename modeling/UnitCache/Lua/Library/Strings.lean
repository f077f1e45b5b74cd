import UnitCache.Lua.Format
import UnitCache.Lua.Library.Arguments
import UnitCache.Lua.Pattern

namespace UnitCache.Lua.Strings

open Routine

/-- A start position as a number from one upward. -/
def startAt (i : Int) (length : Nat) : Nat :=
  if 0 < i then i.toNat else if i = 0 then 1 else if i < -length then 1 else (length + i + 1).toNat

/-- An end position, which may be zero. -/
def endAt (i : Int) (length : Nat) : Nat :=
  if (length : Int) < i then length
  else if 0 ≤ i then i.toNat
  else if i < -length then 0
  else (length + i + 1).toNat

def length (a : Arguments) : Routine (List Value) := do return [.nat (← a.bytes 1).length]

def sub (a : Arguments) : Routine (List Value) := do
  let s ← a.bytes 1
  let i := startAt (← a.int 2) s.length
  let j := endAt (← a.intOr 3 (-1)) s.length
  return [.string ((s.take j).drop (i - 1))]

def upper (a : Arguments) : Routine (List Value) := do
  return [.string ((← a.bytes 1).map Pattern.toUpper)]

def lower (a : Arguments) : Routine (List Value) := do
  return [.string ((← a.bytes 1).map Pattern.toLower)]

def reverse (a : Arguments) : Routine (List Value) := do return [.string (← a.bytes 1).reverse]

def maxSize : Nat := Nat.pow 2 31

def repeated (a : Arguments) : Routine (List Value) := do
  let s ← a.bytes 1
  let n ← a.int 2
  let sep ← a.bytesOr 3 []
  if n ≤ 0 then return [.string []]
  if maxSize ≤ (s.length + sep.length) * n.toNat then fail "resulting string too large"
  return [.string (List.intersperse sep (List.replicate n.toNat s)).flatten]

def byteValues (a : Arguments) : Routine (List Value) := do
  let s ← a.bytes 1
  let first ← a.intOr 2 1
  let i := startAt first s.length
  let j := endAt (← a.intOr 3 first) s.length
  return ((s.take j).drop (i - 1)).map fun b => .nat b.toNat

def ofBytes (a : Arguments) : Routine (List Value) := do
  let mut bs : Bytes := []
  for i in List.range a.count do
    let n ← a.int (i + 1)
    a.check (0 ≤ n && n ≤ 255) (i + 1) "value out of range"
    bs := UInt8.ofNat n.toNat :: bs
  return [.string bs.reverse]

def controlEscape (b : UInt8) (beforeDigit : Bool) : Bytes :=
  let ds := Number.asciiBytes (toString b.toNat)
  byte '\\' :: (if beforeDigit then Directive.zeros (3 - ds.length) ++ ds else ds)

/-- A string as Lua text. -/
def quoted : Bytes → Bytes
  | [] => []
  | b :: bs =>
    let head : Bytes :=
      if b = byte '"' || b = byte '\\' || b = byte '\n' then [byte '\\', b]
      else if Pattern.isControl b then controlEscape b ((bs.head?.map isDigit).getD false)
      else [b]
    head ++ quoted bs

/-- A float as Lua text that reads back as it. -/
def floatLiteral (x : Binary64) : Bytes :=
  match x.parts with
  | .nan _ => Number.asciiBytes "(0/0)"
  | .infinite s => Number.asciiBytes (if s then "-1e9999" else "1e9999")
  | .finite .. => Directive.float ⟨[], [], 0, none, byte 'a'⟩ x

def literal (a : Arguments) (i : Nat) : Routine Bytes :=
  match a.get i with
  | .string s => return byte '"' :: quoted s ++ [byte '"']
  | .number (.int n) =>
    return Number.asciiBytes (if n = Int64.minValue then "0x8000000000000000" else toString n.toInt)
  | .number (.float x) => return floatLiteral x
  | .nil => return Number.asciiBytes "nil"
  | .bool b => return Number.asciiBytes (if b then "true" else "false")
  | _ => a.refuseText i "value has no literal form"

/-- Reads the directive for an argument. -/
def directive (source : Bytes) (allowed : String) (withPrecision : Bool) : Routine Directive :=
  match Directive.read? source (Number.asciiBytes allowed) withPrecision with
  | some d => return d
  | none =>
    failBytes (Number.asciiBytes "invalid conversion specification: '%" ++ source ++
      Number.asciiBytes "'")

/-- The text of an argument in the form of a directive. -/
def formatOne (a : Arguments) (i : Nat) (source : Bytes) : Routine Bytes := do
  let invalid : Routine Bytes :=
    failBytes (Number.asciiBytes "invalid conversion '%" ++ source ++ Number.asciiBytes "' to 'format'")
  match source.getLast?.map fun b => Char.ofNat b.toNat with
  | some 'c' =>
    let d ← directive source "-" false
    return d.pad [UInt8.ofNat ((← a.int i) % 256).toNat]
  | some 'd' | some 'i' =>
    let n ← a.int i
    return (← directive source "-+0 " true).signed n
  | some 'u' =>
    let n ← a.int i
    return (← directive source "-0" true).unsigned 10 n
  | some 'o' =>
    let n ← a.int i
    return (← directive source "-#0" true).unsigned 8 n
  | some 'x' | some 'X' =>
    let n ← a.int i
    return (← directive source "-#0" true).unsigned 16 n
  | some 'a' | some 'A' =>
    let d ← directive source "-+ #0" true
    return d.float (← a.number i).toFloat
  | some 'f' | some 'e' | some 'E' | some 'g' | some 'G' =>
    let x := (← a.number i).toFloat
    return (← directive source "-+ #0" true).float x
  | some 'p' =>
    let d ← directive source "-" false
    let shown :=
      match a.get i with
      | .table n => Operation.addressText 1 n
      | .function n => Operation.addressText 2 n
      | .thread n => Operation.addressText 3 n
      | .file n => Operation.addressText 4 n
      | _ => "(null)"
    return d.pad (Number.asciiBytes shown)
  | some 'q' =>
    if source.length ≠ 1 then fail "specifier '%q' cannot have modifiers" else literal a i
  | some 's' =>
    let s ← Operation.text (a.get i)
    if source.length = 1 then return s
    a.check (!s.contains 0) i "string contains zeros"
    let d ← directive source "-" true
    return if d.precision.isNone && 100 ≤ s.length then s else d.text s
  | _ => invalid

/-- The text that a format makes of the arguments from one on. -/
def formatFrom (a : Arguments) : Nat → Bytes → Nat → Routine Bytes
  | 0, _, _ => return []
  | steps + 1, bs, i =>
    match bs with
    | [] => return []
    | b :: rest =>
      if b ≠ Pattern.escape then do return b :: (← formatFrom a steps rest i)
      else if rest.head? = some Pattern.escape then do
        return b :: (← formatFrom a steps rest.tail i)
      else if a.count < i then a.refuseText i "no value"
      else do
        let source := Directive.sourceOf rest
        if 22 ≤ source.length then fail "invalid format string to 'format'"
        let s ← formatOne a i source
        return s ++ (← formatFrom a steps (rest.drop source.length) (i + 1))

def format (a : Arguments) : Routine (List Value) := do
  let f ← a.bytes 1
  return [.string (← formatFrom a (f.length + 1) f 2)]

/-- The value of a capture. -/
def captureValue (s : Pattern.Subject) (c : Pattern.Capture) : Routine Value :=
  match c.extent with
  | .open => fail "unfinished capture"
  | .position => return .nat (c.start + 1)
  | .length n => return .string (s.extract c.start (c.start + n)).toList

def captureValues (s : Pattern.Subject) (cs : Pattern.Captures) : Routine (List Value) :=
  cs.reverse.mapM (captureValue s)

/-- All captures, or the whole match if there are none. -/
def captures (s : Pattern.Subject) (i j : Nat) (cs : Pattern.Captures) : Routine (List Value) :=
  if cs.isEmpty then return [.string (s.extract i j).toList] else captureValues s cs

def ofMatch {α : Type} : Except String α → Routine α
  | .ok r => return r
  | .error message => fail message

def specials : Bytes := Number.asciiBytes "^$*+?.([%-"

/-- The first place at or after one where a text is found. -/
def findPlain (s p : Bytes) (i : Nat) : Option Nat :=
  if p.isPrefixOf s then some i
  else
    match s with
    | [] => none
    | _ :: s => findPlain s p (i + 1)

def search (isFind : Bool) (a : Arguments) : Routine (List Value) := do
  let s ← a.bytes 1
  let p ← a.bytes 2
  let i := startAt (← a.intOr 3 1) s.length - 1
  if s.length < i then return [.nil]
  if isFind && ((a.get 4).isTrue || !p.any specials.contains) then
    match findPlain (s.drop i) p i with
    | some i => return [.nat (i + 1), .nat (i + p.length)]
    | none => return [.nil]
  else
    let subject := s.toArray
    let (anchored, p) := Pattern.splitAnchor p
    match ← ofMatch (Pattern.findFrom subject p anchored (s.length + 1) i) with
    | none => return [.nil]
    | some (i, j, cs) =>
      if isFind then return [.nat (i + 1), .nat j] ++ (← captureValues subject cs)
      else captures subject i j cs

def find : Native := search true

def matching : Native := search false

/-- An iterator over all matches; a table holds where it goes on and where the last match ended. -/
def allMatches (a : Arguments) : Routine (List Value) := do
  let s ← a.bytes 1
  let p ← a.bytes 2
  let i := startAt (← a.intOr 3 1) s.length - 1
  let state ← newList [.nat i, .int (-1)]
  return [← newFunction (.native "gmatch.next" [.string s, .string p, state])]

/-- The first match that does not end where the last one did. -/
def nextMatch (s : Pattern.Subject) (p : Bytes) (last : Int) :
    Nat → Nat → Except String (Option (Nat × Nat × Pattern.Captures))
  | 0, _ => .ok none
  | steps + 1, i => do
    if s.size < i then return none
    match ← Pattern.matchAt s p i with
    | some (j, cs) => if (j : Int) = last then nextMatch s p last steps (i + 1) else return some (i, j, cs)
    | none => nextMatch s p last steps (i + 1)

def allMatchesNext (a : Arguments) : Routine (List Value) := do
  match a.captured with
  | [.string s, .string p, .table state] =>
    let places ← askAll fun w => [(w.table state).getNat 1, (w.table state).getNat 2]
    match places with
    | [.number (.int i), .number (.int last)] =>
      let subject := s.toArray
      match ← ofMatch (nextMatch subject p last.toInt (s.length + 2) i.toInt.toNat) with
      | none => return [.nil]
      | some (i, j, cs) =>
        change (·.alterTable state fun t => (t.setNat 1 (.nat j)).setNat 2 (.nat j))
        captures subject i j cs
    | _ => return [.nil]
  | _ => return [.nil]

/-- What replaces a match, as a text with marks for captures says. -/
def expand (s : Pattern.Subject) (i j : Nat) (cs : Pattern.Captures) : Nat → Bytes → Routine Bytes
  | 0, _ => return []
  | steps + 1, r =>
    match r with
    | [] => return []
    | b :: rest =>
      if b ≠ Pattern.escape then do return b :: (← expand s i j cs steps rest)
      else
        match rest with
        | k :: rest =>
          if k = Pattern.escape then do return k :: (← expand s i j cs steps rest)
          else if k = byte '0' then do
            return (s.extract i j).toList ++ (← expand s i j cs steps rest)
          else if isDigit k then do
            let index := k.toNat - 48
            let v ←
              match cs.reverse[index - 1]? with
              | some c => captureValue s c
              | none =>
                if index = 1 && cs.isEmpty then pure (.string (s.extract i j).toList)
                else fail ("invalid capture index %" ++ toString index ++ " in replacement string")
            return (v.toText?.getD []) ++ (← expand s i j cs steps rest)
          else fail "invalid use of '%' in replacement string"
        | [] => fail "invalid use of '%' in replacement string"

/-- What replaces a match. -/
def replacement (s : Pattern.Subject) (i j : Nat) (cs : Pattern.Captures) (r : Value) :
    Routine Bytes := do
  let whole := (s.extract i j).toList
  let v ←
    match r with
    | .table _ =>
      let k := Value.first (← captures s i j cs)
      Operation.index r k none
    | .function _ => callFirst r (← captures s i j cs) none
    | _ =>
      let t := r.toText?.getD []
      pure (.string (← expand s i j cs (t.length + 1) t))
  if !v.isTrue then return whole
  match v.toText? with
  | some t => return t
  | none => fail ("invalid replacement value (a " ++ v.typeName ++ ")")

/-- The subject from a place on with matches replaced, at most so many, and how many were. -/
def replaceFrom (s : Pattern.Subject) (p : Bytes) (anchored : Bool) (r : Value) (most : Nat) :
    Nat → Nat → Option Nat → Nat → Routine (Bytes × Nat)
  | 0, _, _, count => return ([], count)
  | steps + 1, i, last, count => do
    let rest : Bytes := (s.extract i s.size).toList
    if most ≤ count then return (rest, count)
    match ← ofMatch (Pattern.matchAt s p i) with
    | some (j, cs) =>
      if some j ≠ last then
        let t ← replacement s i j cs r
        if anchored then return (t ++ (s.extract j s.size).toList, count + 1)
        let (more, count) ← replaceFrom s p anchored r most steps j (some j) (count + 1)
        return (t ++ more, count)
      else skip steps i last count rest
    | none => skip steps i last count rest
where
  /-- Leaves one byte as it is. -/
  skip (steps i : Nat) (last : Option Nat) (count : Nat) (rest : Bytes) : Routine (Bytes × Nat) := do
    match rest with
    | b :: _ =>
      if anchored then return (rest, count)
      let (more, count) ← replaceFrom s p anchored r most steps (i + 1) last count
      return (b :: more, count)
    | [] => return ([], count)

def replace (a : Arguments) : Routine (List Value) := do
  let s ← a.bytes 1
  let p ← a.bytes 2
  let r ←
    match a.get 3 with
    | .string t => pure (.string t)
    | .number n => pure (.string (Number.asciiBytes n.text))
    | .table t => pure (.table t)
    | .function f => pure (.function f)
    | _ => a.refuseType 3 "string/function/table"
  let most ← a.intOr 4 (s.length + 1)
  let (anchored, p) := Pattern.splitAnchor p
  let (out, n) ← replaceFrom s.toArray p anchored r most.toNat (2 * s.length + 2) 0 none 0
  return [.string out, .nat n]

def dump (a : Arguments) : Routine (List Value) := do
  let _ ← a.functionValue 1
  fail "unable to dump given function"

/-- An operation on operands that are numbers or texts of numbers. -/
def arithmetic (op : BinaryOp) (event : String) (a : Arguments) : Routine (List Value) := do
  let x := a.get 1
  let y := a.get 2
  match x.toNumber?, y.toNumber? with
  | some m, some n =>
    match Number.arithmetic op m n with
    | .ok r => return [.number r]
    | .error message => failWith message
  | _, _ =>
    let handler ←
      match y with
      | .string _ => pure .nil
      | _ => metafield y ("__" ++ event)
    if handler = .nil then
      fail ("attempt to " ++ event ++ " a '" ++ x.typeName ++ "' with a '" ++ y.typeName ++ "'")
    else return [← callFirst handler [x, y] none]

def negate (a : Arguments) : Routine (List Value) := do
  match (a.get 1).toNumber? with
  | some n => return [.number n.neg]
  | none => arithmetic .sub "unm" a

def functions : List (String × Native) :=
  [("byte", byteValues), ("char", ofBytes), ("dump", dump), ("find", find), ("format", format),
    ("gmatch", allMatches), ("gsub", replace), ("len", length), ("lower", lower), ("match", matching),
    ("rep", repeated), ("reverse", reverse), ("sub", sub), ("upper", upper)]

/-- The metamethods of strings. -/
def metamethods : List (String × Native) :=
  [("__add", arithmetic .add "add"), ("__sub", arithmetic .sub "sub"),
    ("__mul", arithmetic .mul "mul"), ("__mod", arithmetic .mod "mod"),
    ("__pow", arithmetic .pow "pow"), ("__div", arithmetic .div "div"),
    ("__idiv", arithmetic .idiv "idiv"), ("__unm", negate)]

def hidden : List (String × Native) := [("gmatch.next", allMatchesNext)]

end UnitCache.Lua.Strings
