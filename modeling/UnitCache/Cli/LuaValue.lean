import UnitCache.Json
import UnitCache.Lua.Library.Arguments

namespace UnitCache.Cli

open Lua

/-- A decimal integer of 64 bits. -/
def integer? (s : Bytes) : Option Int :=
  let (neg, ds) := Number.splitSign s
  if ds ≠ [] && ds.all isDigit then
    let n : Int := Number.digitsValue 10 ds
    let i := if neg then -n else n
    if -Nat.pow 2 63 ≤ i && i < Nat.pow 2 63 then some i else none
  else none

/-- A decimal number, an infinity, or a word for no number. -/
def real? (s : Bytes) : Option Binary64 :=
  let (neg, ds) := Number.splitSign s
  let word := (Utf8.decodeLossy ds).toLower
  if word = "inf" || word = "infinity" then some (.infinity neg)
  else if word = "nan" then some (Binary64.invalid.withSign neg)
  else if (Number.hexDigits? ds).isSome then none
  else Number.float? s

/-- An argument that looks like a number is one; all others are strings. -/
def argumentValue (arg : String) : Value :=
  let s := Utf8.encode arg
  match integer? s with
  | some i => .int i
  | none =>
    match real? s with
    | some x => .float x
    | none => .string s

/-- A value in one piece of text. -/
def describe : Value → String
  | .nil => "nil"
  | .bool b => if b then "true" else "false"
  | .number (.int i) => toString i.toInt
  | .number (.float x) => x.plain
  | .string s => Utf8.decodeLossy s
  | v => "<" ++ v.typeName ++ ">"

/-- A key of a JSON object. -/
def jsonKey? : Value → Option String
  | .string s => (Utf8.decode s).toOption
  | .number (.int i) => some (toString i.toInt)
  | .number (.float x) => x.json?
  | .bool b => some (if b then "true" else "false")
  | _ => none

/-- Fields in the order of their names, of those with one name the last. -/
def sortFields (fs : List (String × Json)) : List (String × Json) :=
  let latest := fs.foldl (fun acc f => acc.filter (fun g => g.1 ≠ f.1) ++ [f]) []
  latest.mergeSort fun f g => !Bytes.less (Utf8.encode g.1) (Utf8.encode f.1)

def jsonText (s : Bytes) : Json :=
  match Utf8.decode s with
  | .ok t => .string t
  | .error _ => .array (s.map fun b => .nat b.toNat)

/-- A value as JSON. Tables that are inside themselves have none, and neither have functions. The
levels are more than there are tables. -/
def json? (w : World) : Nat → List Nat → Value → Option Json
  | 0, _, _ => none
  | levels + 1, outer, v =>
    match v with
    | .nil => some .null
    | .bool b => some (.bool b)
    | .number (.int i) => some (.int i.toInt)
    | .number (.float x) => some ((x.json?.map Json.number).getD .null)
    | .string s => some (jsonText s)
    | .table a =>
      if outer.contains a then none
      else
        let t := w.table a
        let n := t.length
        if 0 < n then
          ((List.range n).mapM fun i => json? w levels (a :: outer) (t.getNat (i + 1))).map .array
        else
          let fields := t.entries.mapM fun (k, v) => do
            return (← jsonKey? k, ← json? w levels (a :: outer) v)
          fields.map fun fs => .object (sortFields fs)
    | _ => none

/-- A value as JSON, or its text if it has no such form. -/
def valueJson (w : World) (v : Value) : Json :=
  (json? w (w.tables.size + 2) [] v).getD (.string (describe v))

end UnitCache.Cli
