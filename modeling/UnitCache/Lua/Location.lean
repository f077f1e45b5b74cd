import UnitCache.Text.Blank

namespace UnitCache.Lua.Location

/-- A number and what follows its colon, if the text begins with these. -/
def line? (cs : List Char) : Option (Nat × List Char) :=
  let ds := cs.takeWhile Char.isDigit
  match cs.dropWhile Char.isDigit with
  | ':' :: rest =>
    let n := ds.foldl (fun n d => 10 * n + (d.toNat - 48)) 0
    if ds ≠ [] && n < Nat.pow 2 32 then some (n, rest) else none
  | _ => none

/-- The first line number between colons, with the text after it. -/
def find? : List Char → Option (Nat × List Char)
  | [] => none
  | c :: cs =>
    if c = ':' then
      match line? cs with
      | some found => some found
      | none => find? cs
    else find? cs

/-- The line that a message names, and its text from there on. -/
def split (message : String) : Option Nat × String :=
  match find? message.toList with
  | some (n, rest) => (some n, trimBlank (String.ofList rest))
  | none => (none, trimBlank message)

end UnitCache.Lua.Location
