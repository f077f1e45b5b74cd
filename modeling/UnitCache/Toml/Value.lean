namespace UnitCache.Toml

inductive TableKind where
  /-- Opened by a header of its own. -/
  | header
  /-- Made on the way to a header below it. -/
  | implied
  /-- Made by a dotted key. -/
  | dotted
  /-- Written in one piece, and closed. -/
  | inline
  deriving DecidableEq, Repr

inductive Value where
  | string (s : String)
  | boolean (b : Bool)
  /-- An integer or a float, as written. -/
  | number (text : String)
  /-- A date, a time or both, as written. -/
  | moment (text : String)
  | array (items : List Value)
  | table (kind : TableKind) (fields : List (String × Value))
  /-- Tables under headers in double brackets. -/
  | tables (elements : List (TableKind × List (String × Value)))
  deriving Repr

abbrev Fields := List (String × Value)

abbrev Table := TableKind × Fields

namespace Table

def replace (k : String) (v : Value) : Fields → Fields
  | [] => []
  | (k', v') :: fs => if k' = k then (k, v) :: fs else (k', v') :: replace k v fs

/-- Changes the table that a path leads to, making those that are missing. With `dotted` only tables
without a header of their own may be passed. -/
def alter (dotted : Bool) (f : Table → Option Table) : List String → Table → Option Table
  | [], t => f t
  | k :: ks, (kind, fields) =>
    match fields.lookup k with
    | none => do
      let (kind', fields') ← alter dotted f ks (if dotted then .dotted else .implied, [])
      return (kind, fields ++ [(k, .table kind' fields')])
    | some (.table kind' fields') =>
      if kind' = .inline || (dotted && kind' = .header) then none
      else do
        let (kind', fields') ← alter dotted f ks (kind', fields')
        return (kind, replace k (.table kind' fields') fields)
    | some (.tables ts) =>
      match ts.reverse with
      | [] => none
      | t :: before => do
        let t ← alter dotted f ks t
        return (kind, replace k (.tables (t :: before).reverse) fields)
    | some _ => none

/-- Adds a field under a key, which may be dotted, in this table. -/
def insert (path : List String) (k : String) (v : Value) (t : Table) : Option Table :=
  alter true
    (fun (kind, fields) =>
      if decide (kind = .dotted) = path.isEmpty then none
      else if (fields.lookup k).isSome then none
      else some (kind, fields ++ [(k, v)]))
    path t

/-- Opens the table of a header. -/
def openHeader (path : List String) (k : String) (t : Table) : Option Table :=
  alter false
    (fun (kind, fields) =>
      match fields.lookup k with
      | none => some (kind, fields ++ [(k, .table .header [])])
      | some (.table .implied fs) => some (kind, replace k (.table .header fs) fields)
      | some _ => none)
    path t

/-- Opens one more table under a header in double brackets. -/
def openElement (path : List String) (k : String) (t : Table) : Option Table :=
  alter false
    (fun (kind, fields) =>
      match fields.lookup k with
      | none => some (kind, fields ++ [(k, .tables [(.header, [])])])
      | some (.tables ts) => some (kind, replace k (.tables (ts ++ [(.header, [])])) fields)
      | some _ => none)
    path t

end Table
end UnitCache.Toml
