import UnitCache.Lua.Count
import UnitCache.Lua.Chunk
import UnitCache.Lua.Operation

namespace UnitCache.Lua

/-- How an expression is named in messages about its value. -/
def Expr.callName : Expr → Option CallName
  | .variable v => some ⟨if v.kind = .local then "local" else "upvalue", v.name⟩
  | .index (.variable v) (.string k) _ =>
    some ⟨if v.name = Utf8.encode "_ENV" then "global" else "field", k⟩
  | .index _ (.string k) _ => some ⟨"field", k⟩
  | .index _ (.number (.int i)) _ =>
    some ⟨"field", Utf8.encode (if 0 ≤ i.toInt && i.toInt ≤ 255 then "integer index" else "?")⟩
  | .index .. => some ⟨"field", Utf8.encode "?"⟩
  | .string s => some ⟨"constant", s⟩
  | .paren e => e.callName
  | _ => none

/-- Whether an expression can have any number of values. -/
def Expr.isMany : Expr → Bool
  | .vararg | .call .. | .method .. => Bool.true
  | _ => Bool.false

/-- The expression with one value. -/
def Expr.one (e : Expr) : Expr := if e.isMany then .paren e else e

/-- The activation of a function: its variables, the innermost first, its further arguments, and the
short name of its chunk. -/
structure Scope where
  env : List Nat
  varargs : List Value
  chunk : Bytes

/-- How a function was called. -/
structure Site where
  /-- The chunk and line of the call, if Lua code makes it. -/
  place : Option (Bytes × Nat)
  name : Option CallName
  /-- How many calls are under way. -/
  depth : Nat := 0
  /-- How many of these were made by library functions and operations. -/
  nesting : Nat := 0

/-- Who carries out a routine: Lua code on a line, or a library function. -/
inductive Runner where
  | code (chunk : Bytes) (line : Nat)
  | library

/-- What is assigned to. -/
inductive Target where
  | variable (cell : Nat)
  | field (object key : Value) (name : Option CallName)

/-- A target before its parts are evaluated. -/
inductive TargetShape where
  | variable (cell : Nat)
  | field (name : Option CallName)

/-- What to do with the values of a list of expressions. -/
inductive Task where
  | binary (op : BinaryOp) (a b : Option CallName) (line : Nat)
  | unary (op : UnaryOp) (a : Option CallName) (line : Nat)
  | index (object : Option CallName) (line : Nat)
  /-- Looks up a method of an object to call it. -/
  | select (object : Option CallName) (name : Bytes) (args : List Expr) (nameLine line : Nat)
  | call (name : Option CallName) (line : Nat)
  /-- Calls in place of the running function. -/
  | tailCall (name : Option CallName) (line : Nat)
  /-- Makes a table; for each field, whether it has a key, and how many come after it. -/
  | construct (keyed : List Bool) (line : Nat)
  /-- Declares variables and goes on with the block. -/
  | declare (kinds : List LocalKind) (names : List Bytes) (whole todo : List Stmt) (line : Nat)
  | assign (targets : List TargetShape) (line : Nat)
  | give
  | branch (yes no : List Stmt)
  | count (body : List Stmt) (line : Nat)
  | each (names : Nat) (body : List Stmt) (line : Nat)

/-- A loop with what it needs to go on. -/
inductive Loop where
  | while (cond : Expr) (body : List Stmt)
  | repeat (body : List Stmt)
  | count (round : Count) (body : List Stmt)
  | each (iterator state control : Value) (names : Nat) (body : List Stmt) (line : Nat)

/-- How a part of the code is left. -/
inductive Exit where
  /-- At its end. -/
  | finished
  | error (v : Value)
  | returning (vs : List Value)
  | breaking
  | jump (label : Bytes)

inductive Frame where
  /-- Evaluates the expressions that are left and hands all values to a task. -/
  | collect (scope : Scope) (task : Task) (done : List Value) (rest : List Expr)
  /-- Gives the value itself if it decides an `and` or `or`, else evaluates the other operand. -/
  | decide (isAnd : Bool) (scope : Scope) (other : Expr)
  | single
  /-- Calls the method that is looked up on an object. -/
  | method (scope : Scope) (object : Value) (name : Bytes) (args : List Expr) (line : Nat)
  | block (scope : Scope) (whole todo : List Stmt)
  /-- Begins a round if the condition holds. -/
  | test (scope : Scope) (cond : Expr) (body : List Stmt)
  /-- Begins the next round after a body. -/
  | loop (scope : Scope) (l : Loop)
  /-- Begins a round with the values of an iterator. -/
  | round (scope : Scope) (iterator state : Value) (names : Nat) (body : List Stmt) (line : Nat)
  | assigning (chunk : Bytes) (line : Nat) (rest : List (Target × Value))
  /-- Returns the values from the function. -/
  | returning
  /-- The end of a function that was called. -/
  | activation (site : Site)
  /-- A routine that waits for an answer. -/
  | answer (runner : Runner) (next : List Value → Routine (List Value))
  /-- A routine that waits for an answer or an error. -/
  | guard (runner : Runner) (handler : Option Value) (next : Bool → List Value → Routine (List Value))
  /-- A routine that waits for a thread. -/
  | resumption (runner : Runner) (next : Bool → List Value → Routine (List Value))
  /-- A value to be closed. -/
  | closing (v : Value) (chunk : Bytes) (line : Nat)
  /-- Goes on leaving after something was closed. -/
  | leaving (exit : Exit)
  /-- Calls a function with the values. -/
  | start (f : Value)

end UnitCache.Lua
