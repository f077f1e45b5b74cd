import UnitCache.Lua.Token

namespace UnitCache.Lua

inductive BinaryOp where
  | add | sub | mul | mod | pow | div | idiv
  | band | bor | bxor | shl | shr
  | concat
  | eq | ne | lt | le | gt | ge
  deriving DecidableEq, Repr

inductive UnaryOp where
  | neg | not | len | bnot
  deriving DecidableEq, Repr

/-- Where a variable was declared, seen from its use. -/
inductive VariableKind where
  | «local»
  /-- In an enclosing function. -/
  | upvalue
  deriving DecidableEq, Repr

structure Variable where
  kind : VariableKind
  name : Bytes
  index : Nat
  deriving DecidableEq, Repr

/-- What a declaration says of its variable. -/
inductive LocalKind where
  | regular
  /-- Never assigned to. -/
  | const
  /-- Never assigned to, and closed when its scope is left. -/
  | close
  /-- Holds the state of a loop; no name refers to it. -/
  | hidden
  deriving DecidableEq, Repr

/-- A goto or label counts the variables in scope, so that a jump can leave scopes. -/
abbrev Depth := Nat

mutual

inductive Expr where
  | nil
  | true
  | false
  | number (n : Number)
  | string (s : Bytes)
  | vararg
  | function (f : Function)
  | variable (v : Variable)
  | index (object key : Expr) (line : Nat)
  | call (f : Expr) (args : List Expr) (line : Nat)
  | method (object : Expr) (name : Bytes) (args : List Expr) (nameLine line : Nat)
  | binary (op : BinaryOp) (a b : Expr) (line : Nat)
  | and (a b : Expr)
  | or (a b : Expr)
  | unary (op : UnaryOp) (a : Expr) (line : Nat)
  | table (fields : List Field) (line : Nat)
  /-- An expression in parentheses has one value. -/
  | paren (e : Expr)

inductive Field where
  | item (e : Expr)
  | keyed (key value : Expr)

inductive Stmt where
  | locals (kinds : List LocalKind) (names : List Bytes) (values : List Expr) (line : Nat)
  | localFunction (f : Function)
  | assign (targets values : List Expr) (line : Nat)
  | call (e : Expr)
  | block (body : List Stmt)
  | while (cond : Expr) (body : List Stmt)
  | repeat (body : List Stmt) (cond : Expr)
  | branch (cond : Expr) (yes no : List Stmt)
  | numericFor (start limit step : Expr) (body : List Stmt) (line : Nat)
  | genericFor (count : Nat) (values : List Expr) (body : List Stmt) (line : Nat)
  | return (values : List Expr) (line : Nat)
  | break
  | goto (label : Bytes)
  | label (name : Bytes) (depth : Depth)

inductive Function where
  | mk (params : Nat) (isVararg : Bool) (body : List Stmt) (line : Nat)

end

instance : Inhabited Expr := ⟨.nil⟩

instance : Inhabited Function := ⟨.mk 0 false [] 0⟩

end UnitCache.Lua
