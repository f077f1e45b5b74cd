import UnitCache.Lua.Tree

namespace UnitCache.Lua

structure Declared where
  name : Bytes
  kind : LocalKind
  deriving Repr

def Declared.hidden (d : Declared) : Bool := d.kind = .hidden

structure Label where
  name : Bytes
  line : Nat
  /-- How many variables of the function are active at it. -/
  active : Nat
  deriving Repr

structure PendingGoto where
  name : Bytes
  line : Nat
  active : Nat
  deriving Repr

structure BlockScope where
  isLoop : Bool
  /-- How many variables of the function are active outside of it. -/
  active : Nat
  labels : List Label := []
  /-- Jumps to labels that were not there yet, in order. -/
  pending : List PendingGoto := []
  deriving Repr

structure FunctionScope where
  /-- Active variables, the latest first. -/
  inScope : List Declared := []
  blocks : List BlockScope := []
  isVararg : Bool
  /-- The variables of enclosing functions that it uses, each once. -/
  upvalues : List (Nat × Nat) := []
  line : Nat
  deriving Repr

namespace FunctionScope

/-- How many variables have a place at run time. -/
def visible (f : FunctionScope) : Nat := f.inScope.countP (fun d => !d.hidden)

/-- The latest variable of a name, with the number of visible ones declared after it. -/
def find? (name : Bytes) (before : Nat) : List Declared → Option (Nat × Declared)
  | [] => none
  | d :: ds =>
    if !d.hidden && d.name = name then some (before, d)
    else find? name (if d.hidden then before else before + 1) ds

end FunctionScope

/-- A variable found: how many functions out, its place, and its declaration. -/
structure Resolved where
  level : Nat
  index : Nat
  /-- Its place among the variables of its own function, from the outside in. -/
  position : Nat
  declared : Declared

/-- Looks for a variable in the functions from the inside out. -/
def resolve (name : Bytes) (level before : Nat) : List FunctionScope → Option Resolved
  | [] => none
  | f :: fs =>
    match FunctionScope.find? name 0 f.inScope with
    | some (n, d) => some ⟨level, before + n, f.visible - n, d⟩
    | none => resolve name (level + 1) (before + f.visible) fs

/-- Notes that the functions inside the one that declares a variable use it. -/
def noteUpvalue (level position : Nat) (depth : Nat) : List FunctionScope → List FunctionScope
  | [] => []
  | f :: fs =>
    if level = 0 then f :: fs
    else
      let use := (depth - level, position)
      let f := if f.upvalues.contains use then f else { f with upvalues := use :: f.upvalues }
      f :: noteUpvalue (level - 1) position (depth - 1) fs

end UnitCache.Lua
