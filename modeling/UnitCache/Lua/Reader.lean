import UnitCache.Lua.Lexer
import UnitCache.Lua.Scope

namespace UnitCache.Lua

/-- Why a text cannot be read as a chunk. -/
inductive ParseFault where
  | malformed (fault : SyntaxFault)
  /-- It is nested too deeply. -/
  | tooDeep
  deriving DecidableEq, Repr

structure ReadState where
  current : Token.Found
  rest : List Token.Found
  /-- What cuts the tokens short. -/
  fault : Option SyntaxFault
  /-- The line of the token before the current one. -/
  lastLine : Nat := 1
  depth : Nat := 0
  /-- Open functions, the innermost first. -/
  functions : List FunctionScope

/-- A part of reading a chunk. -/
abbrev Read (α : Type) := StateT ReadState (Except ParseFault) α

namespace Read

def maxDepth : Nat := 200

def maxVariables : Nat := 200

def maxUpvalues : Nat := 255

def token : Read Token := do return (← get).current.token

def line : Read Nat := do return (← get).current.line

/-- Goes on to the next token. The end of the text stays where it is. -/
def advance : Read Unit := do
  let s ← get
  match s.rest with
  | t :: ts => set { s with current := t, rest := ts, lastLine := s.current.line }
  | [] =>
    match s.fault with
    | some f => throw (.malformed f)
    | none => set { s with lastLine := s.current.line }

/-- The token after the current one. -/
def peek : Read Token := do
  let s ← get
  match s.rest, s.fault with
  | t :: _, _ => return t.token
  | [], some f => throw (.malformed f)
  | [], none => return .eof

/-- A fault that is reported at the current token. -/
def failNear {α : Type} (message : String) : Read α := do
  let s ← get
  throw (.malformed ⟨s.current.line, message, some s.current.shown⟩)

/-- A fault of meaning, which no token shows. -/
def failPlain {α : Type} (message : String) : Read α := do
  throw (.malformed ⟨← line, message, none⟩)

def wants {α : Type} (t : Token) : Read α := failNear (t.wanted ++ " expected")

def isNext (t : Token) : Read Bool := do return (← token) = t

def accept (t : Token) : Read Bool := do
  if (← token) = t then advance; return true
  else return false

def expect (t : Token) : Read Unit := do
  if !(← accept t) then wants t

def keyword (w : String) : Token := .keyword w

def sign (s : String) : Token := .sign s

/-- The token that closes what another one opened on a line. -/
def expectClosing (closing opening : Token) (opened : Nat) : Read Unit := do
  if !(← accept closing) then
    if opened = (← line) then wants closing
    else
      failNear (closing.wanted ++ " expected (to close " ++ opening.wanted ++ " at line " ++
        toString opened ++ ")")

def name : Read Bytes := do
  match ← token with
  | .name n => advance; return n
  | _ => wants (.name [])

/-- Reads something one level deeper. -/
def deeper {α : Type} (r : Read α) : Read α := do
  if maxDepth ≤ (← get).depth + 1 then throw .tooDeep
  modify fun s => { s with depth := s.depth + 1 }
  let a ← r
  modify fun s => { s with depth := s.depth - 1 }
  return a

def scope : Read FunctionScope := do
  return (← get).functions.head?.getD { isVararg := false, line := 0 }

def alterScope (f : FunctionScope → FunctionScope) : Read Unit :=
  modify fun s =>
    match s.functions with
    | g :: gs => { s with functions := f g :: gs }
    | [] => s

/-- A limit of the innermost function is passed. -/
def tooMany {α : Type} (what : String) (limit functionLine : Nat) : Read α :=
  let place := if functionLine = 0 then "main function" else "function at line " ++ toString functionLine
  failNear ("too many " ++ what ++ " (limit is " ++ toString limit ++ ") in " ++ place)

/-- Makes sure that there is room for one more variable, with some declared but not yet active. -/
def checkRoom (declared : Nat) : Read Unit := do
  let f ← scope
  if maxVariables < f.inScope.length + declared + 1 then
    tooMany "local variables" maxVariables f.line

/-- Makes declared variables active, in order. -/
def activate (ds : List Declared) : Read Unit :=
  alterScope fun f => { f with inScope := ds.reverse ++ f.inScope }

/-- Declares the hidden variables of a loop. -/
def declareHidden (count declared : Nat) : Read Unit := do
  checkRoom (declared + count - 1)

def environmentName : Bytes := Utf8.encode "_ENV"

def noteUse (level position : Nat) : Read Unit := do
  let s ← get
  let fs := noteUpvalue level position s.functions.length s.functions
  set { s with functions := fs }
  match fs.find? (fun f => maxUpvalues < f.upvalues.length) with
  | some f => tooMany "upvalues" maxUpvalues f.line
  | none => return

/-- The variable that holds the globals, or another one of its name. -/
def environmentVariable : Read Expr := do
  let fs := (← get).functions
  match resolve environmentName 0 0 fs with
  | some r =>
    noteUse r.level r.position
    return .variable ⟨if r.level = 0 then .local else .upvalue, environmentName, r.index⟩
  | none =>
    noteUse fs.length 0
    return .variable ⟨.upvalue, environmentName, (fs.map FunctionScope.visible).foldl (· + ·) 0⟩

/-- What a name stands for: a variable, or else a global. -/
def named (n : Bytes) (line : Nat) : Read Expr := do
  match resolve n 0 0 (← get).functions with
  | some r =>
    noteUse r.level r.position
    return .variable ⟨if r.level = 0 then .local else .upvalue, n, r.index⟩
  | none => return .index (← environmentVariable) (.string n) line

/-- Refuses an assignment to a variable that keeps its value. -/
def checkAssignable (e : Expr) : Read Unit := do
  match e with
  | .variable v =>
    match resolve v.name 0 0 (← get).functions with
    | some r =>
      if r.declared.kind ≠ .regular then
        failPlain ("attempt to assign to const variable '" ++ Utf8.decodeLossy v.name ++ "'")
    | none => return
  | _ => return

def openBlock (isLoop : Bool) : Read Unit :=
  alterScope fun f => { f with blocks := { isLoop, active := f.inScope.length } :: f.blocks }

def alterBlock (g : BlockScope → BlockScope) : Read Unit :=
  alterScope fun f =>
    match f.blocks with
    | b :: bs => { f with blocks := g b :: bs }
    | [] => f

/-- A jump may not enter the scope of a variable. -/
def checkJump (f : FunctionScope) (labelActive : Nat) (g : PendingGoto) : Read Unit := do
  if g.active < labelActive then
    let entered := (f.inScope.reverse[g.active]?.map Declared.name).getD []
    failPlain ("<goto " ++ Utf8.decodeLossy g.name ++ "> at line " ++ toString g.line ++
      " jumps into the scope of local '" ++ Utf8.decodeLossy entered ++ "'")

def breakName : Bytes := Utf8.encode "break"

/-- Declares a label in the innermost block, where pending jumps find it. A label at the end of a
block stands outside the scope of its variables. -/
def addLabel (n : Bytes) (labelLine : Nat) (atEnd : Bool) : Read Depth := do
  let f ← scope
  match f.blocks with
  | [] => return 0
  | b :: bs =>
    let active := if atEnd then b.active else f.inScope.length
    let (mine, others) := b.pending.partition (fun g => g.name = n)
    mine.forM (checkJump f active)
    let b := { b with labels := ⟨n, labelLine, active⟩ :: b.labels, pending := others }
    alterScope fun f => { f with blocks := b :: bs }
    let inner := f.inScope.take (f.inScope.length - active)
    let outside := ((← get).functions.map FunctionScope.visible).foldl (· + ·) 0
    return outside - inner.countP (fun d => !d.hidden)

def addGoto (n : Bytes) (gotoLine : Nat) : Read Unit := do
  let f ← scope
  alterBlock fun b => { b with pending := b.pending ++ [⟨n, gotoLine, f.inScope.length⟩] }

def findLabel? (n : Bytes) (f : FunctionScope) : Option Label :=
  f.blocks.findSome? (fun b => b.labels.find? (fun l => l.name = n))

/-- A jump that finds no label. -/
def failGoto {α : Type} (g : PendingGoto) : Read α :=
  if g.name = breakName then
    failPlain ("break outside loop at line " ++ toString g.line)
  else
    failPlain ("no visible label '" ++ Utf8.decodeLossy g.name ++ "' for <goto> at line " ++
      toString g.line)

/-- Leaves a block: its variables go, its loop ends its breaks, and other jumps that still wait go
on waiting outside of it. -/
def closeBlock : Read Unit := do
  let f ← scope
  match f.blocks with
  | [] => return
  | b :: bs =>
    let pending := if b.isLoop then b.pending.filter (fun g => g.name ≠ breakName) else b.pending
    let inScope := f.inScope.drop (f.inScope.length - b.active)
    match bs with
    | [] =>
      match pending with
      | g :: _ => failGoto g
      | [] => alterScope fun f => { f with inScope, blocks := [] }
    | outer :: bs =>
      let moved := pending.map (fun g => { g with active := min g.active b.active })
      alterScope fun f =>
        { f with inScope, blocks := { outer with pending := outer.pending ++ moved } :: bs }

def openFunction (isVararg : Bool) (functionLine : Nat) : Read Unit := do
  modify fun s => { s with functions := { isVararg, line := functionLine } :: s.functions }
  openBlock false

def closeFunction : Read Unit := do
  closeBlock
  modify fun s => { s with functions := s.functions.tail }

end Read
end UnitCache.Lua
