import UnitCache.Lua.Reader

namespace UnitCache.Lua

namespace Read

/-- How strongly an operator binds to its left and to its right. -/
def priority : BinaryOp → Nat × Nat
  | .add | .sub => (10, 10)
  | .mul | .mod | .div | .idiv => (11, 11)
  | .pow => (14, 13)
  | .concat => (9, 8)
  | .shl | .shr => (7, 7)
  | .band => (6, 6)
  | .bxor => (5, 5)
  | .bor => (4, 4)
  | .eq | .ne | .lt | .le | .gt | .ge => (3, 3)

/-- The operator that a token is between two expressions, with its priorities. -/
inductive Infix where
  | op (o : BinaryOp)
  | and
  | or

def Infix.priority : Infix → Nat × Nat
  | .op o => Read.priority o
  | .and => (2, 2)
  | .or => (1, 1)

def infixOf : Token → Option Infix
  | .keyword "and" => some .and
  | .keyword "or" => some .or
  | .sign s =>
    match s with
    | "+" => some (.op .add)
    | "-" => some (.op .sub)
    | "*" => some (.op .mul)
    | "%" => some (.op .mod)
    | "^" => some (.op .pow)
    | "/" => some (.op .div)
    | "//" => some (.op .idiv)
    | "&" => some (.op .band)
    | "|" => some (.op .bor)
    | "~" => some (.op .bxor)
    | "<<" => some (.op .shl)
    | ">>" => some (.op .shr)
    | ".." => some (.op .concat)
    | "==" => some (.op .eq)
    | "~=" => some (.op .ne)
    | "<" => some (.op .lt)
    | "<=" => some (.op .le)
    | ">" => some (.op .gt)
    | ">=" => some (.op .ge)
    | _ => none
  | _ => none

def Infix.join (i : Infix) (a b : Expr) (line : Nat) : Expr :=
  match i with
  | .op o => .binary o a b line
  | .and => .and a b
  | .or => .or a b

def unaryOf : Token → Option UnaryOp
  | .keyword "not" => some .not
  | .sign "-" => some .neg
  | .sign "~" => some .bnot
  | .sign "#" => some .len
  | _ => none

def unaryPriority : Nat := 12

/-- Whether a block ends before a token. -/
def endsBlock (withUntil : Bool) : Token → Bool
  | .eof => true
  | .keyword w => w = "else" || w = "elseif" || w = "end" || (withUntil && w = "until")
  | _ => false

/-- What may follow the name of a variable in its declaration. -/
def localKind : Read LocalKind := do
  if ← accept (sign "<") then
    let n ← name
    expect (sign ">")
    if n = Utf8.encode "const" then return .const
    else if n = Utf8.encode "close" then return .close
    else failPlain ("unknown attribute '" ++ Utf8.decodeLossy n ++ "'")
  else return .regular

/-- The names of a declaration with what is said of them. -/
def localNames : Nat → List Declared → Read (List Declared)
  | 0, ds => return ds
  | steps + 1, ds => do
    let n ← name
    checkRoom ds.length
    let kind ← localKind
    if kind = .close && ds.any (fun d => d.kind = .close) then
      failPlain "multiple to-be-closed variables in local list"
    let ds := ds ++ [⟨n, kind⟩]
    if ← accept (sign ",") then localNames steps ds else return ds

/-- Parameters up to the closing parenthesis, and whether there are dots at their end. -/
def parameters : Nat → List Declared → Read (List Declared × Bool)
  | 0, ds => return (ds, false)
  | steps + 1, ds => do
    match ← token with
    | .name n =>
      advance
      checkRoom ds.length
      let ds := ds ++ [⟨n, .regular⟩]
      if ← accept (sign ",") then parameters steps ds else return (ds, false)
    | .sign "..." => advance; return (ds, true)
    | _ => failNear "<name> or '...' expected"

/-- The names before `in`. -/
def loopNames : Nat → List Declared → Read (List Declared)
  | 0, ds => return ds
  | steps + 1, ds => do
    if ← accept (sign ",") then
      let n ← name
      checkRoom (4 + ds.length)
      loopNames steps (ds ++ [⟨n, .regular⟩])
    else return ds

def isAssignable : Expr → Bool
  | .variable _ | .index .. => true
  | _ => false

def isCall : Expr → Bool
  | .call .. | .method .. => true
  | _ => false

mutual

/-- An expression whose operators bind more strongly than the limit. -/
def subexpression : Nat → Nat → Read Expr
  | 0, _ => throw .tooDeep
  | steps + 1, limit => deeper do
    match unaryOf (← token) with
    | some o =>
      let opLine ← line
      advance
      let a ← subexpression steps unaryPriority
      operands steps limit (.unary o a opLine)
    | none =>
      let a ← simple steps
      operands steps limit a

/-- The operators after an expression, with what they join to it. -/
def operands : Nat → Nat → Expr → Read Expr
  | 0, _, _ => throw .tooDeep
  | steps + 1, limit, a => do
    match infixOf (← token) with
    | none => return a
    | some i =>
      let (left, right) := i.priority
      if left ≤ limit then return a
      else
        let opLine ← line
        advance
        let b ← subexpression steps right
        operands steps limit (i.join a b opLine)

def expression : Nat → Read Expr
  | 0 => throw .tooDeep
  | steps + 1 => subexpression steps 0

def expressions : Nat → Read (List Expr)
  | 0 => throw .tooDeep
  | steps + 1 => do
    let e ← expression steps
    if ← accept (sign ",") then return e :: (← expressions steps) else return [e]

def simple : Nat → Read Expr
  | 0 => throw .tooDeep
  | steps + 1 => do
    match ← token with
    | .number n => advance; return .number n
    | .string s => advance; return .string s
    | .keyword "nil" => advance; return .nil
    | .keyword "true" => advance; return .true
    | .keyword "false" => advance; return .false
    | .sign "..." =>
      if !(← scope).isVararg then failNear "cannot use '...' outside a vararg function"
      advance
      return .vararg
    | .sign "\x7b" => constructor steps
    | .keyword "function" =>
      let functionLine ← line
      advance
      return .function (← functionBody steps false functionLine)
    | _ => suffixed steps

def primary : Nat → Read Expr
  | 0 => throw .tooDeep
  | steps + 1 => do
    match ← token with
    | .name n =>
      let nameLine ← line
      advance
      named n nameLine
    | .sign "(" =>
      let opened ← line
      advance
      let e ← expression steps
      expectClosing (sign ")") (sign "(") opened
      return .paren e
    | _ => failNear "unexpected symbol"

def suffixed : Nat → Read Expr
  | 0 => throw .tooDeep
  | steps + 1 => do
    let e ← primary steps
    suffixes steps e

/-- Fields, methods and calls after an expression. -/
def suffixes : Nat → Expr → Read Expr
  | 0, _ => throw .tooDeep
  | steps + 1, e => do
    match ← token with
    | .sign "." =>
      advance
      let keyLine ← line
      let n ← name
      suffixes steps (.index e (.string n) keyLine)
    | .sign "[" =>
      advance
      let k ← expression steps
      let keyLine ← line
      expect (sign "]")
      suffixes steps (.index e k keyLine)
    | .sign ":" =>
      advance
      let nameLine ← line
      let n ← name
      let callLine ← line
      let args ← arguments steps
      suffixes steps (.method e n args nameLine callLine)
    | .sign "(" | .sign "\x7b" | .string _ =>
      let callLine ← line
      let args ← arguments steps
      suffixes steps (.call e args callLine)
    | _ => return e

def arguments : Nat → Read (List Expr)
  | 0 => throw .tooDeep
  | steps + 1 => do
    match ← token with
    | .string s => advance; return [.string s]
    | .sign "\x7b" => return [← constructor steps]
    | .sign "(" =>
      let opened ← line
      advance
      if ← accept (sign ")") then return []
      let es ← expressions steps
      expectClosing (sign ")") (sign "(") opened
      return es
    | _ => failNear "function arguments expected"

def constructor : Nat → Read Expr
  | 0 => throw .tooDeep
  | steps + 1 => do
    let opened ← line
    expect (sign "\x7b")
    let fs ← fields steps
    expectClosing (sign "\x7d") (sign "\x7b") opened
    return .table fs opened

def fields : Nat → Read (List Field)
  | 0 => throw .tooDeep
  | steps + 1 => do
    if ← isNext (sign "\x7d") then return []
    let f ← field steps
    if (← accept (sign ",")) then return f :: (← fields steps)
    else if (← accept (sign ";")) then return f :: (← fields steps)
    else return [f]

def field : Nat → Read Field
  | 0 => throw .tooDeep
  | steps + 1 => do
    match ← token with
    | .name n =>
      if (← peek) = sign "=" then
        advance
        advance
        return .keyed (.string n) (← expression steps)
      else return .item (← expression steps)
    | .sign "[" =>
      advance
      let k ← expression steps
      expect (sign "]")
      expect (sign "=")
      return .keyed k (← expression steps)
    | _ => return .item (← expression steps)

/-- Parameters and body of a function, after its name if it has one. -/
def functionBody : Nat → Bool → Nat → Read Function
  | 0, _, _ => throw .tooDeep
  | steps + 1, isMethod, functionLine => do
    openFunction false functionLine
    expect (sign "(")
    let self : List Declared := if isMethod then [⟨Utf8.encode "self", .regular⟩] else []
    activate self
    let (ds, isVararg) ← if ← isNext (sign ")") then pure ([], false) else parameters steps []
    activate ds
    alterScope fun f => { f with isVararg }
    expect (sign ")")
    let body ← statements steps
    expectClosing (keyword "end") (keyword "function") functionLine
    closeFunction
    return .mk (self.length + ds.length) isVararg body functionLine

/-- Statements up to the end of their block. A return ends it. -/
def statements : Nat → Read (List Stmt)
  | 0 => throw .tooDeep
  | steps + 1 => do
    let t ← token
    if endsBlock true t then return []
    else if t = keyword "return" then statement steps
    else
      let s ← statement steps
      return s ++ (← statements steps)

/-- A block with a scope of its own. -/
def block : Nat → Read (List Stmt)
  | 0 => throw .tooDeep
  | steps + 1 => do
    openBlock false
    let body ← statements steps
    closeBlock
    return body

/-- A statement; an empty one is none. -/
def statement : Nat → Read (List Stmt)
  | 0 => throw .tooDeep
  | steps + 1 => deeper do
    let start ← line
    match ← token with
    | .sign ";" => advance; return []
    | .keyword "if" => return [← branches steps start]
    | .keyword "while" =>
      advance
      let cond ← expression steps
      openBlock true
      expect (keyword "do")
      let body ← block steps
      expectClosing (keyword "end") (keyword "while") start
      closeBlock
      return [.while cond body]
    | .keyword "do" =>
      advance
      let body ← block steps
      expectClosing (keyword "end") (keyword "do") start
      return [.block body]
    | .keyword "for" => return [← forLoop steps start]
    | .keyword "repeat" =>
      openBlock true
      openBlock false
      advance
      let body ← statements steps
      expectClosing (keyword "until") (keyword "repeat") start
      let cond ← expression steps
      closeBlock
      closeBlock
      return [.repeat body cond]
    | .keyword "function" => return [← functionStatement steps start]
    | .keyword "local" =>
      advance
      if ← accept (keyword "function") then
        let n ← name
        checkRoom 0
        activate [⟨n, .regular⟩]
        return [.localFunction (← functionBody steps false (← get).lastLine)]
      else
        let ds ← localNames steps []
        let values ← if ← accept (sign "=") then expressions steps else pure []
        activate ds
        return [.locals (ds.map Declared.kind) (ds.map Declared.name) values (← get).lastLine]
    | .sign "::" =>
      advance
      let n ← name
      labelStatement steps n start
    | .keyword "return" =>
      advance
      let t ← token
      let values ←
        if endsBlock true t || t = sign ";" then pure [] else expressions steps
      let _ ← accept (sign ";")
      return [.return values start]
    | .keyword "break" =>
      advance
      addGoto breakName start
      return [.break]
    | .keyword "goto" =>
      advance
      let gotoLine ← line
      let n ← name
      if (findLabel? n (← scope)).isNone then addGoto n gotoLine
      return [.goto n]
    | _ => expressionStatement steps

/-- An `if` or `elseif` with all that follows it up to `end`. -/
def branches : Nat → Nat → Read Stmt
  | 0, _ => throw .tooDeep
  | steps + 1, start => do
    advance
    let cond ← expression steps
    expect (keyword "then")
    let yes ← block steps
    if ← isNext (keyword "elseif") then return .branch cond yes [← branches steps start]
    else if ← accept (keyword "else") then
      let no ← block steps
      expectClosing (keyword "end") (keyword "if") start
      return .branch cond yes no
    else
      expectClosing (keyword "end") (keyword "if") start
      return .branch cond yes []

def forLoop : Nat → Nat → Read Stmt
  | 0, _ => throw .tooDeep
  | steps + 1, start => do
    openBlock true
    advance
    let n ← name
    let hidden : Declared := ⟨[], .hidden⟩
    let loop ← do
      if ← isNext (sign "=") then
        declareHidden 4 0
        advance
        let first ← expression steps
        expect (sign ",")
        let limit ← expression steps
        let step ← if ← accept (sign ",") then expression steps else pure (.number (.int 1))
        activate [hidden, hidden, hidden]
        expect (keyword "do")
        let body ← loopBody steps [⟨n, .regular⟩]
        pure (Stmt.numericFor first limit step body start)
      else if (← isNext (sign ",")) || (← isNext (keyword "in")) then
        declareHidden 5 0
        let ds ← loopNames steps [⟨n, .regular⟩]
        expect (keyword "in")
        let valuesLine ← line
        let values ← expressions steps
        activate [hidden, hidden, hidden, hidden]
        expect (keyword "do")
        let body ← loopBody steps ds
        pure (Stmt.genericFor ds.length values body valuesLine)
      else failNear "'=' or 'in' expected"
    expectClosing (keyword "end") (keyword "for") start
    closeBlock
    return loop

/-- The body of a loop, in which its variables are active. -/
def loopBody : Nat → List Declared → Read (List Stmt)
  | 0, _ => throw .tooDeep
  | steps + 1, ds => do
    openBlock false
    activate ds
    let body ← block steps
    closeBlock
    return body

/-- A function given to a variable or to a field. -/
def functionStatement : Nat → Nat → Read Stmt
  | 0, _ => throw .tooDeep
  | steps + 1, start => do
    advance
    let nameLine ← line
    let n ← name
    let target ← named n nameLine
    let (target, isMethod) ← functionName steps target
    let f ← functionBody steps isMethod start
    checkAssignable target
    return .assign [target] [.function f] start

/-- Fields after the name of a function, and whether it is a method. -/
def functionName : Nat → Expr → Read (Expr × Bool)
  | 0, _ => throw .tooDeep
  | steps + 1, e => do
    if ← accept (sign ".") then
      let keyLine ← line
      let n ← name
      functionName steps (.index e (.string n) keyLine)
    else if ← accept (sign ":") then
      let keyLine ← line
      let n ← name
      return (.index e (.string n) keyLine, true)
    else return (e, false)

/-- A label, after its name. Empty statements and labels that follow it come before it. -/
def labelStatement : Nat → Bytes → Nat → Read (List Stmt)
  | 0, _, _ => throw .tooDeep
  | steps + 1, n, start => do
    expect (sign "::")
    let before ← emptyStatements steps
    match findLabel? n (← scope) with
    | some l =>
      failPlain ("label '" ++ Utf8.decodeLossy n ++ "' already defined on line " ++ toString l.line)
    | none =>
      let depth ← addLabel n start (endsBlock false (← token))
      return .label n depth :: before

def emptyStatements : Nat → Read (List Stmt)
  | 0 => throw .tooDeep
  | steps + 1 => do
    if (← isNext (sign ";")) || (← isNext (sign "::")) then
      let s ← statement steps
      return s ++ (← emptyStatements steps)
    else return []

/-- A call or an assignment. -/
def expressionStatement : Nat → Read (List Stmt)
  | 0 => throw .tooDeep
  | steps + 1 => do
    let e ← suffixed steps
    if (← isNext (sign "=")) || (← isNext (sign ",")) then
      let (targets, values) ← assignment steps e
      return [.assign targets values (← get).lastLine]
    else if isCall e then return [.call e]
    else failNear "syntax error"

/-- The rest of an assignment, after one of its targets. -/
def assignment : Nat → Expr → Read (List Expr × List Expr)
  | 0, _ => throw .tooDeep
  | steps + 1, e => do
    if !isAssignable e then failNear "syntax error"
    checkAssignable e
    if ← accept (sign ",") then
      let next ← suffixed steps
      let (targets, values) ← deeper (assignment steps next)
      return (e :: targets, values)
    else
      expect (sign "=")
      return ([e], ← expressions steps)

end

/-- A whole chunk: a function with any number of arguments. -/
def chunk (steps : Nat) : Read Function := do
  openFunction true 0
  advance
  let body ← statements steps
  if !(← isNext .eof) then wants .eof
  closeFunction
  return .mk 0 true body 0

end Read

/-- The chunk that a text is. Its variable `_ENV` is free in it. That a function needs more registers
than the virtual machine of Lua has is no fault here. What is proved of compiles holds for any parser,
but for the positions and names of requirements, which are about the tokens themselves. -/
def parse (text : Bytes) : Except ParseFault Function :=
  let (ts, fault) := tokens text
  let start : ReadState :=
    { current := ⟨.eof, [], 1⟩, rest := ts, fault, functions := [] }
  match (Read.chunk (16 * ts.length + 64)).run start with
  | .error f => .error f
  | .ok (f, _) =>
    match fault with
    | some f => .error (.malformed f)
    | none => .ok f

end UnitCache.Lua
