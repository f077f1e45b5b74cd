import UnitCache.Lua.Frame
/-!
A machine that runs Lua code step by step. Calls, loops and library functions are frames on its
stack, so that leaving a part of the code, be it by an error, is taking frames off the stack.
-/
namespace UnitCache.Lua

/-- What the library functions do, by name, with values of their own and with arguments. -/
abbrev Library := String → List Value → List Value → Routine (List Value)

/-- What a machine does next. -/
inductive Control where
  | eval (scope : Scope) (e : Expr)
  | exec (scope : Scope) (whole todo : List Stmt)
  /-- Hands values to the topmost frame. -/
  | deliver (vs : List Value)
  | carry (runner : Runner) (r : Routine (List Value))
  | call (f : Value) (args : List Value) (site : Site)
  | leave (exit : Exit)

structure Machine where
  world : World
  stack : List Frame := []
  /-- The stacks of the threads that wait for the current one, with their numbers. -/
  waiting : List (Nat × List Frame) := []
  /-- The stacks of suspended threads, by number. -/
  suspended : Array (List Frame) := #[[]]

/-- How a run ends. -/
inductive Outcome where
  | finished (vs : List Value)
  | failed (v : Value)

namespace Machine

/-- How many calls can be under way at once. -/
def maxDepth : Nat := 195000

/-- How many calls can be made from library functions and operations at once. -/
def maxNesting : Nat := 195

def push (m : Machine) (f : Frame) : Machine := { m with stack := f :: m.stack }

/-- The call under way at a level, the innermost at level zero. -/
def siteOf? : Nat → List Frame → Option Site
  | _, [] => none
  | 0, .activation site :: _ => some site
  | level + 1, .activation _ :: rest => siteOf? level rest
  | level, _ :: rest => siteOf? level rest

/-- The innermost call under way. -/
def site (m : Machine) : Site := (siteOf? 0 m.stack).getD { place := none, name := none }

/-- A site for a call from Lua code. -/
def siteAt (m : Machine) (chunk : Bytes) (line : Nat) (name : Option CallName) : Site :=
  let s := m.site
  { place := some (chunk, line), name, depth := s.depth + 1, nesting := s.nesting }

/-- A site for a call from a routine. -/
def siteFor (m : Machine) (runner : Runner) (name : Option CallName) : Site :=
  let s := m.site
  match runner with
  | .code chunk line =>
    { place := some (chunk, line), name, depth := s.depth + 1, nesting := s.nesting + 1 }
  | .library => { place := none, name := none, depth := s.depth + 1, nesting := s.nesting + 1 }

def placeText : Option (Bytes × Nat) → Bytes
  | some (chunk, line) => Chunk.location chunk line
  | none => []

/-- An error of the code at a place. -/
def faultAt (place : Option (Bytes × Nat)) (message : Bytes) : Control :=
  .leave (.error (.string (placeText place ++ message)))

def variableCell (scope : Scope) (v : Variable) : Nat := scope.env[v.index]?.getD 0

/-- The block that follows a label in a list of statements, and the variables there. -/
def afterLabel (label : Bytes) : List Stmt → Option (Depth × List Stmt)
  | [] => none
  | .label n depth :: rest => if n = label then some (depth, rest) else afterLabel label rest
  | _ :: rest => afterLabel label rest

/-- Goes on after a label of a block, if it has it. -/
def jump? (scope : Scope) (whole : List Stmt) (label : Bytes) : Option Control :=
  (afterLabel label whole).map fun (depth, rest) =>
    .exec { scope with env := scope.env.drop (scope.env.length - (depth + 1)) } whole rest

/-- The values of a constructor's fields as items and keyed values. -/
def divide : List Bool → List Value → List (Value × Value) × List Value
  | true :: shape, k :: v :: vs =>
    let (keyed, items) := divide shape vs
    ((k, v) :: keyed, items)
  | [false], vs => ([], vs)
  | false :: shape, v :: vs =>
    let (keyed, items) := divide shape vs
    (keyed, v :: items)
  | _, _ => ([], [])

def constructed (shape : List Bool) (vs : List Value) : Routine (List Value) := do
  let (keyed, items) := divide shape vs
  match keyed.find? (fun f => f.1 = .nil || f.1.isNaN) with
  | some f => Routine.failWith (if f.1 = .nil then "table index is nil" else "table index is NaN")
  | none =>
    let base : Table := { array := Array.replicate items.length .nil, capacity := Table.roundUp keyed.length }
    let withKeys := keyed.foldl (fun t f => t.set f.1 f.2) base
    let t := (items.zipIdx 1).foldl (fun t i => t.setNat i.2 i.1) withKeys
    return [← Routine.newTable t]

/-- Puts arguments into new variables and runs the body of a function. -/
def enter (m : Machine) (f : Function) (env : List Nat) (chunk : Bytes) (args : List Value) :
    Machine × Control :=
  match f with
  | .mk params isVararg body _ =>
    let (env, world) := m.world.newCells env (Value.adjust params args)
    let scope : Scope := ⟨env, if isVararg then args.drop params else [], chunk⟩
    ({ m with world }, .exec scope body body)

/-- The frames that are left when the innermost activation is over, with how it was called, unless
something is still to be closed in it. -/
def dropActivation? : List Frame → Option (Site × List Frame)
  | [] => none
  | .activation site :: rest => some (site, rest)
  | .closing .. :: _ => none
  | _ :: rest => dropActivation? rest

/-- Calls a value, which is a function or has a metamethod for it. -/
def call (lib : Library) (m : Machine) (f : Value) (args : List Value) (site : Site) :
    Machine × Control :=
  match f with
  | .function a =>
    if maxDepth < site.depth then (m, faultAt site.place (Utf8.encode "stack overflow"))
    else if maxNesting < site.nesting then (m, faultAt site.place (Utf8.encode "C stack overflow"))
    else
      let m := m.push (.activation site)
      match m.world.functions[a]? with
      | some (.code f env chunk) => enter m f env chunk args
      | some (.native name captured) => (m, .carry .library (lib name captured args))
      | none => (m, .deliver [])
  | _ =>
    match m.world.metafield f "__call" with
    | .nil =>
      (m, faultAt site.place (Utf8.encode "attempt to call a " ++ m.world.typeName f ++
        Utf8.encode " value" ++ CallName.remark (if site.place.isSome then site.name else none)))
    | h => (m, .call h (f :: args) site)

/-- Calls a function in place of the one that is running, if it is Lua code. -/
def tailCall (m : Machine) (f : Value) (args : List Value) (site : Site) : Machine × Control :=
  let isCode :=
    match f with
    | .function a =>
      match m.world.functions[a]? with
      | some (.code ..) => true
      | _ => false
    | _ => false
  match if isCode then dropActivation? m.stack else none with
  | some (outer, stack) => ({ m with stack }, .call f args { outer with name := none })
  | none => (m.push .returning, .call f args site)

/-- Declares variables with values. A variable to be closed is closed when its block is left. -/
def declare (m : Machine) (scope : Scope) (kinds : List LocalKind) (names : List Bytes)
    (whole todo : List Stmt) (line : Nat) (vs : List Value) : Machine × Control :=
  let vs := Value.adjust kinds.length vs
  let (env, world) := m.world.newCells scope.env vs
  let m := { m with world }
  let scope := { scope with env }
  match (kinds.zip (names.zip vs)).find? (fun k => k.1 = .close && k.2.2.isTrue) with
  | none => (m, .exec scope whole todo)
  | some (_, name, v) =>
    if m.world.metafield v "__close" = .nil then
      (m, faultAt (some (scope.chunk, line))
        (Utf8.encode "variable '" ++ name ++ Utf8.encode "' got a non-closable value"))
    else
      let m := (m.push (.block scope whole [])).push (.closing v scope.chunk line)
      (m, .exec scope todo todo)

/-- Pairs targets with values, given the values of their parts and of the right side. -/
def pairTargets : List TargetShape → List Value → List Target × List Value
  | [], vs => ([], vs)
  | .variable c :: shapes, vs =>
    let (ts, vs) := pairTargets shapes vs
    (.variable c :: ts, vs)
  | .field name :: shapes, o :: k :: vs =>
    let (ts, vs) := pairTargets shapes vs
    (.field o k name :: ts, vs)
  | .field _ :: _, vs => ([], vs)

/-- Assigns values one by one. -/
def assign (m : Machine) (chunk : Bytes) (line : Nat) : List (Target × Value) → Machine × Control
  | [] => (m, .deliver [])
  | (.variable c, v) :: rest => assign { m with world := m.world.setCell c v } chunk line rest
  | (.field o k name, v) :: rest =>
    (m.push (.assigning chunk line rest),
      .carry (.code chunk line) (do Operation.setIndex o k v name; return []))

/-- Begins a round of a loop with new variables. -/
def beginRound (m : Machine) (scope : Scope) (l : Loop) (vs : List Value) (body : List Stmt) :
    Machine × Control :=
  let (env, world) := m.world.newCells scope.env vs
  ({ m with world }.push (.loop scope l), .exec { scope with env } body body)

def countRound (m : Machine) (scope : Scope) (body : List Stmt) : Option Count → Machine × Control
  | none => (m, .deliver [])
  | some round => beginRound m scope (.count round body) [round.value] body

/-- Asks an iterator for the values of the next round. -/
def iterate (m : Machine) (scope : Scope) (iterator state control : Value) (names : Nat)
    (body : List Stmt) (line : Nat) : Machine × Control :=
  let name : CallName := ⟨"for iterator", Utf8.encode "for iterator"⟩
  let site := m.siteAt scope.chunk line (some name)
  (m.push (.round scope iterator state names body line), .call iterator [state, control] site)

/-- Runs a task on its values. -/
def perform (m : Machine) (scope : Scope) (task : Task) (vs : List Value) : Machine × Control :=
  match task with
  | .binary op na nb line =>
    match vs with
    | [a, b] => (m, .carry (.code scope.chunk line) (do return [← Operation.binary op a b na nb]))
    | _ => (m, .deliver [])
  | .unary op na line =>
    (m, .carry (.code scope.chunk line) (do return [← Operation.unary op (Value.first vs) na]))
  | .index name line =>
    match vs with
    | [o, k] => (m, .carry (.code scope.chunk line) (do return [← Operation.index o k name]))
    | _ => (m, .deliver [])
  | .select objectName name args nameLine line =>
    let o := Value.first vs
    (m.push (.method scope o name args line),
      .carry (.code scope.chunk nameLine) (do return [← Operation.index o (.string name) objectName]))
  | .call name line =>
    match vs with
    | f :: args => (m, .call f args (m.siteAt scope.chunk line name))
    | [] => (m, .deliver [])
  | .tailCall name line =>
    match vs with
    | f :: args => tailCall m f args (m.siteAt scope.chunk line name)
    | [] => (m, .deliver [])
  | .construct shape line => (m, .carry (.code scope.chunk line) (constructed shape vs))
  | .declare kinds names whole todo line => declare m scope kinds names whole todo line vs
  | .assign shapes line =>
    let (targets, vs) := pairTargets shapes vs
    let pairs := targets.zip (Value.adjust targets.length vs)
    assign m scope.chunk line pairs.reverse
  | .give => (m, .leave (.returning vs))
  | .branch yes no =>
    let body := if (Value.first vs).isTrue then yes else no
    (m, .exec scope body body)
  | .count body line =>
    match vs with
    | [start, limit, step] =>
      match Count.first start limit step with
      | .ok round => countRound m scope body round
      | .error message => (m, faultAt (some (scope.chunk, line)) (Utf8.encode message))
    | _ => (m, .deliver [])
  | .each names body line =>
    match Value.adjust 4 vs with
    | [f, s, c, v] =>
      if !v.isTrue then iterate m scope f s c names body line
      else if m.world.metafield v "__close" = .nil then
        (m, faultAt (some (scope.chunk, line))
          (Utf8.encode "variable '(for state)' got a non-closable value"))
      else iterate (m.push (.closing v scope.chunk line)) scope f s c names body line
    | _ => (m, .deliver [])

def fieldShape : Field → Bool
  | .item _ => false
  | .keyed .. => true

/-- The expressions of fields; all but a last item have one value. -/
def fieldExprs : List Field → List Expr
  | [] => []
  | [.item e] => [e]
  | .item e :: fs => e.one :: fieldExprs fs
  | .keyed k v :: fs => k.one :: v.one :: fieldExprs fs

def start (m : Machine) (scope : Scope) (task : Task) (es : List Expr) : Machine × Control :=
  match es with
  | [] => perform m scope task []
  | e :: es => (m.push (.collect scope task [] es), .eval scope e)

def eval (m : Machine) (scope : Scope) (e : Expr) : Machine × Control :=
  match e with
  | .nil => (m, .deliver [.nil])
  | .true => (m, .deliver [.bool true])
  | .false => (m, .deliver [.bool false])
  | .number n => (m, .deliver [.number n])
  | .string s => (m, .deliver [.string s])
  | .vararg => (m, .deliver scope.varargs)
  | .function f =>
    let (a, world) := m.world.newFunction (.code f scope.env scope.chunk)
    ({ m with world }, .deliver [.function a])
  | .variable v => (m, .deliver [m.world.cell (variableCell scope v)])
  | .index o k line => start m scope (.index o.callName line) [o.one, k.one]
  | .call f args line => start m scope (.call f.callName line) (f.one :: args)
  | .method o name args nameLine line =>
    start m scope (.select o.callName name args nameLine line) [o.one]
  | .binary op a b line => start m scope (.binary op a.callName b.callName line) [a.one, b.one]
  | .and a b => (m.push (.decide true scope b.one), .eval scope a.one)
  | .or a b => (m.push (.decide false scope b.one), .eval scope a.one)
  | .unary op a line => start m scope (.unary op a.callName line) [a.one]
  | .table fs line => start m scope (.construct (fs.map fieldShape) line) (fieldExprs fs)
  | .paren e => (m.push .single, .eval scope e)

def targetShape (scope : Scope) : Expr → TargetShape
  | .variable v => .variable (variableCell scope v)
  | .index o _ _ => .field o.callName
  | _ => .field none

def targetExprs : Expr → List Expr
  | .index o k _ => [o.one, k.one]
  | _ => []

/-- Whether a function may be left in favour of the one it calls. -/
def returnTask : List Expr → Task × List Expr
  | [.call f args line] => (.tailCall f.callName line, f.one :: args)
  | values => (.give, values)

def exec (m : Machine) (scope : Scope) (whole : List Stmt) : List Stmt → Machine × Control
  | [] => (m, .deliver [])
  | s :: todo =>
    let later := m.push (.block scope whole todo)
    match s with
    | .locals kinds names values line =>
      start m scope (.declare kinds names whole todo line) values
    | .localFunction f =>
      let (c, world) := m.world.newCell .nil
      let env := c :: scope.env
      let (a, world) := world.newFunction (.code f env scope.chunk)
      ({ m with world := world.setCell c (.function a) }, .exec { scope with env } whole todo)
    | .assign targets values line =>
      start later scope (.assign (targets.map (targetShape scope)) line)
        (targets.flatMap targetExprs ++ values)
    | .call e => (later, .eval scope e)
    | .block body => (later, .exec scope body body)
    | .while cond body => (later.push (.test scope cond body), .eval scope cond.one)
    | .repeat body cond =>
      let body := body ++ [.branch cond [.break] []]
      (later.push (.loop scope (.repeat body)), .exec scope body body)
    | .branch cond yes no => start later scope (.branch yes no) [cond.one]
    | .numericFor first limit step body line =>
      start later scope (.count body line) [first.one, limit.one, step.one]
    | .genericFor names values body line => start later scope (.each names body line) values
    | .return values _ =>
      let (task, es) := returnTask values
      start m scope task es
    | .break => (m, .leave .breaking)
    | .goto label =>
      match jump? scope whole label with
      | some control => (m, control)
      | none => (m, .leave (.jump label))
    | .label .. => (m, .exec scope whole todo)

/-- The next round of a loop whose body is over. -/
def nextRound (m : Machine) (scope : Scope) : Loop → Machine × Control
  | .while cond body => (m.push (.test scope cond body), .eval scope cond.one)
  | .repeat body => (m.push (.loop scope (.repeat body)), .exec scope body body)
  | .count round body => countRound m scope body round.next?
  | .each f s c names body line => iterate m scope f s c names body line

/-- Closes a value, with the error that makes this necessary or nil. -/
def close (m : Machine) (v e : Value) (chunk : Bytes) (line : Nat) (exit : Exit) : Machine × Control :=
  (m.push (.leaving exit), .carry (.code chunk line) (do
    let h ← Routine.metafield v "__close"
    let _ ← Routine.callFirst h [v, e] (metamethod "close")
    return []))

/-- Gives values to the topmost frame, which is already taken off. -/
def deliverTo (m : Machine) (vs : List Value) : Frame → Machine × Control
  | .collect scope task done rest =>
    match rest with
    | [] => perform m scope task (done.reverse ++ vs)
    | e :: es => (m.push (.collect scope task (Value.first vs :: done) es), .eval scope e)
  | .decide isAnd scope other =>
    let v := Value.first vs
    if v.isTrue = isAnd then (m, .eval scope other) else (m, .deliver [v])
  | .single => (m, .deliver [Value.first vs])
  | .method scope o name args line =>
    let task : Task := .call (some ⟨"method", name⟩) line
    let f := Value.first vs
    match args with
    | [] => perform m scope task [f, o]
    | e :: es => (m.push (.collect scope task [o, f] es), .eval scope e)
  | .block scope whole todo => (m, .exec scope whole todo)
  | .test scope cond body =>
    if (Value.first vs).isTrue then
      (m.push (.loop scope (.while cond body)), .exec scope body body)
    else (m, .deliver [])
  | .loop scope l => nextRound m scope l
  | .round scope f s names body line =>
    let c := Value.first vs
    if c = .nil then (m, .deliver [])
    else beginRound m scope (.each f s c names body line) (Value.adjust names vs) body
  | .assigning chunk line rest => assign m chunk line rest
  | .returning => (m, .leave (.returning vs))
  | .activation _ => (m, .deliver vs)
  | .answer runner next => (m, .carry runner (next vs))
  | .guard runner _ next | .resumption runner next => (m, .carry runner (next true vs))
  | .closing v chunk line => close m v .nil chunk line .finished
  | .leaving exit =>
    match exit with
    | .finished => (m, .deliver [])
    | exit => (m, .leave exit)
  | .start f => (m, .call f vs { place := none, name := none })

/-- Takes the topmost frame off on the way out, or stops there. -/
def leaveThrough (m : Machine) (exit : Exit) (f : Frame) : Machine × Control :=
  match f, exit with
  | .closing v chunk line, .error e => close m v e chunk line exit
  | .closing v chunk line, _ => close m v .nil chunk line exit
  | .guard runner handler next, .error e =>
    match handler with
    | none => (m, .carry runner (next false [e]))
    | some h =>
      let m := m.push (.guard runner none (fun _ vs => next false [Value.first vs]))
      (m, .call h [e] (m.siteFor .library none))
  | .activation _, .returning vs => (m, .deliver vs)
  | .loop .., .breaking => (m, .deliver [])
  | .block scope whole _, .jump label =>
    match jump? scope whole label with
    | some control => (m, control)
    | none => (m, .leave exit)
  | _, _ => (m, .leave exit)

/-- Whether a stack holds a library function that waits, which no yield can pass. A protected call
does not stand in the way. -/
def isBlocked (stack : List Frame) : Bool :=
  stack.any fun
    | .answer .library _ | .resumption .. => true
    | _ => false

def setStatus (m : Machine) (thread : Nat) (s : ThreadStatus) : Machine :=
  { m with world := { m.world with threads := m.world.threads.setIfInBounds thread s } }

/-- Goes on in the thread that waits for the current one. -/
def handBack (m : Machine) (own : ThreadStatus) (ok : Bool) (vs : List Value) :
    Option (Machine × Control) :=
  match m.waiting with
  | [] => none
  | (thread, stack) :: waiting =>
    let m := (m.setStatus m.world.current own).setStatus thread .running
    let m := { m with world := { m.world with current := thread }, waiting, stack := stack.tail }
    match stack with
    | .resumption runner next :: _ => some (m, .carry runner (next ok vs))
    | _ => none

/-- Lets a thread work on a stack, while the current thread waits for it. -/
def switch (m : Machine) (thread : Nat) (stack : List Frame) (runner : Runner)
    (next : Bool → List Value → Routine (List Value)) : Machine :=
  let here := m.world.current
  let m := m.push (.resumption runner next)
  let m := (m.setStatus here .normal).setStatus thread .running
  { m with
    world := { m.world with current := thread }
    waiting := (here, m.stack) :: m.waiting
    stack }

/-- What is left to do when a thread is ended: values are closed, and the error that it died of is
told. -/
def remains : List Frame → List Frame
  | .leaving (.error e) :: _ => [.leaving (.error e)]
  | stack => stack.filter fun
    | .closing .. => true
    | _ => false

/-- One step of a routine. -/
def carry (m : Machine) (runner : Runner) : Routine (List Value) → Machine × Control
  | .done vs => (m, .deliver vs)
  | .raise v => (m, .leave (.error v))
  | .fault message =>
    match runner with
    | .code chunk line => (m, faultAt (some (chunk, line)) message)
    | .library => (m, faultAt none message)
  | .act f next =>
    let (vs, world) := f m.world
    ({ m with world }, .carry runner (next vs))
  | .call f args name next => (m.push (.answer runner next), .call f args (m.siteFor runner name))
  | .attempt f args handler next =>
    (m.push (.guard runner handler next), .call f args (m.siteFor runner none))
  | .place level next =>
    let place := (siteOf? (level - 1) m.stack).bind Site.place
    (m, .carry runner (next (placeText place)))
  | .callee next => (m, .carry runner (next m.site.name))
  | .resume thread args next =>
    if maxNesting < m.waiting.length then
      (m, .carry runner (next false [.text "C stack overflow"]))
    else (m.switch thread (m.suspended[thread]?.getD []) runner next, .deliver args)
  | .yield vs next =>
    if m.waiting.isEmpty then
      (m, .carry runner (Routine.fail "attempt to yield from outside a coroutine"))
    else if isBlocked m.stack then
      (m, .carry runner (Routine.fail "attempt to yield across a C-call boundary"))
    else
      let stack := Frame.answer runner next :: m.stack
      let m := { m with suspended := m.suspended.setIfInBounds m.world.current stack }
      (handBack m .suspended true vs).getD (m, .deliver vs)
  | .spawn f next =>
    let thread := m.world.threads.size
    ({ m with
        world := { m.world with threads := m.world.threads.push .suspended }
        suspended := m.suspended.push [.start f] }, .carry runner (next thread))
  | .kill thread next =>
    let stack := remains (m.suspended[thread]?.getD [])
    let tell : Frame := .guard .library none fun ok vs => .done (.bool ok :: vs)
    let m := { m with suspended := m.suspended.setIfInBounds thread [] }
    (m.switch thread (stack ++ [tell]) runner fun _ vs => next (Value.first vs).isTrue vs.tail,
      .deliver [])

/-- One step: either the run goes on, or it is over. -/
def step (lib : Library) (m : Machine) (c : Control) : Machine × (Control ⊕ Outcome) :=
  let go : Machine × Control → Machine × (Control ⊕ Outcome) := fun (m, c) => (m, .inl c)
  match c with
  | .eval scope e => go (eval m scope e)
  | .exec scope whole todo => go (exec m scope whole todo)
  | .carry runner r => go (carry m runner r)
  | .call f args site => go (call lib m f args site)
  | .deliver vs =>
    match m.stack with
    | f :: stack => go (deliverTo { m with stack } vs f)
    | [] =>
      match handBack m .dead true vs with
      | some next => go next
      | none => (m, .inr (.finished vs))
  | .leave exit =>
    match m.stack with
    | f :: stack => go (leaveThrough { m with stack } exit f)
    | [] =>
      match exit with
      | .error e =>
        let death := [Frame.leaving (.error e)]
        let m := { m with suspended := m.suspended.setIfInBounds m.world.current death }
        match handBack m .dead false [e] with
        | some next => go next
        | none => (m, .inr (.failed e))
      | .returning vs => (m, .inl (.deliver vs))
      | _ => (m, .inl (.deliver []))

/-- At most so many steps. -/
def run (lib : Library) : Nat → Machine → Control → Outcome × Machine
  | 0, m, _ => (.failed (.text "no steps left"), m)
  | steps + 1, m, c =>
    match step lib m c with
    | (m, .inl c) => run lib steps m c
    | (m, .inr outcome) => (outcome, m)

/-- More steps than any run that ends in reasonable time takes. -/
def patience : Nat := Nat.pow 10 15

/-- Runs to the end, from outside of all Lua code. -/
def complete (lib : Library) (m : Machine) (c : Control) : Outcome × Machine :=
  run lib patience { m with stack := [], waiting := [] } c

/-- Calls a function from outside. -/
def callFrom (lib : Library) (m : Machine) (f : Value) (args : List Value) : Outcome × Machine :=
  complete lib m (.call f args { place := none, name := none })

/-- Carries out a routine from outside. -/
def carryFrom (lib : Library) (m : Machine) (r : Routine (List Value)) : Outcome × Machine :=
  complete lib m (.carry .library r)

end Machine
end UnitCache.Lua
