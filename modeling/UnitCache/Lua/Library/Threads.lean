import UnitCache.Lua.Library.Arguments

namespace UnitCache.Lua.Threads

open Routine

def threadOf (a : Arguments) (i : Nat) : Routine Nat :=
  match a.get i with
  | .thread t => return t
  | _ => a.refuseType i "coroutine"

def isIn (t : Nat) (s : ThreadStatus) : Routine Bool := do
  return (← ask fun w => .bool (w.threads[t]? = some s)).isTrue

/-- Lets a thread go on, if it can. -/
def goOn (t : Nat) (args : List Value) : Routine (Bool × List Value) := do
  if ← isIn t .dead then return (false, [.text "cannot resume dead coroutine"])
  if ← isIn t .suspended then return ← .resume t args fun ok vs => .done (ok, vs)
  return (false, [.text "cannot resume non-suspended coroutine"])

def create (a : Arguments) : Routine (List Value) := do
  let f ← a.functionValue 1
  .spawn f fun t => .done [.thread t]

def resume (a : Arguments) : Routine (List Value) := do
  let t ← threadOf a 1
  let (ok, vs) ← goOn t (a.after 1)
  return .bool ok :: vs

def wrap (a : Arguments) : Routine (List Value) := do
  let f ← a.functionValue 1
  let t ← Routine.spawn f .done
  return [← newFunction (.native "wrap.resume" [.thread t])]

def wrapped (a : Arguments) : Routine (List Value) := do
  match a.captured with
  | [.thread t] =>
    let (ok, vs) ← goOn t a.values
    if ok then return vs
    let rest ← if ← isIn t .dead then Routine.kill t fun _ vs => .done vs else pure []
    match Value.first (rest ++ vs) with
    | .string s => failBytes s
    | e => .raise e
  | _ => return []

def yield (a : Arguments) : Routine (List Value) := .yield a.values .done

def status (a : Arguments) : Routine (List Value) := do
  let t ← threadOf a 1
  return [← ask fun w => .text ((w.threads[t]?.getD .dead).label)]

def running (_ : Arguments) : Routine (List Value) :=
  askAll fun w => [.thread w.current, .bool (w.current = 0)]

def isYieldable (a : Arguments) : Routine (List Value) := do
  let t? ← if a.count = 0 then pure none else some <$> threadOf a 1
  return [← ask fun w => .bool (t?.getD w.current ≠ 0)]

def close (a : Arguments) : Routine (List Value) := do
  let t ← threadOf a 1
  if (← isIn t .suspended) || (← isIn t .dead) then
    .kill t fun ok vs => .done (.bool ok :: (if ok then [] else vs))
  else
    match ← ask fun w => .text ((w.threads[t]?.getD .dead).label) with
    | .string s => failBytes (Utf8.encode "cannot close a " ++ s ++ Utf8.encode " coroutine")
    | _ => return []

def functions : List (String × Native) :=
  [("close", close), ("create", create), ("isyieldable", isYieldable), ("resume", resume),
    ("running", running), ("status", status), ("wrap", wrap), ("yield", yield)]

def hidden : List (String × Native) := [("wrap.resume", wrapped)]

end UnitCache.Lua.Threads
