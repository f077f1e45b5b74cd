import UnitCache.Lua.Arithmetic

namespace UnitCache.Lua

inductive Count where
  /-- The value of this round, the step, and how many rounds follow it. -/
  | ints (i step : Int64) (more : Nat)
  | floats (x step limit : Binary64)
  deriving DecidableEq, Repr

namespace Count

def value : Count → Value
  | .ints i _ _ => .number (.int i)
  | .floats x _ _ => .number (.float x)

/-- Whether a float has not passed the limit. -/
def runs (x step limit : Binary64) : Bool :=
  if Binary64.zero.lt step then x.le limit else limit.le x

/-- The next round, if there is one. -/
def next? : Count → Option Count
  | .ints i step more => if more = 0 then none else some (.ints (i + step) step (more - 1))
  | .floats x step limit =>
    let x := x.add step
    if runs x step limit then some (.floats x step limit) else none

/-- The integer limit of a loop from `i`, rounded toward its start and cut to 64 bits, or none if
the loop does not run at all. -/
def intLimit? (limit : Number) (isUpward : Bool) : Option Int :=
  match limit with
  | .int i => some i.toInt
  | .float x =>
    match (if isUpward then x.floor else x.ceil).toInt64? with
    | some i => some i.toInt
    | none =>
      if Binary64.zero.lt x then (if isUpward then some (Nat.pow 2 63 - 1) else none)
      else if isUpward then none else some (-Nat.pow 2 63)

def wanted (what : String) : String := "'for' " ++ what ++ " must be a number"

/-- The first round of a loop, none if there are no rounds, or what is wrong with its numbers. -/
def first (start limit step : Value) : Except String (Option Count) :=
  match start, step with
  | .number (.int i), .number (.int s) =>
    if s = 0 then .error "'for' step is zero"
    else
      match limit.toNumber? with
      | none => .error (wanted "limit")
      | some l =>
        match intLimit? l (0 < s) with
        | none => .ok none
        | some l =>
          let distance := if 0 < s then l - i.toInt else i.toInt - l
          .ok (if distance < 0 then none
            else some (.ints i s (distance.toNat / s.toInt.natAbs)))
  | _, _ =>
    match limit.toNumber?, step.toNumber?, start.toNumber? with
    | none, _, _ => .error (wanted "limit")
    | _, none, _ => .error (wanted "step")
    | _, _, none => .error (wanted "initial value")
    | some l, some s, some x =>
      let (l, s, x) := (l.toFloat, s.toFloat, x.toFloat)
      if s.isZero then .error "'for' step is zero"
      else .ok (if runs x s l then some (.floats x s l) else none)

end Count
end UnitCache.Lua
