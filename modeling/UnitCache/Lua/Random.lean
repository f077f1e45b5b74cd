import UnitCache.Lua.Value

namespace UnitCache.Lua

/-- The state of xoshiro256**. -/
structure Random where
  s0 : UInt64
  s1 : UInt64
  s2 : UInt64
  s3 : UInt64
  deriving DecidableEq, Repr

namespace Random

def rotate (x : UInt64) (n : UInt64) : UInt64 := (x <<< n) ||| (x >>> (64 - n))

def next (r : Random) : UInt64 × Random :=
  let s2 := r.s2 ^^^ r.s0
  let s3 := r.s3 ^^^ r.s1
  let out := rotate (r.s1 * 5) 7 * 9
  (out, ⟨r.s0 ^^^ s3, r.s1 ^^^ s2, s2 ^^^ (r.s1 <<< 17), rotate s3 45⟩)

def skip (r : Random) : Nat → Random
  | 0 => r
  | n + 1 => skip r.next.2 n

/-- The state that two numbers seed. -/
def seeded (n1 n2 : UInt64) : Random := skip ⟨n1, 0xFF, n2, 0⟩ 16

/-- A float at or above zero and below one, of the upper 53 bits of a word. -/
def unit (w : UInt64) : Binary64 := .ofRatio false (w >>> 11).toNat (Nat.pow 2 53)

/-- The smallest number of the form `2 ^ n - 1` at or above one. -/
def mask (n : UInt64) : UInt64 := if n = 0 then 0 else UInt64.ofNat (Nat.pow 2 (n.toNat.log2 + 1) - 1)

/-- A number up to a bound; words that are too large are passed over. -/
def project (w bound : UInt64) (r : Random) : Nat → UInt64 × Random
  | 0 => (w % (bound + 1), r)
  | steps + 1 =>
    let w := w &&& mask bound
    if w ≤ bound then (w, r)
    else
      let (w, r) := r.next
      project w bound r steps

end Random
end UnitCache.Lua
