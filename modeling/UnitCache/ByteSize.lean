import UnitCache.Binary64.Decimal

namespace UnitCache.ByteSize

def kilobyte : Nat := 1024

def megabyte : Nat := 1024 * 1024

/-- A natural number rounded to 53 significant bits, a half to the even neighbour. -/
def round53 (n : Nat) : Nat :=
  let unit := Nat.pow 2 (n.log2 - 52)
  Binary64.roundHalfEven n unit * unit

/-- `bytes` in multiples of `unit` with one place. -/
def inUnits (bytes unit : Nat) : String :=
  String.ofList (Binary64.fixedChars (round53 bytes) unit 1)

def format (bytes : Nat) : String :=
  if megabyte ≤ bytes then inUnits bytes megabyte ++ " MB"
  else if kilobyte ≤ bytes then inUnits bytes kilobyte ++ " KB"
  else toString bytes ++ " B"

end UnitCache.ByteSize
