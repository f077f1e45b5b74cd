import UnitCache.NamedUnit
import UnitCache.Toolchain.Dialogue

namespace UnitCache

structure Toolchain where
  /-- Whether a compiler can be had at all. -/
  acquire : Except Error Unit
  /-- Compiles a unit, given its text or why that cannot be read. `reach` is more than the number
  of modules that can be found one from the other. -/
  compile : (unit : NamedUnit) → (text : Except Error String) → (reach : Nat) →
    Dialogue (List Diagnostic)

end UnitCache
