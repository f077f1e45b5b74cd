import UnitCache.Host

namespace UnitCache

/-- How contexts with state `κ` work; a resolved unit is an `η`. -/
structure ContextKind (κ η : Type) where
  /-- Whether a name is already injected or loaded. -/
  isDefined : κ → String → Bool
  /-- Registers compiled bytes under a name, unless it is defined. -/
  inject : String → Bytes → κ → Except Error Unit × κ
  /-- Looks up a unit that was injected. Doing so may run it. -/
  resolve : String → Disk × κ → Except Error η × (Disk × κ)

end UnitCache
