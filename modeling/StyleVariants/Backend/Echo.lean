import StyleVariants.Backend.Basic

/-! # Backends whose answers can be read off their calls -/
namespace StyleVariants.Echo

def labels : ClassNamer Unit := fun _ label => pure (label.getD "<anonymous>")

def nameless : ClassNamer Unit := fun _ _ => pure ""

def counting : PropertyAllocator Nat where
  customProperty hint := fun n => ("var(--" ++ hint ++ "_" ++ toString n ++ ")", n + 1)

/-- Answers the bare property of a hint instead of a reference. -/
def bare : PropertyAllocator Unit where
  customProperty hint := pure ("--" ++ hint)

end StyleVariants.Echo
