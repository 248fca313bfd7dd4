import StyleVariants.ClassName.Options
import StyleVariants.StyleRule.Css
import StyleVariants.Backend.Basic

/-! # Class registries -/
namespace StyleVariants

structure ClassRegistry where
  options : NamingOptions := {}
  rules : OrderedMap String StyleRule := ∅

namespace ClassRegistry

/-- The numbers are unbounded. A counter of 32 bits gives other names only from 2³¹ registered
classes on. -/
def candidates (base : String) (count : Nat) : List String :=
  base :: (List.range count).map fun i => base ++ "_" ++ toString (i + 1)

def admits (registry : ClassRegistry) (rule : StyleRule) (className : String) : Bool :=
  match registry.rules.get? className with
  | none => true
  | some registered => registered == rule

/-- One candidate more than there are registered classes is always enough. -/
def className (digest : String → String) (rule : StyleRule) (label : Option String) :
    StateM ClassRegistry String := fun registry =>
  let base := ClassName.generate digest registry.options.mode registry.options.scope label rule
  let name := ((candidates base registry.rules.size).find? (registry.admits rule)).getD base
  if registry.rules.contains name then (name, registry)
  else (name, { registry with rules := registry.rules.insert name rule })

def css (registry : ClassRegistry) : String :=
  Css.text (registry.rules.entries.flatMap fun e => Css.rule ("." ++ e.1) 0 e.2)

end ClassRegistry
end StyleVariants
