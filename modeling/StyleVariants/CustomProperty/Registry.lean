import StyleVariants.ClassName.Naming
import StyleVariants.Recipe.Json
import StyleVariants.Backend.Basic

/-! # Custom property registries -/
namespace StyleVariants

structure PropertyRegistry where
  scope : String := "recipes"
  names : List String := []

namespace PropertyRegistry

/-- The registry of one recipe, whose text takes part in the scope. -/
def ofRecipe (digest : String → String) (fileScope : String) (debugId : Option String)
    (recipe : Recipe) : PropertyRegistry where
  scope := fileScope ++ ":" ++ debugId.getD "" ++ ":" ++ ClassName.hashDigits digest recipe.text 8

def settleHint (hint : String) : String :=
  let hint := ClassName.sanitize hint
  if hint = "" then "var" else hint

def hashInput (scope hint : String) (index : Nat) : String :=
  scope ++ ":" ++ hint ++ ":" ++ toString index

def candidate (digest : String → String) (scope hint : String) (index : Nat) : String :=
  "--" ++ hint ++ "__" ++ ClassName.hashDigits digest (hashInput scope hint index) 6

/-- The first new name from an index on, among as many as the fuel allows. -/
def newName? (digest : String → String) (registry : PropertyRegistry) (hint : String) :
    (fuel index : Nat) → Option String
  | 0, _ => none
  | fuel + 1, index =>
      let name := candidate digest registry.scope hint index
      if name ∈ registry.names then newName? digest registry hint fuel (index + 1) else some name

/-- The indices are 64-bit words. -/
def maxProbes : Nat := Nat.pow 2 64

/-- A registry without a new name answers the empty text and stays as it is. -/
def customProperty (digest : String → String) (hint : String) :
    StateM PropertyRegistry String := fun registry =>
  match newName? digest registry (settleHint hint) maxProbes registry.names.length with
  | some name => ("var(" ++ name ++ ")", { registry with names := registry.names ++ [name] })
  | none => ("", registry)

def allocator (digest : String → String) : PropertyAllocator PropertyRegistry where
  customProperty := customProperty digest

end PropertyRegistry
end StyleVariants
