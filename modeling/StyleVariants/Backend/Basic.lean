import StyleVariants.CustomProperty.Reference
import StyleVariants.StyleRule.Basic

/-! # Backends -/
namespace StyleVariants

structure Backend (σ : Type) where
  className : StyleRule → Option String → StateM σ String
  /-- The answer is a reference to the new property. -/
  customProperty : String → StateM σ String
  /-- The property that a reference names. -/
  target : String → σ → String := fun reference _ => Reference.target reference

inductive Call where
  | className (rule : StyleRule) (label : Option String) (answer : String)
  | customProperty (hint : String) (answer : String)

abbrev ClassNamer (σ : Type) := StyleRule → Option String → StateM σ String

structure PropertyAllocator (τ : Type) where
  customProperty : String → StateM τ String
  target : String → τ → String := fun reference _ => Reference.target reference

namespace Backend
variable {σ τ : Type}

def ofParts (namer : ClassNamer σ) (allocator : PropertyAllocator τ) : Backend (σ × τ) where
  className rule label := fun (s, t) =>
    let (answer, s) := namer rule label s
    (answer, s, t)
  customProperty hint := fun (s, t) =>
    let (answer, t) := allocator.customProperty hint t
    (answer, s, t)
  target reference := fun (_, t) => allocator.target reference t

/-- The same backend, with every call and its answer appended to a list. -/
def recorded (b : Backend σ) : Backend (σ × List Call) where
  className rule label := fun (s, calls) =>
    let (answer, s) := b.className rule label s
    (answer, s, calls ++ [.className rule label answer])
  customProperty hint := fun (s, calls) =>
    let (answer, s) := b.customProperty hint s
    (answer, s, calls ++ [.customProperty hint answer])
  target reference := fun (s, _) => b.target reference s

end Backend
end StyleVariants
