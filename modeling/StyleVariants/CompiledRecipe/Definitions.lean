import StyleVariants.CompiledRecipe.Basic

/-!
# Variant definitions

The axes of each group with their options and defaults. Inline axes have no options.
-/
namespace StyleVariants

structure AxisDefinition where
  values : List String
  default : Option String

structure Definitions where
  regular : OrderedMap String AxisDefinition
  responsive : OrderedMap String AxisDefinition
  inline : OrderedMap String AxisDefinition
  defaults : OrderedMap String Primitive

namespace CompiledRecipe

def define (r : CompiledRecipe) (axis : String) (values : List String) : AxisDefinition :=
  ⟨values, (r.defaults.get? axis).map Primitive.label⟩

def definitions (r : CompiledRecipe) : Definitions where
  regular := r.regular.map fun axis options => r.define axis options.keys
  responsive := r.responsive.map fun axis options => r.define axis options.keys
  inline := r.inline.map fun axis _ => r.define axis []
  defaults := r.defaults

end CompiledRecipe
end StyleVariants
