import StyleVariants.Condition
import StyleVariants.Primitive

/-! # Compiled recipes -/
namespace StyleVariants

/-- Class names by axis, option and condition. -/
abbrev ClassTable := OrderedMap String (OrderedMap String (OrderedMap String String))

structure CompiledInline where
  className : String
  properties : OrderedMap String String
  deriving BEq

structure CompiledCompound where
  required : OrderedMap String Primitive
  classNames : OrderedMap String String
  deriving BEq

structure CompiledRecipe where
  initial : String
  conditions : Conditions
  base : String
  regular : ClassTable
  responsive : ClassTable
  inline : OrderedMap String CompiledInline
  compounds : List CompiledCompound
  defaults : OrderedMap String Primitive
  deriving BEq

end StyleVariants
