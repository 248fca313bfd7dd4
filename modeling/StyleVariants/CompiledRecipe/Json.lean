import StyleVariants.CompiledRecipe.Definitions
import StyleVariants.CompiledRecipe.Resolve

/-!
# Compiled recipes as documents

A compiled recipe can be stored and resolved later. All fields of these records are
required, and maps keep their order.
-/
namespace StyleVariants

namespace ClassTable

def toJson (table : ClassTable) : Json := .ofMap (.ofMap (.ofMap .string)) table

def ofJson? (doc : Json) : Option ClassTable := doc.map? (Json.map? (Json.map? Json.text?))

end ClassTable

namespace CompiledInline

def toJson (axis : CompiledInline) : Json :=
  .object [("className", .string axis.className), ("style", .ofMap .string axis.properties)]

def ofJson? (doc : Json) : Option CompiledInline := do
  let field ← doc.record? ["className", "style"]
  return {
    className := ← Json.required? Json.text? (field "className")
    properties := ← Json.required? (Json.map? Json.text?) (field "style") }

end CompiledInline

namespace CompiledCompound

/-- A pair of the required values and the class names. -/
def toJson (compound : CompiledCompound) : Json :=
  .array [.ofMap Primitive.toJson compound.required, .ofMap .string compound.classNames]

def ofJson? : Json → Option CompiledCompound
  | .array [required, classNames] => do
      return ⟨← required.map? Primitive.ofJson?, ← classNames.map? Json.text?⟩
  | _ => none

end CompiledCompound

namespace CompiledRecipe

def toJson (r : CompiledRecipe) : Json :=
  .object [
    ("initialCondition", .string r.initial),
    ("conditions", Conditions.toJson r.conditions),
    ("baseClassName", .string r.base),
    ("variantClassNames", ClassTable.toJson r.regular),
    ("responsiveVariantClassNames", ClassTable.toJson r.responsive),
    ("inlineVariantData", .ofMap CompiledInline.toJson r.inline),
    ("compoundVariants", .ofList CompiledCompound.toJson r.compounds),
    ("defaultVariants", .ofMap Primitive.toJson r.defaults)]

def ofJson? (doc : Json) : Option CompiledRecipe := do
  let field ← doc.record? ["initialCondition", "conditions", "baseClassName",
    "variantClassNames", "responsiveVariantClassNames", "inlineVariantData",
    "compoundVariants", "defaultVariants"]
  return {
    initial := ← Json.required? Json.text? (field "initialCondition")
    conditions := ← Json.required? Conditions.ofJson? (field "conditions")
    base := ← Json.required? Json.text? (field "baseClassName")
    regular := ← Json.required? ClassTable.ofJson? (field "variantClassNames")
    responsive := ← Json.required? ClassTable.ofJson? (field "responsiveVariantClassNames")
    inline := ← Json.required? (Json.map? CompiledInline.ofJson?) (field "inlineVariantData")
    compounds :=
      ← Json.required? (Json.list? CompiledCompound.ofJson?) (field "compoundVariants")
    defaults := ← Json.required? (Json.map? Primitive.ofJson?) (field "defaultVariants") }

end CompiledRecipe

namespace Resolution

def toJson (r : Resolution) : Json :=
  .object [("className", .string r.className), ("style", .ofMap .string r.style)]

def ofJson? (doc : Json) : Option Resolution := do
  let field ← doc.record? ["className", "style"]
  return {
    className := ← Json.required? Json.text? (field "className")
    style := ← Json.required? (Json.map? Json.text?) (field "style") }

end Resolution

/-- A default is left out where there is none. -/
def AxisDefinition.toJson (d : AxisDefinition) : Json :=
  .object (("values", .ofList .string d.values) ::
    d.default.toList.map fun label => ("defaultValue", .string label))

def Definitions.toJson (d : Definitions) : Json :=
  .object [
    ("variants", .ofMap AxisDefinition.toJson d.regular),
    ("responsiveVariants", .ofMap AxisDefinition.toJson d.responsive),
    ("inlineVariants", .ofMap AxisDefinition.toJson d.inline),
    ("defaultVariants", .ofMap Primitive.toJson d.defaults)]

end StyleVariants
