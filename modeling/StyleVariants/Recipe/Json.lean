import StyleVariants.Recipe.Basic
import StyleVariants.StyleRule.Json

/-!
# Recipes as documents

All fields of a recipe may be missing; all are written, an unset optional one as null.
The fields of a compound are required. Each reader that can meet a style rule is told
how many nested containers are left for it.
-/
namespace StyleVariants

namespace Style

def toJson : Style → Json
  | reference className => .string className
  | references classNames => .ofList .string classNames
  | rule r => r.toJson

/-- A text is a class, an array of texts a list of classes, an object a rule. -/
def ofJson? (room : Nat) (doc : Json) : Option Style :=
  match doc with
  | .string className => some (reference className)
  | .array _ => (doc.list? Json.text?).map references
  | doc => (StyleRule.ofJson? room doc).map rule

end Style

namespace InlineAxis

def toJson (axis : InlineAxis) : Json :=
  .object (("property", .string axis.property) ::
    axis.isResponsive.toList.map fun b => ("isResponsive", .bool b))

def ofJson? (doc : Json) : Option InlineAxis := do
  let field ← doc.record? ["property", "isResponsive"]
  return {
    property := ← Json.required? Json.text? (field "property")
    isResponsive := ← Json.optional? none (Json.nullable? Json.bool?) (field "isResponsive") }

end InlineAxis

namespace Compound

def toJson (compound : Compound) : Json :=
  .object [("variants", .ofMap Primitive.toJson compound.required), ("style", compound.style.toJson)]

def ofJson? (room : Nat) (doc : Json) : Option Compound := do
  let field ← doc.record? ["variants", "style"]
  return {
    required := ← Json.required? (Json.map? Primitive.ofJson?) (field "variants")
    style := ← Json.required? (Style.ofJson? (room - 1)) (field "style") }

end Compound

namespace Recipe

def axesToJson (axes : Axes Style) : Json := .ofMap (.ofMap Style.toJson) axes

def axesOfJson? (room : Nat) (doc : Json) : Option (Axes Style) :=
  doc.map? (Json.map? (Style.ofJson? (room - 2)))

def toJson (r : Recipe) : Json :=
  .object [
    ("base", .ofOption Style.toJson r.base),
    ("variants", axesToJson r.regular),
    ("responsiveVariants", axesToJson r.responsive),
    ("inlineVariants", .ofMap InlineAxis.toJson r.inline),
    ("conditions", .ofOption Conditions.toJson r.conditions),
    ("initialCondition", .ofOption .string r.initial),
    ("compoundVariants", .ofList Compound.toJson r.compounds),
    ("defaultVariants", .ofMap Primitive.toJson r.defaults)]

def ofJson? (doc : Json) : Option Recipe := do
  let room := maxNesting - 1
  let field ← doc.record? ["base", "variants", "responsiveVariants", "inlineVariants",
    "conditions", "initialCondition", "compoundVariants", "defaultVariants"]
  return {
    base := ← Json.optional? none (Json.nullable? (Style.ofJson? room)) (field "base")
    regular := ← Json.optional? ∅ (axesOfJson? room) (field "variants")
    responsive := ← Json.optional? ∅ (axesOfJson? room) (field "responsiveVariants")
    inline := ← Json.optional? ∅ (Json.map? InlineAxis.ofJson?) (field "inlineVariants")
    conditions := ← Json.optional? none (Json.nullable? Conditions.ofJson?) (field "conditions")
    initial := ← Json.optional? none (Json.nullable? Json.text?) (field "initialCondition")
    compounds :=
      ← Json.optional? [] (Json.list? (Compound.ofJson? (room - 1))) (field "compoundVariants")
    defaults := ← Json.optional? ∅ (Json.map? Primitive.ofJson?) (field "defaultVariants") }

/-- The text that a hash of the recipe is taken of. -/
def text (r : Recipe) : String := r.toJson.text

end Recipe
end StyleVariants
