import StyleVariants.Recipe.Error

/-!
# Blueprints

A blueprint is a recipe that was accepted, so that compiling it cannot fail.
-/
namespace StyleVariants

/-- What a family of recipes falls back on. -/
structure RecipeDefaults where
  conditions : Conditions := ∅
  initial : Option String := none

inductive BaseStyle where
  | references (classNames : String)
  | rule (rule : StyleRule)

structure CompoundRule where
  required : OrderedMap String Primitive
  rule : StyleRule

def CompoundRule.name (compound : CompoundRule) : String :=
  "_".intercalate (compound.required.entries.map fun e => e.1 ++ "_" ++ e.2.label)

structure Blueprint where
  initial : String
  conditions : Conditions
  base : BaseStyle
  regular : Axes StyleRule
  responsive : Axes StyleRule
  inline : OrderedMap String InlineAxis
  compounds : List CompoundRule
  defaults : OrderedMap String Primitive

/-- An absent base is the empty rule. -/
def BaseStyle.ofStyle : Option Style → BaseStyle
  | none => .rule ∅
  | some (.reference name) => .references name
  | some (.references names) => .references (" ".intercalate names)
  | some (.rule r) => .rule r

namespace Recipe

def groupRules (group : String) (axes : Axes Style) : Except RecipeError (Axes StyleRule) :=
  axes.mapM fun axis options => options.mapM fun option style =>
    style.ruleAt (group ++ "." ++ axis ++ "." ++ option)

/-- The rules of the compounds, counted from `index`. -/
def compoundRules (index : Nat) : List Compound → Except RecipeError (List CompoundRule)
  | [] => .ok []
  | compound :: rest => do
      let rule ← compound.style.ruleAt ("compoundVariants[" ++ toString index ++ "].style")
      let rest ← compoundRules (index + 1) rest
      return ⟨compound.required, rule⟩ :: rest

/-- An empty name counts as none. -/
def settleInitial (own family : Option String) : String :=
  ((own.or family).filter (· ≠ "")).getD "initial"

/-- The first offence is reported: overlapping axes in declaration order, then the styles of
regular axes, of responsive axes and of compounds. -/
def blueprint (family : RecipeDefaults) (r : Recipe) : Except RecipeError Blueprint :=
  match firstOverlap? [] r.axes with
  | some error => .error error
  | none => do
      let regular ← groupRules "variants" r.regular
      let responsive ← groupRules "responsiveVariants" r.responsive
      let compounds ← compoundRules 0 r.compounds
      return {
        initial := settleInitial r.initial family.initial
        conditions := r.conditions.getD family.conditions
        base := .ofStyle r.base
        regular, responsive, compounds
        inline := r.inline
        defaults := r.defaults }

end Recipe
end StyleVariants
