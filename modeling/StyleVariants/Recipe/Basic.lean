import StyleVariants.StyleRule.Basic
import StyleVariants.Condition
import StyleVariants.Primitive

/-!
# Recipes

A regular axis looks the same under every condition, a responsive one has a look for
each, and an inline one takes its value from a custom property.
-/
namespace StyleVariants

inductive Style where
  | reference (className : String)
  | references (classNames : List String)
  | rule (rule : StyleRule)
  deriving BEq

namespace Style

def asRule? : Style → Option StyleRule
  | .rule r => some r
  | _ => none

end Style

/-- Axes by name, each with its options by name. -/
abbrev Axes (α : Type) := OrderedMap String (OrderedMap String α)

structure InlineAxis where
  property : String
  isResponsive : Option Bool := none
  deriving BEq

def InlineAxis.responsive (axis : InlineAxis) : Bool := axis.isResponsive.getD true

/-- A style for the case that every axis named here has its required value. -/
structure Compound where
  required : OrderedMap String Primitive
  style : Style
  deriving BEq

structure Recipe where
  base : Option Style := none
  regular : Axes Style := ∅
  responsive : Axes Style := ∅
  inline : OrderedMap String InlineAxis := ∅
  conditions : Option Conditions := none
  initial : Option String := none
  compounds : List Compound := []
  defaults : OrderedMap String Primitive := ∅
  deriving BEq

end StyleVariants
