import StyleVariants.StyleRule.Basic
import StyleVariants.Condition

/-! # Rules under conditions -/
namespace StyleVariants.StyleRule

def block (rule : StyleRule) (name : String) : StyleRule :=
  ((rule.get? name).bind StyleValue.asBlock?).getD ∅

def setBlock (rule : StyleRule) (name : String) (inner : StyleRule) : StyleRule :=
  rule.set name (.block inner)

/-- Blocks on the way are shared with what stands there already; the innermost one belongs
to the added rule alone. -/
def addAt (rule inner : StyleRule) : List (String × String) → StyleRule
  | [] => rule.setAll inner
  | [(name, predicate)] => rule.setBlock name ((rule.block name).setBlock predicate inner)
  | (name, predicate) :: next :: path =>
      let blocks := rule.block name
      rule.setBlock name
        (blocks.setBlock predicate ((blocks.block predicate).addAt inner (next :: path)))

def addUnder (rule : StyleRule) (condition : Condition) (inner : StyleRule) : StyleRule :=
  rule.addAt inner condition.path

def under (rule : StyleRule) (condition : Condition) : StyleRule :=
  (∅ : StyleRule).addUnder condition rule

end StyleVariants.StyleRule
