import StyleVariants.Json.Decode

/-!
# Conditions

A condition has at most one predicate of each kind. The predicates are opaque texts.
-/
namespace StyleVariants

inductive ConditionKind where
  | media
  | supports
  | container
  | selector
  deriving DecidableEq

namespace ConditionKind

def all : List ConditionKind := [media, supports, container, selector]

def name : ConditionKind → String
  | media => "@media"
  | supports => "@supports"
  | container => "@container"
  | selector => "selector"

def ofName? (name : String) : Option ConditionKind := all.find? (·.name == name)

/-- The name of the block in a style rule that holds rules under predicates of the kind. -/
def blockName : ConditionKind → String
  | media => "@media"
  | supports => "@supports"
  | container => "@container"
  | selector => "selectors"

theorem ofName?_name (kind : ConditionKind) : ofName? kind.name = some kind := by
  cases kind <;> decide

end ConditionKind

structure Condition where
  predicates : OrderedMap ConditionKind String
  deriving BEq

/-- Named conditions; a later one takes precedence over an earlier one. -/
abbrev Conditions := OrderedMap String Condition

namespace Condition

def always : Condition := ⟨∅⟩

/-- Adds a predicate, or replaces the one of the same kind in its place. -/
def insert (c : Condition) (kind : ConditionKind) (predicate : String) : Condition :=
  ⟨c.predicates.insert kind predicate⟩

def isAlways (c : Condition) : Bool := c.predicates.isEmpty

/-- The way through nested blocks to the rules under the condition, the outermost first. -/
def path (c : Condition) : List (String × String) :=
  c.predicates.entries.map fun e => (e.1.blockName, e.2)

theorem isAlways_iff {c : Condition} : c.isAlways = true ↔ c.path = [] := by
  simp [isAlways, path, OrderedMap.isEmpty]

def toJson (c : Condition) : Json := .ofKeyed ConditionKind.name .string c.predicates

def ofJson? (doc : Json) : Option Condition :=
  (doc.keyed? ConditionKind.ofName? Json.text?).map Condition.mk

end Condition

namespace Conditions

def toJson (cs : Conditions) : Json := .ofMap Condition.toJson cs

def ofJson? (doc : Json) : Option Conditions := doc.map? Condition.ofJson?

end Conditions
end StyleVariants
