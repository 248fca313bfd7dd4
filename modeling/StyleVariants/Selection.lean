import StyleVariants.Primitive

/-!
# Selections

What a caller chooses for each axis. Choosing nothing keeps the default of the axis.
-/
namespace StyleVariants

inductive SelectionValue where
  | single (value : Primitive)
  | perCondition (values : OrderedMap String (Option Primitive))
  deriving BEq

abbrev Selection := OrderedMap String (Option SelectionValue)

namespace SelectionValue

def ofEntries (entries : List (String × Primitive)) : SelectionValue :=
  .perCondition (.ofList (entries.map fun e => (e.1, some e.2)))

def toJson : SelectionValue → Json
  | single value => value.toJson
  | perCondition values => .ofMap (.ofOption Primitive.toJson) values

/-- An object is a value per condition, anything else a single value. -/
def ofJson? (doc : Json) : Option SelectionValue :=
  match doc with
  | .object _ => (doc.map? (Json.nullable? Primitive.ofJson?)).map perCondition
  | doc => (Primitive.ofJson? doc).map single

end SelectionValue

namespace Selection

def toJson (s : Selection) : Json := .ofMap (.ofOption SelectionValue.toJson) s

def ofJson? (doc : Json) : Option Selection := doc.map? (Json.nullable? SelectionValue.ofJson?)

end Selection
end StyleVariants
