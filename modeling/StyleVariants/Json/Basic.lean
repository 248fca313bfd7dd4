import StyleVariants.OrderedMap.Basic
import StyleVariants.Number.Basic

/-!
# JSON documents

Members stand in written order, repeated keys included. A well-formed text without a
value, such as half a surrogate pair or a number too large for a double, is `unreadable`.
-/
namespace StyleVariants

inductive Json where
  | null
  | bool (value : Bool)
  | number (value : Number)
  | string (value : String)
  | array (items : List Json)
  | object (members : List (String × Json))
  | unreadable

namespace Json

def ofOption {α : Type} (f : α → Json) : Option α → Json
  | none => .null
  | some a => f a

def ofList {α : Type} (f : α → Json) (items : List α) : Json := .array (items.map f)

/-- The object of a map, its keys written by `key`. -/
def ofKeyed {κ α : Type} (key : κ → String) (f : α → Json) (m : OrderedMap κ α) : Json :=
  .object (m.entries.map fun e => (key e.1, f e.2))

def ofMap {α : Type} (f : α → Json) (m : OrderedMap String α) : Json := ofKeyed id f m

end Json
end StyleVariants
