import StyleVariants.StyleRule.Basic
import StyleVariants.Json.Decode
import StyleVariants.Json.Writer

/-!
# Style rules as documents

Rules are the only shape without a fixed depth, so they are read with the number of nested
containers that are still allowed.
-/
namespace StyleVariants

mutual

def StyleTree.toJson : StyleTree → Json
  | .number n => .number n
  | .text s => .string s
  | .block es => .object (StyleTree.toMembers es)

def StyleTree.toMembers : List (String × StyleTree) → List (String × Json)
  | [] => []
  | (property, t) :: es => (property, t.toJson) :: StyleTree.toMembers es

end

mutual

def StyleValue.ofJson? (room : Nat) : Json → Option StyleValue
  | .number n => some (.number n)
  | .string s => some (.text s)
  | .object members =>
      match room with
      | 0 => none
      | room + 1 => (StyleValue.ofMembers? room members).map fun es => .block (.ofList es)
  | _ => none

def StyleValue.ofMembers? (room : Nat) :
    List (String × Json) → Option (List (String × StyleValue))
  | [] => some []
  | (property, doc) :: members => do
      let value ← StyleValue.ofJson? room doc
      let rest ← StyleValue.ofMembers? room members
      return (property, value) :: rest

end

def StyleValue.toJson (value : StyleValue) : Json := value.tree.toJson

namespace StyleRule

def toJson (rule : StyleRule) : Json := rule.tree.toJson

def ofJson? (room : Nat) (doc : Json) : Option StyleRule :=
  (StyleValue.ofJson? room doc).bind StyleValue.asBlock?

/-- The text that a hash of the rule is taken of. -/
def text (rule : StyleRule) : String := rule.toJson.text

end StyleRule

/-- How many containers a document may nest. -/
def maxNesting : Nat := 127

end StyleVariants
