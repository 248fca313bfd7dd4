import StyleVariants.Json.Decode

/-!
# Primitive values

Choices are compared by label, the text under which an option is declared.
-/
namespace StyleVariants

inductive Primitive where
  | bool (value : Bool)
  | number (value : Number)
  | text (value : String)
  deriving BEq

namespace Primitive

def label : Primitive → String
  | .bool true => "true"
  | .bool false => "false"
  | .number n => n.text
  | .text s => s

def toJson : Primitive → Json
  | .bool b => .bool b
  | .number n => .number n
  | .text s => .string s

def ofJson? : Json → Option Primitive
  | .bool b => some (.bool b)
  | .number n => some (.number n)
  | .string s => some (.text s)
  | _ => none

end Primitive
end StyleVariants
