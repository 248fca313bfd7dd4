import StyleVariants.ClassName.Naming

/-!
# Naming options

Both options may be missing from a document, and an empty scope counts as missing.
-/
namespace StyleVariants

structure NamingOptions where
  mode : NamingMode := .hash
  scope : String := "recipes"
  deriving DecidableEq

namespace NamingMode

def ofName? : String → Option NamingMode
  | "hash" => some .hash
  | "readable" => some .readable
  | "camelCase" => some .camelCase
  | _ => none

/-- The name of a mode, bare or as the only key of an object with the value null. -/
def ofJson? : Json → Option NamingMode
  | .string name => ofName? name
  | .object [(name, .null)] => ofName? name
  | _ => none

end NamingMode

def NamingOptions.ofJson? (doc : Json) : Option NamingOptions := do
  let field ← doc.record? ["namingMode", "fileScope"]
  let mode ← Json.optional? .hash NamingMode.ofJson? (field "namingMode")
  let scope ← Json.optional? none (Json.nullable? Json.text?) (field "fileScope")
  return { mode, scope := (scope.filter (· ≠ "")).getD "recipes" }

end StyleVariants
