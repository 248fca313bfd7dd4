import StyleVariants.Recipe.Basic

/-!
# Refused recipes

A recipe is refused if an axis belongs to two groups, or if a style that conditions
must be able to wrap is a class reference.
-/
namespace StyleVariants

inductive RecipeError where
  | classReference (location : String)
  | overlappingAxis (axis first second : String)
  deriving DecidableEq

namespace RecipeError

def message : RecipeError → String
  | classReference location =>
      "only style objects are allowed inside of variants, found a class reference at `" ++
        location ++ "`"
  | overlappingAxis axis first second =>
      "variant `" ++ axis ++ "` is declared in both `" ++ first ++ "` and `" ++ second ++ "`"

end RecipeError

def Style.ruleAt (style : Style) (location : String) : Except RecipeError StyleRule :=
  match style.asRule? with
  | some r => .ok r
  | none => .error (.classReference location)

namespace Recipe

def axes (r : Recipe) : List (String × String) :=
  r.regular.keys.map (·, "variants") ++ r.responsive.keys.map (·, "responsiveVariants") ++
    r.inline.keys.map (·, "inlineVariants")

/-- The first axis that was seen before, with the group of its earlier occurrence. -/
def firstOverlap? (seen : List (String × String)) : List (String × String) → Option RecipeError
  | [] => none
  | (axis, group) :: rest =>
      match Entries.get? axis seen with
      | some first => some (.overlappingAxis axis first group)
      | none => firstOverlap? ((axis, group) :: seen) rest

end Recipe
end StyleVariants
