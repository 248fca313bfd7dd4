import StyleVariants.ClassName.Registry
import StyleVariants.CustomProperty.Registry
import StyleVariants.Recipe.Compile
import StyleVariants.CompiledRecipe.Json

/-! # Recipes on their own -/
namespace StyleVariants

def registries (digest : String → String) : Backend (ClassRegistry × PropertyRegistry) :=
  .ofParts (ClassRegistry.className digest) (PropertyRegistry.allocator digest)

structure Stylesheet where
  recipe : CompiledRecipe
  css : String

def Stylesheet.toJson (sheet : Stylesheet) : Json :=
  .object [("buildResult", sheet.recipe.toJson), ("css", .string sheet.css)]

/-- Compiles a recipe from empty registries, its custom properties in a scope of its own. -/
def Recipe.stylesheet (digest : String → String) (r : Recipe) (debugId : Option String)
    (options : NamingOptions) : Except RecipeError Stylesheet :=
  let properties := PropertyRegistry.ofRecipe digest options.scope debugId r
  let (result, classes, _) := r.compile {} (registries digest) debugId ({ options }, properties)
  result.map fun compiled => ⟨compiled, classes.css⟩

end StyleVariants
