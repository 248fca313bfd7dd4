import StyleVariants.Stylesheet
import StyleVariants.Backend.Echo
import StyleVariants.Digest.Blake3
import StyleVariants.Json.Reader
import StyleVariants.StyleRule.Lemmas
import StyleVariants.Proofs.CompoundEmission
import StyleVariants.Proofs.CompileSchedule
import StyleVariants.Proofs.InlineForwardFill
import StyleVariants.Proofs.ResponsiveCascade
import StyleVariants.Proofs.RegisteredClasses
import StyleVariants.Proofs.RenderedClasses
import StyleVariants.Proofs.InlineInitialValue
import StyleVariants.Proofs.StoredRecipes
import StyleVariants.Proofs.PropertyRuns
import StyleVariants.Proofs.SettledNames
import StyleVariants.Proofs.RepeatedCompilation
import StyleVariants.Proofs.ResolvedSelections
import StyleVariants.Proofs.DistinctProperties
import StyleVariants.Proofs.EquivalentSelections
import StyleVariants.Proofs.SelectionOrder
import StyleVariants.Proofs.RefusedRecipes
import StyleVariants.Proofs.NamesAside
import StyleVariants.Proofs.RegularAxes
import StyleVariants.Proofs.NestedRules
import StyleVariants.Proofs.WrappedRules
import StyleVariants.Proofs.RecipeScopes
import StyleVariants.Proofs.ClassTokens
import StyleVariants.Proofs.ListedAxes
import StyleVariants.Proofs.CssReading
import StyleVariants.Proofs.PrintedDeclarations
import StyleVariants.Proofs.BoundedNames
import StyleVariants.Proofs.NumberTexts
import StyleVariants.Proofs.HashedRequests
import StyleVariants.Proofs.DocumentRoundTrips
