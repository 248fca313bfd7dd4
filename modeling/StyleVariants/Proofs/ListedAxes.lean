import StyleVariants.CompiledRecipe.Definitions
import StyleVariants.Proofs.CompileSchedule
import StyleVariants.Proofs.EquivalentSelections

/-!
# Listed axes

The definitions of a compiled recipe list what the recipe declares, although they are read off
its tables: an option has a row there even if no condition gives it a class. They also tell the
truth about defaults. To choose the listed label of an axis by hand is to leave the axis alone: a
default has its place among the axes whether or not it is chosen, and nothing reads more of a
value than its labels.
-/
namespace StyleVariants

namespace Recipe

/-- An axis of a recipe as it should be listed: with these values, and with the label of its
default if it has one. -/
def listed (r : Recipe) (axis : String) (values : List String) : AxisDefinition where
  values := values
  default := (r.defaults.get? axis).map Primitive.label

def declared (r : Recipe) : Definitions where
  regular := r.regular.map fun axis options => r.listed axis options.keys
  responsive := r.responsive.map fun axis options => r.listed axis options.keys
  inline := r.inline.map fun axis _ => r.listed axis []
  defaults := r.defaults

end Recipe

namespace Blueprint
variable {σ : Type} {plan : Blueprint} {b : Backend σ} {answers : Answers Cell σ} {r : Recipe}
  {family : RecipeDefaults}

theorem define_filled (h : plan.Restates r family) (axis : String) (values : List String) :
    (plan.filled b answers).define axis values = r.listed axis values := by
  simp only [CompiledRecipe.define, Recipe.listed, filled, h.defaults]

/-- An option keeps its row, however many conditions have a class in it. -/
theorem definitions_filled (h : plan.Restates r family) :
    (plan.filled b answers).definitions = r.declared := by
  simp only [CompiledRecipe.definitions, Recipe.declared, define_filled h]
  simp [filled, regularTable, responsiveTable, h.regular, h.responsive, h.inline, h.defaults,
    ruleStyles]

end Blueprint

theorem Recipe.definitions_of_compile {σ : Type} {b : Backend σ} {debugId : Option String}
    {r : Recipe} {family : RecipeDefaults} {s t : σ} {compiled : CompiledRecipe}
    (h : r.compile family b debugId s = (.ok compiled, t)) : compiled.definitions = r.declared := by
  obtain ⟨plan, answers, hrestates, rfl, -⟩ := Recipe.run_of_compile h
  exact Blueprint.definitions_filled hrestates

inductive Definitions.Lists (d : Definitions) (axis : String) (definition : AxisDefinition) : Prop
  | regular : d.regular.get? axis = some definition → Lists d axis definition
  | responsive : d.responsive.get? axis = some definition → Lists d axis definition
  | inline : d.inline.get? axis = some definition → Lists d axis definition

namespace CompiledRecipe
variable {r : CompiledRecipe} {s t : Selection} {axis : String}

theorem label_of_lists {definition : AxisDefinition} (h : r.definitions.Lists axis definition) :
    (r.defaults.get? axis).map Primitive.label = definition.default := by
  cases h with
  | regular h | responsive h | inline h =>
      simp only [definitions, OrderedMap.get?_map] at h
      obtain ⟨row, -, rfl⟩ := Option.map_eq_some_iff.1 h
      rfl

theorem axesInForce_insert_default {p : Primitive} (hdefault : r.defaults.get? axis = some p)
    (choice : Option SelectionValue) :
    r.axesInForce (s.insert axis choice) = r.axesInForce s := by
  have haxis : axis ∈ r.defaults.keys := OrderedMap.mem_keys_iff.2 ⟨p, hdefault⟩
  unfold axesInForce
  congr 2
  exact Entries.filter_insert (by simp [haxis]) choice s.entries

theorem givenFor?_insert_default {p : Primitive} (hdefault : r.defaults.get? axis = some p)
    (hopen : (s.get? axis).join = none) (other : String) :
    r.givenFor? (s.insert axis (some (.single (.text p.label)))) other = r.givenFor? s other := by
  by_cases hother : other = axis
  · subst hother
    simp [givenFor?, valueFor?, hopen, hdefault, SelectionValue.given, Primitive.label]
  · apply givenFor?_congr
    rw [OrderedMap.get?_insert_of_ne hother]

theorem readAlike_insert_default {p : Primitive} (hdefault : r.defaults.get? axis = some p)
    (hopen : (s.get? axis).join = none) :
    r.ReadAlike (s.insert axis (some (.single (.text p.label)))) s :=
  readAlike_of_given (axesInForce_insert_default hdefault _)
    (givenFor?_insert_default hdefault hopen)

end CompiledRecipe

/-- The definitions of a recipe that compiles list exactly its axes, options and defaults, in
order. Of any tables, to choose a listed default for an axis that a selection leaves open gives
the same classes and custom properties in the same order. -/
theorem Definitions.list_declared_and_resolve_alike :
    (∀ {σ : Type} (b : Backend σ) (debugId : Option String) (r : Recipe) (family : RecipeDefaults)
      (s t : σ) (compiled : CompiledRecipe), r.compile family b debugId s = (.ok compiled, t) →
      compiled.definitions = r.declared) ∧
    (∀ (r : CompiledRecipe) (axis label : String) (definition : AxisDefinition) (s : Selection),
      r.definitions.Lists axis definition → definition.default = some label →
      s.isEmpty = false → (s.get? axis).join = none →
      r.resolve (some (s.insert axis (some (.single (.text label))))) = r.resolve (some s)) := by
  refine ⟨fun b debugId r family s t compiled h => Recipe.definitions_of_compile h, ?_⟩
  intro r axis label definition s hlists hlabel hs hopen
  obtain ⟨p, hdefault, rfl⟩ :=
    Option.map_eq_some_iff.1 ((CompiledRecipe.label_of_lists hlists).trans hlabel)
  have hchosen : (s.insert axis (some (.single (.text p.label)))).isEmpty = false :=
    OrderedMap.isEmpty_of_get? (OrderedMap.get?_insert_self s axis _)
  exact (CompiledRecipe.readAlike_insert_default hdefault hopen).resolve_eq hchosen hs

/-- A number as a default, for an axis whose options have no condition to stand under. -/
def columned : Recipe where
  regular := .ofList [("tone", .ofList [("dark", .rule ∅)])]
  responsive := .ofList [("cols", .ofList [("1", .rule ∅), ("3", .rule ∅)])]
  inline := .ofList [("gap", { property := "gap" })]
  conditions := some ∅
  defaults := .ofList [("cols", .number (.int 3 (by decide))), ("gap", .text "4px")]

/-- Classes for three columns that no compilation gives, and a property for the gap. -/
def gridded : CompiledRecipe where
  initial := "initial"
  conditions := .ofList [("initial", .always), ("wide", .always)]
  base := "grid"
  regular := .ofList [("tone", .ofList [("dark", .ofList [("initial", "d0")])])]
  responsive := .ofList [("cols", .ofList [("3", .ofList [("initial", "c3"), ("wide", "w3")])])]
  inline := .ofList [("gap", ⟨"spaced", .ofList [("initial", "--gap")]⟩)]
  compounds := [⟨.ofList [("cols", .text "3"), ("tone", .text "dark")],
    .ofList [("initial", "b0"), ("wide", "b1")]⟩]
  defaults := .ofList [("cols", .number (.int 3 (by decide))), ("gap", .text "4px")]

def darkOnly : Selection :=
  .ofList [("tone", some (.single (.text "dark"))), ("cols", none)]

theorem Definitions.list_declared_and_resolve_alike_columned :
    (∃ (compiled : CompiledRecipe) (t : Unit × Nat),
      columned.compile {} labelling none ((), 0) = (.ok compiled, t) ∧
      compiled.definitions = columned.declared) ∧
    gridded.definitions.Lists "cols" ⟨["3"], some "3"⟩ ∧ darkOnly.isEmpty = false ∧
    (darkOnly.get? "cols").join = none ∧
    gridded.resolve (some (darkOnly.insert "cols" (some (.single (.text "3"))))) =
      gridded.resolve (some darkOnly) := by
  obtain ⟨hdeclared, halike⟩ := Definitions.list_declared_and_resolve_alike
  have hlists : gridded.definitions.Lists "cols" ⟨["3"], some "3"⟩ := .responsive rfl
  refine ⟨⟨_, _, rfl, hdeclared labelling none columned {} _ _ _ rfl⟩, hlists, by decide,
    by decide, ?_⟩
  exact halike gridded "cols" "3" _ darkOnly hlists rfl (by decide) (by decide)

example : (gridded.resolve (some darkOnly)).className = "grid c3 d0 spaced b0" := by decide

end StyleVariants
