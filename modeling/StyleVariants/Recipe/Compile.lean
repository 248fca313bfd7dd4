import StyleVariants.Recipe.Blueprint
import StyleVariants.StyleRule.Nest
import StyleVariants.Backend.Basic
import StyleVariants.CompiledRecipe.Basic

/-!
# Compiling recipes

Responsive axes are compiled condition by condition, so that the classes of a later
condition stand behind those of an earlier one in a style sheet and win over them.
-/
namespace StyleVariants

def qualifiedLabel (debugId : Option String) (name : String) : String :=
  match debugId with
  | some id => id ++ "_" ++ name
  | none => name

/-- An absent debug id counts as empty. -/
def underscoredLabel (debugId : Option String) (name : String) : String :=
  debugId.getD "" ++ "_" ++ name

namespace Blueprint
variable {σ : Type}

def isWrapped (plan : Blueprint) (name : String) (condition : Condition) : Bool :=
  name != plan.initial && !condition.isAlways

def ruleUnder (plan : Blueprint) (name : String) (condition : Condition) (rule : StyleRule) :
    StyleRule :=
  if plan.isWrapped name condition then rule.under condition else rule

def compileBase (plan : Blueprint) (backend : Backend σ) (debugId : Option String) :
    StateM σ String :=
  match plan.base with
  | .references classNames => pure classNames
  | .rule rule => backend.className rule debugId

/-- Regular options have a class under the initial condition only. -/
def compileRegular (plan : Blueprint) (backend : Backend σ) (debugId : Option String) :
    StateM σ ClassTable :=
  plan.regular.mapM fun axis options => options.mapM fun option rule => do
    let className ← backend.className rule (qualifiedLabel debugId (axis ++ "_" ++ option))
    return .singleton plan.initial className

/-- Options with their rules and the classes they have so far. -/
abbrev PartialTable := Axes (StyleRule × OrderedMap String String)

def extendResponsive (plan : Blueprint) (backend : Backend σ) (debugId : Option String)
    (name : String) (condition : Condition) (table : PartialTable) : StateM σ PartialTable :=
  table.mapM fun axis options => options.mapM fun option (rule, classNames) => do
    let className ← backend.className (plan.ruleUnder name condition rule)
      (qualifiedLabel debugId (name ++ "_" ++ axis ++ "_" ++ option))
    return (rule, classNames.insert name className)

def compileResponsive (plan : Blueprint) (backend : Backend σ) (debugId : Option String) :
    StateM σ ClassTable := do
  let start : PartialTable := plan.responsive.map fun _ options =>
    options.map fun _ rule => (rule, ∅)
  let table ← plan.conditions.entries.foldlM (fun table (name, condition) =>
    plan.extendResponsive backend debugId name condition table) start
  return table.map fun _ options => options.map fun _ cell => cell.2

/-- An inline axis on the way: its rule, its custom properties so far, and references to
them, the latest first. -/
structure InlineState where
  rule : StyleRule := ∅
  properties : OrderedMap String String := ∅
  references : List String := []

/-- Under a wrapped condition the custom property falls back on those of earlier conditions,
and is itself set to that chain, so that a value that is not given is not inherited. -/
def InlineState.extend (plan : Blueprint) (cssProperty name : String) (condition : Condition)
    (reference property : String) (state : InlineState) : InlineState :=
  let rule :=
    if plan.isWrapped name condition then
      let value : StyleValue := .text (Reference.chain (reference :: state.references))
      state.rule.addUnder condition (((∅ : StyleRule).set property value).set cssProperty value)
    else
      state.rule.set cssProperty (.text reference)
  ⟨rule, state.properties.insert name property, reference :: state.references⟩

def extendInline (plan : Blueprint) (backend : Backend σ) (axisName : String)
    (axis : InlineAxis) (name : String) (condition : Condition) (state : InlineState) :
    StateM σ InlineState := do
  let reference ← backend.customProperty (axisName ++ "-" ++ name)
  return state.extend plan axis.property name condition reference
    (backend.target reference (← get))

def inlineConditions (plan : Blueprint) (axis : InlineAxis) : List (String × Condition) :=
  plan.conditions.entries.filter fun e => axis.responsive || e.1 == plan.initial

def compileInline (plan : Blueprint) (backend : Backend σ) (debugId : Option String) :
    StateM σ (OrderedMap String CompiledInline) :=
  plan.inline.mapM fun axisName axis => do
    let state ← (plan.inlineConditions axis).foldlM (fun state (name, condition) =>
      plan.extendInline backend axisName axis name condition state) {}
    let className ← backend.className state.rule (underscoredLabel debugId ("inline_" ++ axisName))
    return ⟨className, state.properties⟩

def onlyRegular (plan : Blueprint) (compound : CompoundRule) : Bool :=
  compound.required.keys.all plan.regular.contains

/-- One class is enough if all axes are regular, because the compound then holds under all
conditions or none. -/
def compileCompound (plan : Blueprint) (backend : Backend σ) (debugId : Option String)
    (compound : CompoundRule) : StateM σ CompiledCompound := do
  let label := "compound_" ++ compound.name
  if plan.onlyRegular compound then
    let className ← backend.className compound.rule (underscoredLabel debugId label)
    return ⟨compound.required, .singleton plan.initial className⟩
  else
    let classNames ← plan.conditions.mapM fun name condition =>
      backend.className (plan.ruleUnder name condition compound.rule)
        (underscoredLabel debugId (label ++ "_" ++ name))
    return ⟨compound.required, classNames⟩

def compile (plan : Blueprint) (backend : Backend σ) (debugId : Option String) :
    StateM σ CompiledRecipe := do
  let base ← plan.compileBase backend debugId
  let regular ← plan.compileRegular backend debugId
  let responsive ← plan.compileResponsive backend debugId
  let inline ← plan.compileInline backend debugId
  let compounds ← plan.compounds.mapM (plan.compileCompound backend debugId)
  return {
    initial := plan.initial
    conditions := plan.conditions
    defaults := plan.defaults
    base, regular, responsive, inline, compounds }

end Blueprint

/-- Compiles a recipe. A refused one leaves the backend untouched. -/
def Recipe.compile {σ : Type} (r : Recipe) (family : RecipeDefaults) (backend : Backend σ)
    (debugId : Option String) : StateM σ (Except RecipeError CompiledRecipe) :=
  match r.blueprint family with
  | .ok plan => Except.ok <$> plan.compile backend debugId
  | .error error => pure (.error error)

end StyleVariants
