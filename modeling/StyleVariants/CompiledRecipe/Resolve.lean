import StyleVariants.CompiledRecipe.Basic
import StyleVariants.Selection

/-!
# Resolving selections

Defaults and selection put at most one value in force for every axis. Tables give the
classes of its labels, inline axes write them to custom properties, and a compound adds
its class wherever its requirements begin to be met.
-/
namespace StyleVariants

structure Resolution where
  className : String
  style : OrderedMap String String
  deriving BEq

namespace SelectionValue

/-- A single value is given under the initial condition. -/
def labelAt? (value : SelectionValue) (initial condition : String) : Option String :=
  match value with
  | single p => if condition = initial then some p.label else none
  | perCondition values => (values.get? condition).bind fun p => p.map Primitive.label

/-- The label in force at each condition: the one given there, or else the one in force
before. -/
def fill (value : SelectionValue) (initial : String) (carried : Option String) :
    List String → List (Option String)
  | [] => []
  | condition :: rest =>
      let label := (value.labelAt? initial condition).or carried
      label :: value.fill initial label rest

def given (value : SelectionValue) (initial : String) : List (String × String) :=
  match value with
  | single p => [(initial, p.label)]
  | perCondition values => values.entries.filterMap fun e => e.2.map fun p => (e.1, p.label)

end SelectionValue

namespace CompiledRecipe

/-- A value of the selection takes the place of a default; choosing nothing leaves it. -/
def inForce (r : CompiledRecipe) (selection : Selection) : OrderedMap String SelectionValue :=
  selection.entries.foldl (fun values e =>
    match e.2 with
    | some value => values.insert e.1 value
    | none => values) (r.defaults.map fun _ p => .single p)

def options? (r : CompiledRecipe) (axis : String) :
    Option (OrderedMap String (OrderedMap String String)) :=
  (r.regular.get? axis).or (r.responsive.get? axis)

/-- The empty label names no option. -/
def cell? (options : OrderedMap String (OrderedMap String String)) (label condition : String) :
    Option String :=
  if label = "" then none else (options.get? label).bind (·.get? condition)

def axisClasses (r : CompiledRecipe) (axis : String) (value : SelectionValue) : List String :=
  match r.options? axis with
  | none => []
  | some options =>
      (value.given r.initial).filterMap fun (condition, label) => cell? options label condition

def tableClasses (r : CompiledRecipe) (values : OrderedMap String SelectionValue) :
    List String :=
  values.entries.flatMap fun e => r.axisClasses e.1 e.2

def inlineInForce (r : CompiledRecipe) (values : OrderedMap String SelectionValue) :
    List (CompiledInline × SelectionValue) :=
  r.inline.entries.filterMap fun e => (values.get? e.1).map (e.2, ·)

def inlineStyle (initial : String) (inline : CompiledInline) (value : SelectionValue) :
    List (String × String) :=
  inline.properties.entries.filterMap fun e => (value.labelAt? initial e.1).map (e.2, ·)

/-- Whether the label in force is the required one, condition by condition. -/
def met (initial : String) (conditions : List String) (required : Primitive)
    (value : SelectionValue) : List Bool :=
  (value.fill initial none conditions).map (· == some required.label)

/-- There is no answer if an axis has no value in force. -/
def allMet? (initial : String) (values : OrderedMap String SelectionValue)
    (conditions : List String) : List (String × Primitive) → Option (List Bool)
  | [] => some (conditions.map fun _ => true)
  | (axis, required) :: rest => do
      let value ← values.get? axis
      let others ← allMet? initial values conditions rest
      return List.zipWith (· && ·) (met initial conditions required value) others

/-- Where a run of `true` begins; `previous` is what came before the list. -/
def onsets (previous : Bool) : List Bool → List Bool
  | [] => []
  | b :: rest => (b && !previous) :: onsets b rest

/-- A class that holds from one condition on is not repeated at the next. -/
def compoundClasses (initial : String) (values : OrderedMap String SelectionValue)
    (compound : CompiledCompound) : List String :=
  match allMet? initial values compound.classNames.keys compound.required.entries with
  | none => []
  | some holds =>
      (compound.classNames.entries.zip (onsets false holds)).filterMap fun (e, begins) =>
        if begins then some e.2 else none

def resolveInForce (r : CompiledRecipe) (values : OrderedMap String SelectionValue) : Resolution :=
  let inline := r.inlineInForce values
  let classNames := r.base :: r.tableClasses values ++ inline.map (·.1.className) ++
    r.compounds.flatMap (compoundClasses r.initial values)
  { className := " ".intercalate (classNames.filter (· ≠ ""))
    style := .ofList (inline.flatMap fun (axis, value) => inlineStyle r.initial axis value) }

/-- An absent or empty selection gives the base alone, without any defaults. -/
def resolve (r : CompiledRecipe) (selection : Option Selection) : Resolution :=
  match selection with
  | none => ⟨r.base, ∅⟩
  | some s => if s.isEmpty then ⟨r.base, ∅⟩ else r.resolveInForce (r.inForce s)

end CompiledRecipe
end StyleVariants
