import StyleVariants.Proofs.ResolvedSelections

/-!
# What resolving reads of a selection

A value takes part in three ways: its labels are looked up in a table in the order in which
they are given, an inline axis writes them condition by condition, and a compound carries them
along its conditions. All three read nothing but the labels given. The last two look them up
by condition and the axes by name, so they do not see any order of the selection, and they
look at the axes that the tables name and at no others.
-/
namespace StyleVariants

namespace SelectionValue
variable {v w : SelectionValue} {initial : String}

/-- What is found under a condition depends on which labels are given, not on their order. -/
theorem labelAt?_eq_of_given (h : ∀ e, e ∈ v.given initial ↔ e ∈ w.given initial) :
    v.labelAt? initial = w.labelAt? initial := by
  funext condition
  apply Option.ext
  intro label
  rw [labelAt?_eq_some_iff, labelAt?_eq_some_iff, ← mem_given_iff, ← mem_given_iff, h]

theorem fill_congr {conditions : List String}
    (h : ∀ condition ∈ conditions, v.labelAt? initial condition = w.labelAt? initial condition)
    (carried : Option String) :
    v.fill initial carried conditions = w.fill initial carried conditions := by
  induction conditions generalizing carried with
  | nil => rfl
  | cons condition rest ih =>
      have hrest := ih fun other hother => h other (List.mem_cons_of_mem _ hother)
      simp only [fill, h condition List.mem_cons_self, hrest]

end SelectionValue

namespace CompiledRecipe

/-- An axis has a table of classes, is an inline one, or is constrained by a compound. -/
inductive Names (r : CompiledRecipe) (axis : String) : Prop
  | regular : axis ∈ r.regular.keys → Names r axis
  | responsive : axis ∈ r.responsive.keys → Names r axis
  | inline : axis ∈ r.inline.keys → Names r axis
  | compound {compound : CompiledCompound} : compound ∈ r.compounds →
      axis ∈ compound.required.keys → Names r axis

theorem axisClasses_of_not_names {r : CompiledRecipe} {axis : String} (h : ¬ r.Names axis)
    (value : SelectionValue) : r.axisClasses axis value = [] := by
  have hregular : r.regular.get? axis = none :=
    Entries.get?_eq_none_iff.2 fun hmem => h (.regular hmem)
  have hresponsive : r.responsive.get? axis = none :=
    Entries.get?_eq_none_iff.2 fun hmem => h (.responsive hmem)
  simp [axisClasses, options?, hregular, hresponsive]

/-- The labels of the value that counts for an axis, in the order given. -/
def givenFor? (r : CompiledRecipe) (selection : Selection) (axis : String) :
    Option (List (String × String)) :=
  (r.valueFor? selection axis).map (·.given r.initial)

def labelsFor? (r : CompiledRecipe) (selection : Selection) (axis : String) :
    Option (String → Option String) :=
  (r.valueFor? selection axis).map (·.labelAt? r.initial)

def classesFor (r : CompiledRecipe) (selection : Selection) (axis : String) : List String :=
  ((r.valueFor? selection axis).map (r.axisClasses axis)).getD []

theorem tableClasses_inForce (r : CompiledRecipe) (selection : Selection) :
    r.tableClasses (r.inForce selection) =
      (r.axesInForce selection).flatMap (r.classesFor selection) := by
  rw [← keys_inForce, OrderedMap.keys, List.flatMap_map, tableClasses]
  apply List.flatMap_congr
  intro e he
  have hvalue : r.valueFor? selection e.1 = some e.2 := by
    rw [← get?_inForce]
    exact OrderedMap.get?_eq_some_iff.2 he
  simp [classesFor, hvalue]

theorem classesFor_eq (r : CompiledRecipe) (selection : Selection) (axis : String) :
    r.classesFor selection axis = ((r.givenFor? selection axis).getD []).filterMap
      fun e => r.cellOf? axis e.2 e.1 := by
  unfold classesFor givenFor?
  cases r.valueFor? selection axis with
  | none => rfl
  | some value => exact r.axisClasses_eq_filterMap axis value

/-- Equal labels by condition for every axis that the tables name. -/
def SameLabels (r : CompiledRecipe) (s t : Selection) : Prop :=
  ∀ axis, r.Names axis → r.labelsFor? s axis = r.labelsFor? t axis

variable {r : CompiledRecipe} {s t : Selection}

theorem sameLabels_of_given (h : ∀ axis, r.Names axis → r.givenFor? s axis = r.givenFor? t axis) :
    r.SameLabels s t := by
  intro axis haxis
  have hgiven := h axis haxis
  unfold givenFor? at hgiven
  unfold labelsFor?
  cases hs : r.valueFor? s axis <;> cases ht : r.valueFor? t axis <;>
    simp only [hs, ht, Option.map_none, Option.map_some, reduceCtorEq,
      Option.some.injEq] at hgiven ⊢
  exact SelectionValue.labelAt?_eq_of_given fun e => by rw [hgiven]

theorem SameLabels.written_eq (h : r.SameLabels s t) :
    r.written (r.valueFor? s) = r.written (r.valueFor? t) := by
  apply List.filterMap_congr
  intro slot hslot
  obtain ⟨e, he, hmem⟩ := List.mem_flatMap.1 hslot
  obtain ⟨p, -, rfl⟩ := List.mem_map.1 hmem
  have hlabels := h e.1 (.inline (List.mem_map_of_mem he))
  have hfound : ∀ selection, r.labelIn? (r.valueFor? selection) ⟨e.1, p.1, p.2⟩ =
      (r.labelsFor? selection e.1).bind fun labels => labels p.1 := by
    intro selection
    rw [labelIn?, labelsFor?, Option.bind_map]
    rfl
  rw [hfound, hfound, hlabels]

theorem SameLabels.inlineClasses_eq (h : r.SameLabels s t) :
    r.inlineClasses s = r.inlineClasses t := by
  unfold inlineClasses
  congr 1
  apply List.filter_congr
  intro e he
  have hsome := congrArg Option.isSome (h e.1 (.inline (List.mem_map_of_mem he)))
  simpa [labelsFor?] using hsome

theorem allMet?_congr {initial : String} {values others : OrderedMap String SelectionValue}
    {conditions : List String} {entries : List (String × Primitive)}
    (h : ∀ e ∈ entries, (values.get? e.1).map (·.fill initial none conditions) =
      (others.get? e.1).map (·.fill initial none conditions)) :
    allMet? initial values conditions entries = allMet? initial others conditions entries := by
  induction entries with
  | nil => rfl
  | cons e rest ih =>
      obtain ⟨axis, required⟩ := e
      have hrest := ih fun e he => h e (List.mem_cons_of_mem _ he)
      have haxis := h (axis, required) (by simp)
      cases hv : values.get? axis <;> cases ho : others.get? axis <;>
        simp only [hv, ho, Option.map_none, Option.map_some, reduceCtorEq,
          Option.some.injEq] at haxis
      · simp [allMet?, hv, ho]
      · simp only [allMet?, hv, ho, hrest, met, Option.bind_eq_bind, Option.bind_some, haxis]

theorem SameLabels.compoundClasses_eq (h : r.SameLabels s t) {compound : CompiledCompound}
    (hcompound : compound ∈ r.compounds) :
    compoundClasses r.initial (r.inForce s) compound =
      compoundClasses r.initial (r.inForce t) compound := by
  unfold compoundClasses
  rw [allMet?_congr]
  intro e he
  have hlabels := h e.1 (.compound hcompound (List.mem_map_of_mem he))
  unfold labelsFor? at hlabels
  rw [get?_inForce, get?_inForce]
  cases hs : r.valueFor? s e.1 <;> cases ht : r.valueFor? t e.1 <;>
    simp only [hs, ht, Option.map_none, Option.map_some, reduceCtorEq,
      Option.some.injEq] at hlabels ⊢
  exact SelectionValue.fill_congr (fun condition _ => congrFun hlabels condition) none

theorem resolve_className_parts (hs : s.isEmpty = false) :
    (r.resolve (some s)).className = " ".intercalate
      ((r.base :: r.tableClasses (r.inForce s) ++ r.inlineClasses s ++
        r.compounds.flatMap (compoundClasses r.initial (r.inForce s))).filter (· ≠ "")) := by
  rw [resolve_className, addedClasses, map_inlineInForce]
  simp only [hs, Bool.false_eq_true, if_false, List.cons_append]

theorem resolve_style_written (hs : s.isEmpty = false) :
    (r.resolve (some s)).style = .ofList (r.written (r.valueFor? s)) := by
  have hvalues : (r.effective (some s)).get? = r.valueFor? s := by
    funext axis
    rw [effective, hs]
    exact r.get?_inForce s axis
  rw [resolve_style, hvalues]

end CompiledRecipe
end StyleVariants
