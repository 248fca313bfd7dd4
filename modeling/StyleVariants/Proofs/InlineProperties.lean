import StyleVariants.Proofs.CompileSchedule
import StyleVariants.Proofs.FallbackChains
import StyleVariants.Proofs.ResolvedSelections
import Mathlib.Data.List.Nodup

/-!
# Custom properties of inline axes

An allocator answers references to properties with pairwise distinct names. Then no two
cells of the inline tables hold the same property, and a resolved selection sets the
property of a cell exactly if the value of its axis gives a label under its condition.
-/
namespace StyleVariants

def Call.reference? : Call → Option String
  | .className .. => none
  | .customProperty _ answer => some answer

/-- The references among the calls name these properties, pairwise distinct and free of
parentheses and commas, and the backend finds the name of each reference. -/
structure Backend.Allocates {σ : Type} (b : Backend σ) (calls : List Call)
    (names : List String) : Prop where
  references : calls.filterMap Call.reference? = names.map Reference.ofName
  plain : ∀ name ∈ names, Reference.Plain name
  nodup : names.Nodup
  target : ∀ name ∈ names, ∀ s, b.target (Reference.ofName name) s = name

namespace Blueprint
variable {σ : Type}

def inlineCells (plan : Blueprint) : List (String × String) :=
  plan.inline.entries.flatMap fun e => (plan.inlineScope e.2).keys.map fun name => (e.1, name)

theorem mem_inlineCells {plan : Blueprint} {axisName name : String} {axis : InlineAxis}
    (haxis : plan.inline.get? axisName = some axis)
    (hname : name ∈ (plan.inlineScope axis).keys) : (axisName, name) ∈ plan.inlineCells :=
  List.mem_flatMap.2
    ⟨(axisName, axis), OrderedMap.get?_eq_some_iff.1 haxis, List.mem_map_of_mem hname⟩

variable {b : Backend σ} {debugId : Option String} {plan : Blueprint}
  {answers : Answers Cell σ} {s t : σ} {compiled : CompiledRecipe} {calls : List Call}
  {names : List String}

theorem filterMap_schedule {β : Type} {f : Cell × Request → Option β}
    (hf : ∀ cell rule label, f (cell, .className rule label) = none) :
    (plan.schedule b debugId answers).filterMap f = plan.inlineCells.filterMap fun c =>
      f (.property c.1 c.2, .customProperty (c.1 ++ "-" ++ c.2)) := by
  have hbase : (plan.baseSchedule debugId).filterMap f = [] := by
    unfold baseSchedule
    cases plan.base <;> simp [hf]
  have hcompound : ∀ index compound,
      (plan.compoundSchedule debugId index compound).filterMap f = [] := by
    intro index compound
    unfold compoundSchedule
    split <;> simp [hf]
  have hnone : ∀ {α : Type} (l : List α), l.flatMap (fun _ => ([] : List β)) = [] := by
    simp [List.flatMap_eq_nil_iff]
  simp only [schedule, regularSchedule, responsiveSchedule, inlineSchedule, inlineCells,
    OrderedMap.keys, List.filterMap_append, List.filterMap_flatMap, hbase, hcompound,
    List.filterMap_map, List.map_map]
  simp [hf, hnone, Function.comp_def]

theorem Performs.references (h : plan.Performs b debugId answers s compiled t calls) :
    calls.filterMap Call.reference? =
      plan.inlineCells.map fun c => (answers (.property c.1 c.2)).1 := by
  rw [h.called, List.filterMap_map, filterMap_schedule fun _ _ _ => rfl]
  simp [Request.answered, Call.reference?]

theorem Performs.reference_eq (h : plan.Performs b debugId answers s compiled t calls)
    (ha : b.Allocates calls names) {c : String × String} (hc : c ∈ plan.inlineCells) :
    (answers (.property c.1 c.2)).1 = Reference.ofName (propertyIn b answers c.1 c.2) ∧
      Reference.Plain (propertyIn b answers c.1 c.2) := by
  have hmem : (answers (.property c.1 c.2)).1 ∈ names.map Reference.ofName := by
    rw [← ha.references, h.references]
    exact List.mem_map.2 ⟨c, hc, rfl⟩
  obtain ⟨name, hname, heq⟩ := List.mem_map.1 hmem
  have hproperty : propertyIn b answers c.1 c.2 = name := by
    rw [propertyIn, ← heq]
    exact ha.target name hname _
  rw [hproperty]
  exact ⟨heq.symm, ha.plain name hname⟩

theorem Performs.property_injective (h : plan.Performs b debugId answers s compiled t calls)
    (ha : b.Allocates calls names) {c d : String × String} (hc : c ∈ plan.inlineCells)
    (hd : d ∈ plan.inlineCells)
    (heq : propertyIn b answers c.1 c.2 = propertyIn b answers d.1 d.2) : c = d := by
  have hnodup : (plan.inlineCells.map fun c => (answers (.property c.1 c.2)).1).Nodup := by
    rw [← h.references, ha.references]
    exact ha.nodup.map Reference.ofName_injective
  refine List.inj_on_of_nodup_map hnodup hc hd ?_
  rw [(h.reference_eq ha hc).1, (h.reference_eq ha hd).1, heq]

theorem inlineSlots_filled (plan : Blueprint) (b : Backend σ) (answers : Answers Cell σ) :
    (plan.filled b answers).inlineSlots = plan.inlineCells.map fun c =>
      ⟨c.1, c.2, propertyIn b answers c.1 c.2⟩ := by
  simp [CompiledRecipe.inlineSlots, filled, inlineCells, inlineCell, OrderedMap.map,
    OrderedMap.keys, List.flatMap_map, List.map_flatMap, Function.comp_def]

/-- The entries written for inline axes: a label for each cell whose axis gives one. -/
theorem mem_inlineStyles {values : OrderedMap String SelectionValue}
    {entry : String × String} :
    entry ∈ ((plan.filled b answers).inlineInForce values).flatMap (fun (axis, value) =>
        CompiledRecipe.inlineStyle plan.initial axis value) ↔
      ∃ c ∈ plan.inlineCells, propertyIn b answers c.1 c.2 = entry.1 ∧
        ∃ value, values.get? c.1 = some value ∧ value.Gives plan.initial c.2 entry.2 := by
  have hwritten := (plan.filled b answers).flatMap_inlineStyle values
  rw [show plan.initial = (plan.filled b answers).initial from rfl, hwritten,
    CompiledRecipe.mem_written, inlineSlots_filled]
  simp [CompiledRecipe.Explicit]

theorem Performs.style_get? (h : plan.Performs b debugId answers s compiled t calls)
    (ha : b.Allocates calls names) {values : OrderedMap String SelectionValue}
    {c : String × String} (hc : c ∈ plan.inlineCells) :
    (compiled.resolveInForce values).style.get? (propertyIn b answers c.1 c.2) =
      (values.get? c.1).bind fun value => value.labelAt? compiled.initial c.2 := by
  obtain rfl := h.returned
  refine Option.ext fun label => ?_
  have hmem : (((plan.filled b answers).resolveInForce values).style.get?
      (propertyIn b answers c.1 c.2) = some label) ↔
      ∃ d ∈ plan.inlineCells, propertyIn b answers d.1 d.2 = propertyIn b answers c.1 c.2 ∧
        ∃ value, values.get? d.1 = some value ∧ value.Gives plan.initial d.2 label := by
    refine (OrderedMap.get?_ofList_eq_some_iff fun a a' hm hm' => ?_).trans mem_inlineStyles
    obtain ⟨d, hd, hproperty, value, hvalue, hgives⟩ := mem_inlineStyles.1 hm
    obtain ⟨d', hd', hproperty', value', hvalue', hgives'⟩ := mem_inlineStyles.1 hm'
    obtain rfl := h.property_injective ha hd hd' (hproperty.trans hproperty'.symm)
    obtain rfl := Option.some.inj (hvalue.symm.trans hvalue')
    exact hgives.label_unique hgives'
  rw [hmem, Option.bind_eq_some_iff]
  constructor
  · rintro ⟨d, hd, hproperty, value, hvalue, hgives⟩
    obtain rfl := h.property_injective ha hd hc hproperty
    exact ⟨value, hvalue, SelectionValue.labelAt?_eq_some_iff.2 hgives⟩
  · rintro ⟨value, hvalue, hlabel⟩
    exact ⟨c, hc, rfl, value, hvalue, SelectionValue.labelAt?_eq_some_iff.1 hlabel⟩

end Blueprint
end StyleVariants
