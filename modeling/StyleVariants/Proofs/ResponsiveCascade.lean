import StyleVariants.Proofs.CompileSchedule
import StyleVariants.Proofs.LabelsInForce
import Mathlib.Data.List.Nodup

/-!
# The order of compilation computes the forward fill

Of two classes in a style sheet the one that was named last wins. Responsive options are
compiled condition by condition, so a class under a later condition wins over any class
under an earlier one, whatever the order in which a selection lists its conditions. Up to
each condition the winner among the classes that a selection adds for an axis is therefore
the class of the label in force there.
-/
namespace StyleVariants

def Call.className? : Call → Option String
  | .className _ _ answer => some answer
  | .customProperty .. => none

structure StandsBefore (order : List String) (x y : String) : Prop where
  left_mem : x ∈ order
  right_mem : y ∈ order
  lt : order.idxOf x < order.idxOf y

theorem standsBefore_append {front rest : List String} (hn : (front ++ rest).Nodup)
    {x y : String} (hx : x ∈ front) (hy : y ∈ rest) : StandsBefore (front ++ rest) x y := by
  have hdisjoint : y ∉ front := fun h => (List.nodup_append.1 hn).2.2 y h y hy rfl
  refine ⟨List.mem_append_left _ hx, List.mem_append_right _ hy, ?_⟩
  rw [List.idxOf_append_of_mem hx, List.idxOf_append_of_notMem hdisjoint]
  have hlt := List.idxOf_lt_length_of_mem hx
  omega

namespace CompiledRecipe

def responsiveClass? (r : CompiledRecipe) (axis option condition : String) : Option String :=
  ((r.responsive.get? axis).bind (·.get? option)).bind (·.get? condition)

/-- A class of a responsive axis was compiled for the condition at a position. -/
def CompiledFor (r : CompiledRecipe) (axis : String) (i : Nat) (className : String) : Prop :=
  ∃ option condition, r.conditions.keys[i]? = some condition ∧
    r.responsiveClass? axis option condition = some className

/-- Among the classes added for an axis, the winner is the one named last for a condition up
to a position. -/
structure WinsUpTo (r : CompiledRecipe) (order : List String) (axis : String)
    (added : List String) (k : Nat) (winner : String) : Prop where
  mem : winner ∈ added
  compiled : ∃ i ≤ k, r.CompiledFor axis i winner
  last : ∀ other ∈ added, (∃ i ≤ k, r.CompiledFor axis i other) →
    other = winner ∨ StandsBefore order other winner

theorem mem_axisClasses_iff {r : CompiledRecipe} {axis : String}
    (h : r.regular.get? axis = none) {value : SelectionValue} {className : String} :
    className ∈ r.axisClasses axis value ↔
      ∃ condition label, value.Gives r.initial condition label ∧ label ≠ "" ∧
        r.responsiveClass? axis label condition = some className := by
  rw [axisClasses, options?, h, Option.none_or]
  cases hoptions : r.responsive.get? axis with
  | none => simp [responsiveClass?, hoptions]
  | some options =>
      simp only [List.mem_filterMap, Prod.exists, SelectionValue.mem_given_iff,
        responsiveClass?, hoptions, Option.bind_some, cell?]
      refine exists_congr fun condition => exists_congr fun label => and_congr_right fun _ => ?_
      by_cases hlabel : label = "" <;> simp [hlabel]

end CompiledRecipe

namespace Blueprint
variable {σ : Type} {b : Backend σ} {debugId : Option String} {plan : Blueprint}
  {answers : Answers Cell σ} {s t : σ} {compiled : CompiledRecipe} {calls : List Call}
  {axis : String} {options : OrderedMap String StyleRule}

theorem responsiveClass?_filled (haxis : plan.responsive.get? axis = some options)
    {option condition className : String} :
    (plan.filled b answers).responsiveClass? axis option condition = some className ↔
      option ∈ options.keys ∧ condition ∈ plan.conditions.keys ∧
        (answers (.responsive condition axis option)).1 = className := by
  have htable : (plan.filled b answers).responsive = plan.responsiveTable answers := rfl
  rw [CompiledRecipe.responsiveClass?, htable, responsiveTable, OrderedMap.get?_map, haxis,
    OrderedMap.mem_keys_iff, OrderedMap.mem_keys_iff]
  simp only [Option.map_some, Option.bind_some, OrderedMap.get?_map]
  cases ho : options.get? option <;>
    cases hc : OrderedMap.get? plan.conditions condition <;> simp [hc]

theorem get?_regular_filled (hregular : plan.regular.get? axis = none) :
    (plan.filled b answers).regular.get? axis = none := by
  have htable : (plan.filled b answers).regular = plan.regularTable answers := rfl
  rw [htable, regularTable, OrderedMap.get?_map, hregular]
  rfl

theorem exists_mem_responsiveSchedule (debugId : Option String)
    (haxis : plan.responsive.get? axis = some options)
    {conditions : List (String × Condition)} {option condition : String}
    (ho : option ∈ options.keys) (hc : condition ∈ conditions.map Prod.fst) :
    ∃ rule label, (Cell.responsive condition axis option, Request.className rule label) ∈
      conditions.flatMap fun e => plan.responsiveSchedule debugId e.1 e.2 := by
  obtain ⟨e, he, rfl⟩ := List.mem_map.1 hc
  obtain ⟨o, hmem, rfl⟩ := List.mem_map.1 ho
  refine ⟨plan.formUnder e.1 e.2 o.2, qualifiedLabel debugId (e.1 ++ "_" ++ axis ++ "_" ++ o.1),
    List.mem_flatMap.2 ⟨e, he, List.mem_flatMap.2 ⟨(axis, options), ?_, ?_⟩⟩⟩
  · exact OrderedMap.get?_eq_some_iff.1 haxis
  · exact List.mem_map.2 ⟨o, hmem, rfl⟩

def classCells (schedule : Schedule Cell) : List Cell :=
  schedule.filterMap fun e => match e.2 with
    | .className .. => some e.1
    | .customProperty _ => none

theorem classCells_append (schedule rest : Schedule Cell) :
    classCells (schedule ++ rest) = classCells schedule ++ classCells rest :=
  List.filterMap_append

theorem filterMap_answered (schedule : Schedule Cell) (answers : Answers Cell σ) :
    (schedule.map fun e => e.2.answered (answers e.1).1).filterMap Call.className? =
      (classCells schedule).map fun cell => (answers cell).1 := by
  induction schedule with
  | nil => rfl
  | cons e rest ih =>
      obtain ⟨cell, request⟩ := e
      cases request with
      | className rule label =>
          exact congrArg ((answers cell).1 :: ·) ih
      | customProperty hint => exact ih

theorem mem_classCells {schedule : Schedule Cell} {cell : Cell}
    (h : ∃ rule label, (cell, Request.className rule label) ∈ schedule) :
    cell ∈ classCells schedule := by
  obtain ⟨rule, label, hmem⟩ := h
  exact List.mem_filterMap.2 ⟨_, hmem, rfl⟩

/-- Class names are answered in the order of their cells: before the responsive options of
some conditions, for them, and after them. -/
theorem Performs.exists_order (h : plan.Performs b debugId answers s compiled t calls)
    {front rest : List (String × Condition)} (hsplit : plan.conditions.entries = front ++ rest) :
    ∃ before after : Schedule Cell, calls.filterMap Call.className? =
      (classCells (before ++ front.flatMap fun e => plan.responsiveSchedule debugId e.1 e.2)).map
          (fun cell => (answers cell).1) ++
        (classCells ((rest.flatMap fun e => plan.responsiveSchedule debugId e.1 e.2) ++ after)).map
          (fun cell => (answers cell).1) := by
  refine ⟨plan.baseSchedule debugId ++ plan.regularSchedule debugId,
    (plan.inline.entries.flatMap fun e => plan.inlineSchedule b debugId answers e.1 e.2) ++
      plan.compounds.zipIdx.flatMap fun e => plan.compoundSchedule debugId e.2 e.1, ?_⟩
  rw [h.called, filterMap_answered, ← List.map_append, ← classCells_append, schedule, hsplit,
    List.flatMap_append]
  simp only [List.append_assoc]

variable (haxis : plan.responsive.get? axis = some options)
include haxis

/-- A class under an earlier condition was named before a class under a later one. -/
theorem Performs.standsBefore (h : plan.Performs b debugId answers s compiled t calls)
    (hfresh : (calls.filterMap Call.className?).Nodup) {i j : Nat} (hij : i < j)
    {option option' condition condition' : String} (ho : option ∈ options.keys)
    (ho' : option' ∈ options.keys) (hi : plan.conditions.keys[i]? = some condition)
    (hj : plan.conditions.keys[j]? = some condition') :
    StandsBefore (calls.filterMap Call.className?)
      (answers (.responsive condition axis option)).1
      (answers (.responsive condition' axis option')).1 := by
  -- the schedule is cut where the later condition begins
  have hsplit := (List.take_append_drop j plan.conditions.entries).symm
  have hearlier : condition ∈ (plan.conditions.entries.take j).map Prod.fst := by
    rw [List.map_take]
    exact List.mem_of_getElem? ((List.getElem?_take_of_lt hij).trans hi)
  have hlater : condition' ∈ (plan.conditions.entries.drop j).map Prod.fst := by
    rw [List.map_drop]
    exact List.mem_of_getElem? (i := 0) (by rw [List.getElem?_drop]; exact hj)
  obtain ⟨before, after, horder⟩ := h.exists_order hsplit
  rw [horder] at hfresh ⊢
  refine standsBefore_append hfresh (List.mem_map_of_mem (mem_classCells ?_))
    (List.mem_map_of_mem (mem_classCells ?_))
  · obtain ⟨rule, label, hmem⟩ :=
      exists_mem_responsiveSchedule debugId haxis ho hearlier
    exact ⟨rule, label, List.mem_append_right _ hmem⟩
  · obtain ⟨rule, label, hmem⟩ :=
      exists_mem_responsiveSchedule debugId haxis ho' hlater
    exact ⟨rule, label, List.mem_append_left _ hmem⟩

theorem Performs.responsive_injective (h : plan.Performs b debugId answers s compiled t calls)
    (hfresh : (calls.filterMap Call.className?).Nodup)
    {option option' condition condition' : String} (ho : option ∈ options.keys)
    (ho' : option' ∈ options.keys) (hc : condition ∈ plan.conditions.keys)
    (hc' : condition' ∈ plan.conditions.keys)
    (heq : (answers (.responsive condition axis option)).1 =
      (answers (.responsive condition' axis option')).1) :
    condition = condition' ∧ option = option' := by
  obtain ⟨before, after, horder⟩ := h.exists_order (List.append_nil plan.conditions.entries).symm
  rw [horder] at hfresh
  have hmem : ∀ {option condition}, option ∈ options.keys → condition ∈ plan.conditions.keys →
      Cell.responsive condition axis option ∈ classCells
        (before ++ plan.conditions.entries.flatMap fun e =>
          plan.responsiveSchedule debugId e.1 e.2) := by
    intro option condition ho hc
    obtain ⟨rule, label, hmem⟩ :=
      exists_mem_responsiveSchedule debugId haxis ho hc
    exact mem_classCells ⟨rule, label, List.mem_append_right _ hmem⟩
  have hcells := List.inj_on_of_nodup_map (List.nodup_append.1 hfresh).1 (hmem ho hc)
    (hmem ho' hc') heq
  obtain ⟨hcondition, -, hoption⟩ := Cell.responsive.inj hcells
  exact ⟨hcondition, hoption⟩

theorem Performs.gives_of_compiledFor (h : plan.Performs b debugId answers s compiled t calls)
    (hfresh : (calls.filterMap Call.className?).Nodup) (hregular : plan.regular.get? axis = none)
    {value : SelectionValue} {className : String} {i : Nat}
    (hadded : className ∈ compiled.axisClasses axis value)
    (hfor : compiled.CompiledFor axis i className) :
    ∃ condition label, plan.conditions.keys[i]? = some condition ∧
      value.Gives plan.initial condition label ∧ label ∈ options.keys ∧
      (answers (.responsive condition axis label)).1 = className := by
  obtain rfl := h.returned
  obtain ⟨condition, label, hgives, -, hclass⟩ :=
    (CompiledRecipe.mem_axisClasses_iff (get?_regular_filled hregular)).1 hadded
  obtain ⟨option, condition', hi, hclass'⟩ := hfor
  obtain ⟨hlabel, hcondition, heq⟩ := (responsiveClass?_filled haxis).1 hclass
  obtain ⟨hoption, hcondition', heq'⟩ := (responsiveClass?_filled haxis).1 hclass'
  obtain ⟨rfl, rfl⟩ := h.responsive_injective haxis hfresh hlabel hoption hcondition hcondition'
    (heq.trans heq'.symm)
  exact ⟨condition, label, hi, hgives, hlabel, heq⟩

/-- Up to a position, the class of the label given last wins. -/
theorem Performs.winsUpTo (h : plan.Performs b debugId answers s compiled t calls)
    (hfresh : (calls.filterMap Call.className?).Nodup) (hregular : plan.regular.get? axis = none)
    {value : SelectionValue} {k j : Nat} {condition label : String} (hne : label ≠ "")
    (ho : label ∈ options.keys)
    (hl : value.LatestGiven plan.initial plan.conditions.keys k j condition label) :
    compiled.responsiveClass? axis label condition =
        some (answers (.responsive condition axis label)).1 ∧
      compiled.WinsUpTo (calls.filterMap Call.className?) axis (compiled.axisClasses axis value) k
        (answers (.responsive condition axis label)).1 := by
  have hreturned := h.returned
  have hc : condition ∈ plan.conditions.keys := List.mem_of_getElem? hl.condition_at
  have hclass : compiled.responsiveClass? axis label condition =
      some (answers (.responsive condition axis label)).1 := by
    rw [hreturned]
    exact (responsiveClass?_filled haxis).2 ⟨ho, hc, rfl⟩
  have hnone : compiled.regular.get? axis = none := by
    rw [hreturned]
    exact get?_regular_filled hregular
  refine ⟨hclass, ?_, ⟨j, hl.le, label, condition, ?_, hclass⟩, ?_⟩
  · refine (CompiledRecipe.mem_axisClasses_iff hnone).2 ⟨condition, label, ?_, hne, hclass⟩
    rw [hreturned]
    exact hl.gives
  · rw [hreturned]
    exact hl.condition_at
  · rintro other hadded ⟨i, hik, hfor⟩
    obtain ⟨condition', label', hi, hgives, ho', heq⟩ :=
      h.gives_of_compiledFor haxis hfresh hregular hadded hfor
    rw [← heq]
    -- fresh names tie the class to the position `i` where its label is given
    rcases Nat.lt_trichotomy i j with hlt | rfl | hgt
    · exact .inr (h.standsBefore haxis hfresh hlt ho' ho hi hl.condition_at)
    · obtain rfl := Option.some.inj (hi.symm.trans hl.condition_at)
      obtain rfl := hgives.label_unique hl.gives
      exact .inl rfl
    · exact (hl.not_later i condition' label' hgt hik hi hgives).elim

end Blueprint

theorem CompiledRecipe.exists_resolve_className (r : CompiledRecipe) {selection : Selection}
    {axis : String} {value : SelectionValue} (hs : selection.get? axis = some (some value)) :
    ∃ before after : List String, (r.resolve (some selection)).className = " ".intercalate
      ((before ++ r.axisClasses axis value ++ after).filter (· ≠ "")) := by
  obtain ⟨hresolve, hvalue⟩ := r.resolve_of_chosen hs
  have hmem : (axis, value) ∈ (r.inForce selection).entries :=
    OrderedMap.get?_eq_some_iff.1 hvalue
  obtain ⟨front, rest, hsplit⟩ := List.append_of_mem hmem
  have htable : r.tableClasses (r.inForce selection) =
      front.flatMap (fun e => r.axisClasses e.1 e.2) ++ r.axisClasses axis value ++
        rest.flatMap fun e => r.axisClasses e.1 e.2 := by
    rw [tableClasses, hsplit, List.flatMap_append, List.flatMap_cons, List.append_assoc]
  refine ⟨r.base :: front.flatMap fun e => r.axisClasses e.1 e.2,
    (rest.flatMap fun e => r.axisClasses e.1 e.2) ++
      (r.inlineInForce (r.inForce selection)).map (·.1.className) ++
      r.compounds.flatMap (compoundClasses r.initial (r.inForce selection)), ?_⟩
  rw [hresolve, resolveInForce, htable]
  simp only [List.cons_append, List.append_assoc]

/-- If every class name is a new one, the order of compilation settles which class of a
responsive axis wins: under every condition, among the classes up to it that a selection adds,
the one named last is the class of the label in force there. Where no label is in force, no
class up to there is added. -/
theorem Recipe.responsive_classes_take_label_in_force {σ : Type} (b : Backend σ)
    (debugId : Option String) (r : Recipe) (family : RecipeDefaults) {s t : σ}
    {compiled : CompiledRecipe} {calls : List Call}
    (h : r.compile family b.recorded debugId (s, []) = (.ok compiled, t, calls))
    (hfresh : (calls.filterMap Call.className?).Nodup) {axis : String}
    {options : OrderedMap String Style} (haxis : r.responsive.get? axis = some options)
    {selection : Selection} {value : SelectionValue}
    (hs : selection.get? axis = some (some value))
    (hvalid : ∀ condition ∈ compiled.conditions.keys, ∀ label,
      value.Gives compiled.initial condition label → label ≠ "" ∧ label ∈ options.keys) :
    (∃ before after : List String, (compiled.resolve (some selection)).className =
      " ".intercalate
        ((before ++ compiled.axisClasses axis value ++ after).filter (· ≠ ""))) ∧
    ∀ k < compiled.conditions.size,
      (∀ j condition label,
        value.LatestGiven compiled.initial compiled.conditions.keys k j condition label →
        (value.fill compiled.initial none compiled.conditions.keys)[k]? = some (some label) ∧
        ∃ winner, compiled.responsiveClass? axis label condition = some winner ∧
          compiled.WinsUpTo (calls.filterMap Call.className?) axis
            (compiled.axisClasses axis value) k winner) ∧
      ((∀ label, ¬ value.InForceAt compiled.initial compiled.conditions.keys k label) →
        ∀ className ∈ compiled.axisClasses axis value, ∀ i ≤ k,
          ¬ compiled.CompiledFor axis i className) := by
  refine ⟨compiled.exists_resolve_className hs, fun k hk => ?_⟩
  obtain ⟨plan, answers, hrestates, hperforms⟩ := Recipe.performs_of_compile h
  obtain ⟨rules, hrules, hkeys⟩ := hrestates.exists_responsive haxis
  have hregular := hrestates.get?_regular_eq_none hrules
  have hinitial : compiled.initial = plan.initial := by rw [hperforms.returned]; rfl
  have hconditions : compiled.conditions = plan.conditions := by rw [hperforms.returned]; rfl
  rw [hinitial, hconditions] at hvalid ⊢
  constructor
  · intro j condition label hl
    have hlt : k < plan.conditions.keys.length := by
      rw [OrderedMap.keys, List.length_map, ← OrderedMap.size, ← hconditions]
      exact hk
    obtain ⟨hne, ho⟩ := hvalid condition (List.mem_of_getElem? hl.condition_at) label hl.gives
    rw [← hkeys] at ho
    have hwins := hperforms.winsUpTo hrules hfresh hregular hne ho hl
    exact ⟨(SelectionValue.fill_eq_some_iff hlt).2 ⟨j, condition, hl⟩, _, hwins⟩
  · intro hnone className hadded i hik hfor
    -- a class for an earlier condition comes from a label given there, which would be in force
    obtain ⟨condition, label, hi, hgives, -⟩ :=
      hperforms.gives_of_compiledFor hrules hfresh hregular hadded hfor
    obtain ⟨other, hother⟩ := SelectionValue.exists_lastGiven? hik hi hgives
    exact hnone other (SelectionValue.inForceAt_of_lastGiven? hother)

/-- Colors in another order than their conditions, and one for a condition that is not
declared. -/
def colors : SelectionValue :=
  .ofEntries [("md", .text "blue"), ("xl", .text "green"), ("initial", .text "red")]

def colored : Selection := .ofList [("color", some colors)]

theorem Recipe.responsive_classes_take_label_in_force_colored :
    ∃ (compiled : CompiledRecipe) (t : Unit × Nat) (calls : List Call)
      (options : OrderedMap String Style),
      framed.compile {} labelling.recorded none (((), 0), []) = (.ok compiled, t, calls) ∧
      (calls.filterMap Call.className?).Nodup ∧
      framed.responsive.get? "color" = some options ∧
      colored.get? "color" = some (some colors) ∧
      (∀ condition ∈ compiled.conditions.keys, ∀ label,
        colors.Gives compiled.initial condition label → label ≠ "" ∧ label ∈ options.keys) ∧
      (∃ before after : List String, (compiled.resolve (some colored)).className =
        " ".intercalate
          ((before ++ compiled.axisClasses "color" colors ++ after).filter (· ≠ ""))) ∧
      ∀ k < compiled.conditions.size,
        (∀ j condition label,
          colors.LatestGiven compiled.initial compiled.conditions.keys k j condition label →
          (colors.fill compiled.initial none compiled.conditions.keys)[k]? =
            some (some label) ∧
          ∃ winner, compiled.responsiveClass? "color" label condition = some winner ∧
            compiled.WinsUpTo (calls.filterMap Call.className?) "color"
              (compiled.axisClasses "color" colors) k winner) ∧
        ((∀ label, ¬ colors.InForceAt compiled.initial compiled.conditions.keys k label) →
          ∀ className ∈ compiled.axisClasses "color" colors, ∀ i ≤ k,
            ¬ compiled.CompiledFor "color" i className) := by
  obtain ⟨compiled, t, calls, options, hcompile, hnames, hresponsive, hdeclared, hconditions⟩ :
      ∃ (compiled : CompiledRecipe) (t : Unit × Nat) (calls : List Call)
        (options : OrderedMap String Style),
        framed.compile {} labelling.recorded none (((), 0), []) = (.ok compiled, t, calls) ∧
        calls.filterMap Call.className? =
          ["size_small", "size_large", "initial_color_red", "initial_color_blue",
            "md_color_red", "md_color_blue", "_inline_gap",
            "_compound_size_small_color_red_initial", "_compound_size_small_color_red_md"] ∧
        framed.responsive.get? "color" = some options ∧ options.keys = ["red", "blue"] ∧
        compiled.conditions.keys = ["initial", "md"] := ⟨_, _, _, _, rfl, rfl, rfl, rfl, rfl⟩
  have hfresh : (calls.filterMap Call.className?).Nodup := by
    rw [hnames]
    decide
  have hvalid : ∀ condition ∈ compiled.conditions.keys, ∀ label,
      colors.Gives compiled.initial condition label → label ≠ "" ∧ label ∈ options.keys := by
    rw [hconditions, hdeclared]
    intro condition hc label hgives
    have hred : colors.labelAt? compiled.initial "initial" = some "red" := rfl
    have hblue : colors.labelAt? compiled.initial "md" = some "blue" := rfl
    rw [← SelectionValue.labelAt?_eq_some_iff] at hgives
    rcases List.mem_pair.1 hc with rfl | rfl
    · obtain rfl := Option.some.inj (hred.symm.trans hgives)
      decide
    · obtain rfl := Option.some.inj (hblue.symm.trans hgives)
      decide
  exact ⟨compiled, t, calls, options, hcompile, hfresh, hresponsive, rfl, hvalid,
    Recipe.responsive_classes_take_label_in_force labelling none framed {} hcompile hfresh
      hresponsive rfl hvalid⟩

end StyleVariants
