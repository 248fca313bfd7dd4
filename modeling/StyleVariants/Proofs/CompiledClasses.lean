import StyleVariants.CompiledRecipe.Resolve
import StyleVariants.Proofs.CompileSchedule

/-!
# The classes of a compiled recipe

A class of a compiled recipe is its base or stands in one of its tables, and a resolved
selection adds to the base only classes that stand in tables. Every class belongs to a cell,
and every cell stands for a rule: the one that its request names.
-/
namespace StyleVariants

def ClassTable.HasClass (table : ClassTable) (axis option condition className : String) : Prop :=
  ∃ options classNames, OrderedMap.get? table axis = some options ∧
    options.get? option = some classNames ∧ classNames.get? condition = some className

namespace CompiledRecipe

/-- A class that stands anywhere but in the base. -/
inductive InTables (compiled : CompiledRecipe) (className : String) : Prop
  | regular {axis option condition : String} :
      compiled.regular.HasClass axis option condition className → InTables compiled className
  | responsive {axis option condition : String} :
      compiled.responsive.HasClass axis option condition className → InTables compiled className
  | inline {axis : String} {cell : CompiledInline} : compiled.inline.get? axis = some cell →
      cell.className = className → InTables compiled className
  | compound {index : Nat} {cell : CompiledCompound} {condition : String} :
      compiled.compounds[index]? = some cell →
      cell.classNames.get? condition = some className → InTables compiled className

/-- The class filed for a label of an axis under a condition: in the regular table if the
axis stands there, or else in the responsive one. The empty label names no option. -/
inductive HasCell (r : CompiledRecipe) (axis label condition className : String) : Prop
  | regular : label ≠ "" → r.regular.HasClass axis label condition className →
      HasCell r axis label condition className
  | responsive : label ≠ "" → axis ∉ r.regular.keys →
      r.responsive.HasClass axis label condition className →
      HasCell r axis label condition className

def cellOf? (r : CompiledRecipe) (axis label condition : String) : Option String :=
  (r.options? axis).bind fun options => cell? options label condition

theorem cellOf?_eq_some_iff {r : CompiledRecipe} {axis label condition className : String} :
    r.cellOf? axis label condition = some className ↔
      r.HasCell axis label condition className := by
  constructor
  · intro h
    obtain ⟨options, hoptions, hcell⟩ := Option.bind_eq_some_iff.1 h
    by_cases hlabel : label = ""
    · simp [cell?, hlabel] at hcell
    · rw [cell?, if_neg hlabel] at hcell
      obtain ⟨classNames, hclasses, hclass⟩ := Option.bind_eq_some_iff.1 hcell
      rcases Option.or_eq_some_iff.1 hoptions with hregular | ⟨hnone, hresponsive⟩
      · exact .regular hlabel ⟨options, classNames, hregular, hclasses, hclass⟩
      · have haxis : axis ∉ r.regular.keys := Entries.get?_eq_none_iff.1 hnone
        exact .responsive hlabel haxis ⟨options, classNames, hresponsive, hclasses, hclass⟩
  · intro h
    cases h with
    | regular hlabel hclass =>
        obtain ⟨options, classNames, hregular, hclasses, hclass⟩ := hclass
        simp [cellOf?, options?, cell?, hregular, hlabel, hclasses, hclass]
    | responsive hlabel haxis hclass =>
        obtain ⟨options, classNames, hresponsive, hclasses, hclass⟩ := hclass
        have hnone : r.regular.get? axis = none := Entries.get?_eq_none_iff.2 haxis
        simp [cellOf?, options?, cell?, hnone, hresponsive, hlabel, hclasses, hclass]

theorem axisClasses_eq_filterMap (r : CompiledRecipe) (axis : String) (value : SelectionValue) :
    r.axisClasses axis value =
      (value.given r.initial).filterMap fun e => r.cellOf? axis e.2 e.1 := by
  unfold axisClasses cellOf?
  cases r.options? axis with
  | none => simp
  | some options => rfl

def addedClasses (compiled : CompiledRecipe) : Option Selection → List String
  | none => []
  | some selection =>
      if selection.isEmpty then []
      else
        compiled.tableClasses (compiled.inForce selection) ++
          (compiled.inlineInForce (compiled.inForce selection)).map (·.1.className) ++
          compiled.compounds.flatMap
            (compoundClasses compiled.initial (compiled.inForce selection))

theorem resolve_className (compiled : CompiledRecipe) (selection : Option Selection) :
    (compiled.resolve selection).className =
      " ".intercalate ((compiled.base :: compiled.addedClasses selection).filter (· ≠ "")) := by
  have hbase : compiled.base =
      " ".intercalate ([compiled.base].filter (· ≠ "")) := by
    by_cases h : compiled.base = "" <;> simp [h]
  cases selection with
  | none => exact hbase
  | some selection =>
      by_cases hempty : selection.isEmpty
      · simpa [resolve, addedClasses, hempty] using hbase
      · simp [resolve, addedClasses, hempty, resolveInForce]

theorem HasCell.inTables {r : CompiledRecipe} {axis label condition className : String}
    (h : r.HasCell axis label condition className) : r.InTables className := by
  cases h with
  | regular _ hclass => exact .regular hclass
  | responsive _ _ hclass => exact .responsive hclass

theorem inTables_of_mem_axisClasses {compiled : CompiledRecipe} {axis className : String}
    {value : SelectionValue} (h : className ∈ compiled.axisClasses axis value) :
    compiled.InTables className := by
  rw [axisClasses_eq_filterMap] at h
  obtain ⟨e, -, hcell⟩ := List.mem_filterMap.1 h
  exact (cellOf?_eq_some_iff.1 hcell).inTables

theorem exists_of_mem_compoundClasses {initial : String}
    {values : OrderedMap String SelectionValue} {cell : CompiledCompound} {className : String}
    (h : className ∈ compoundClasses initial values cell) :
    ∃ condition, cell.classNames.get? condition = some className := by
  unfold compoundClasses at h
  split at h
  · simp at h
  · obtain ⟨⟨⟨condition, name⟩, begins⟩, hzip, heq⟩ := List.mem_filterMap.1 h
    have hentry := (List.of_mem_zip hzip).1
    cases begins with
    | false => simp at heq
    | true =>
        obtain rfl : name = className := by simpa using heq
        exact ⟨condition, OrderedMap.get?_eq_some_iff.2 hentry⟩

theorem inTables_of_mem_addedClasses {compiled : CompiledRecipe}
    {selection : Option Selection} {className : String}
    (h : className ∈ compiled.addedClasses selection) : compiled.InTables className := by
  unfold addedClasses at h
  split at h
  · simp at h
  · split at h
    · simp at h
    · rcases List.mem_append.1 h with h | hcompound
      · rcases List.mem_append.1 h with htable | hinline
        · obtain ⟨e, -, hclass⟩ := List.mem_flatMap.1 htable
          exact inTables_of_mem_axisClasses hclass
        · obtain ⟨⟨cell, value⟩, hin, hname⟩ := List.mem_map.1 hinline
          obtain ⟨⟨axis, cell'⟩, hentry, heq⟩ := List.mem_filterMap.1 hin
          obtain ⟨value', -, heq⟩ := Option.map_eq_some_iff.1 heq
          obtain ⟨rfl, -⟩ := Prod.mk.inj heq
          exact .inline (OrderedMap.get?_eq_some_iff.2 hentry) hname
      · obtain ⟨cell, hcell, hclass⟩ := List.mem_flatMap.1 hcompound
        obtain ⟨index, hindex⟩ := List.mem_iff_getElem?.1 hcell
        obtain ⟨condition, hget⟩ := exists_of_mem_compoundClasses hclass
        exact .compound hindex hget

end CompiledRecipe

namespace Blueprint
variable {σ : Type}

/-- The cells that hold a class, each with the rule that it stands for. -/
inductive CellRule (plan : Blueprint) (b : Backend σ) (answers : Answers Cell σ) :
    Cell → StyleRule → Prop
  | base {rule : StyleRule} : plan.base = .rule rule → CellRule plan b answers .base rule
  | regular {axis option : String} {options : OrderedMap String StyleRule} {rule : StyleRule} :
      plan.regular.get? axis = some options → options.get? option = some rule →
      CellRule plan b answers (.regular axis option) rule
  | responsive {name axis option : String} {condition : Condition}
      {options : OrderedMap String StyleRule} {rule : StyleRule} :
      plan.conditions.get? name = some condition →
      plan.responsive.get? axis = some options → options.get? option = some rule →
      CellRule plan b answers (.responsive name axis option) (plan.formUnder name condition rule)
  | inline {axisName : String} {axis : InlineAxis} : plan.inline.get? axisName = some axis →
      CellRule plan b answers (.inline axisName) (plan.inlineState b answers axisName axis).rule
  | compound {index : Nat} {compound : CompoundRule} :
      plan.compounds[index]? = some compound →
      (∀ axis ∈ compound.required.keys, axis ∈ plan.regular.keys) →
      CellRule plan b answers (.compound index) compound.rule
  | compoundUnder {index : Nat} {compound : CompoundRule} {name : String}
      {condition : Condition} : plan.compounds[index]? = some compound →
      ¬ (∀ axis ∈ compound.required.keys, axis ∈ plan.regular.keys) →
      plan.conditions.get? name = some condition →
      CellRule plan b answers (.compoundUnder index name)
        (plan.formUnder name condition compound.rule)

variable {plan : Blueprint} {b : Backend σ} {debugId : Option String}
  {answers : Answers Cell σ} {cell : Cell} {rule : StyleRule}

theorem mem_schedule_of_cellRule (debugId : Option String)
    (h : plan.CellRule b answers cell rule) :
    ∃ label, (cell, Request.className rule label) ∈ plan.schedule b debugId answers := by
  simp only [schedule, List.mem_append, List.mem_flatMap, Prod.exists]
  cases h with
  | base hbase => exact ⟨debugId, .inl (.inl (.inl (.inl (by simp [baseSchedule, hbase]))))⟩
  | @regular axis option _ _ haxis hoption =>
      refine ⟨qualifiedLabel debugId (axis ++ "_" ++ option), .inl (.inl (.inl (.inr ?_)))⟩
      refine List.mem_flatMap.2 ⟨_, OrderedMap.get?_eq_some_iff.1 haxis, ?_⟩
      exact List.mem_map.2 ⟨_, OrderedMap.get?_eq_some_iff.1 hoption, rfl⟩
  | @responsive name axis option _ _ _ hname haxis hoption =>
      refine ⟨qualifiedLabel debugId (name ++ "_" ++ axis ++ "_" ++ option),
        .inl (.inl (.inr ⟨_, _, OrderedMap.get?_eq_some_iff.1 hname, ?_⟩))⟩
      refine List.mem_flatMap.2 ⟨_, OrderedMap.get?_eq_some_iff.1 haxis, ?_⟩
      exact List.mem_map.2 ⟨_, OrderedMap.get?_eq_some_iff.1 hoption, rfl⟩
  | @inline axisName _ haxis =>
      refine ⟨underscoredLabel debugId ("inline_" ++ axisName),
        .inl (.inr ⟨_, _, OrderedMap.get?_eq_some_iff.1 haxis, ?_⟩)⟩
      exact List.mem_append_right _ (List.mem_singleton.2 rfl)
  | @compound _ compound hindex hregular =>
      refine ⟨underscoredLabel debugId ("compound_" ++ compound.name),
        .inr ⟨_, _, List.mem_zipIdx_iff_getElem?.2 hindex, ?_⟩⟩
      simp only [compoundSchedule, if_pos hregular]
      exact List.mem_singleton.2 rfl
  | @compoundUnder _ compound name _ hindex hregular hname =>
      refine ⟨underscoredLabel debugId ("compound_" ++ compound.name ++ "_" ++ name),
        .inr ⟨_, _, List.mem_zipIdx_iff_getElem?.2 hindex, ?_⟩⟩
      simp only [compoundSchedule, if_neg hregular]
      exact List.mem_map.2 ⟨_, OrderedMap.get?_eq_some_iff.1 hname, rfl⟩

theorem cellRule_of_mem_schedule {label : Option String}
    (h : (cell, Request.className rule label) ∈ plan.schedule b debugId answers) :
    plan.CellRule b answers cell rule := by
  simp only [schedule, List.mem_append, List.mem_flatMap, Prod.exists] at h
  rcases h with (((hbase | hregular) | ⟨name, condition, hname, hresponsive⟩) |
    ⟨axisName, axis, haxis, hinline⟩) | ⟨compound, index, hindex, hcompound⟩
  · unfold baseSchedule at hbase
    split at hbase
    · simp at hbase
    · next hrule =>
      obtain ⟨rfl, hrequest⟩ := Prod.mk.inj (List.mem_singleton.1 hbase)
      obtain ⟨rfl, -⟩ := Request.className.inj hrequest
      exact .base hrule
  · obtain ⟨⟨axis, options⟩, haxis, hmem⟩ := List.mem_flatMap.1 hregular
    obtain ⟨⟨option, rule'⟩, hoption, heq⟩ := List.mem_map.1 hmem
    cases heq
    exact .regular (OrderedMap.get?_eq_some_iff.2 haxis) (OrderedMap.get?_eq_some_iff.2 hoption)
  · obtain ⟨⟨axis, options⟩, haxis, hmem⟩ := List.mem_flatMap.1 hresponsive
    obtain ⟨⟨option, rule'⟩, hoption, heq⟩ := List.mem_map.1 hmem
    cases heq
    exact .responsive (OrderedMap.get?_eq_some_iff.2 hname)
      (OrderedMap.get?_eq_some_iff.2 haxis) (OrderedMap.get?_eq_some_iff.2 hoption)
  · rcases List.mem_append.1 hinline with hproperty | hclass
    · obtain ⟨e, -, heq⟩ := List.mem_map.1 hproperty
      cases heq
    · cases List.mem_singleton.1 hclass
      exact .inline (OrderedMap.get?_eq_some_iff.2 haxis)
  · have hget := List.mem_zipIdx_iff_getElem?.1 hindex
    simp only [compoundSchedule] at hcompound
    split at hcompound
    · next hall =>
      cases List.mem_singleton.1 hcompound
      exact .compound hget hall
    · next hmixed =>
      obtain ⟨⟨name, condition⟩, hname, heq⟩ := List.mem_map.1 hcompound
      cases heq
      exact .compoundUnder hget hmixed (OrderedMap.get?_eq_some_iff.2 hname)

theorem hasClass_regularTable_iff {axis option condition className : String} :
    (plan.regularTable answers).HasClass axis option condition className ↔
      ∃ options rule, plan.regular.get? axis = some options ∧ options.get? option = some rule ∧
        condition = plan.initial ∧ className = (answers (.regular axis option)).1 := by
  constructor
  · rintro ⟨options, classNames, haxis, hoption, hclass⟩
    rw [regularTable, OrderedMap.get?_map] at haxis
    obtain ⟨rules, hrules, rfl⟩ := Option.map_eq_some_iff.1 haxis
    rw [OrderedMap.get?_map] at hoption
    obtain ⟨rule, hrule, rfl⟩ := Option.map_eq_some_iff.1 hoption
    rw [OrderedMap.get?_singleton] at hclass
    split at hclass
    · next hinitial =>
      exact ⟨rules, rule, hrules, hrule, hinitial.symm, (Option.some.inj hclass).symm⟩
    · simp at hclass
  · rintro ⟨options, rule, haxis, hoption, rfl, rfl⟩
    exact ⟨_, _, by rw [regularTable, OrderedMap.get?_map, haxis]; rfl,
      by rw [OrderedMap.get?_map, hoption]; rfl, by simp⟩

theorem hasClass_responsiveTable_iff {axis option name className : String} :
    (plan.responsiveTable answers).HasClass axis option name className ↔
      ∃ options rule condition, plan.responsive.get? axis = some options ∧
        options.get? option = some rule ∧ plan.conditions.get? name = some condition ∧
        className = (answers (.responsive name axis option)).1 := by
  constructor
  · rintro ⟨options, classNames, haxis, hoption, hclass⟩
    rw [responsiveTable, OrderedMap.get?_map] at haxis
    obtain ⟨rules, hrules, rfl⟩ := Option.map_eq_some_iff.1 haxis
    rw [OrderedMap.get?_map] at hoption
    obtain ⟨rule, hrule, rfl⟩ := Option.map_eq_some_iff.1 hoption
    rw [OrderedMap.get?_map] at hclass
    obtain ⟨condition, hcondition, rfl⟩ := Option.map_eq_some_iff.1 hclass
    exact ⟨rules, rule, condition, hrules, hrule, hcondition, rfl⟩
  · rintro ⟨options, rule, condition, haxis, hoption, hname, rfl⟩
    exact ⟨_, _, by rw [responsiveTable, OrderedMap.get?_map, haxis]; rfl,
      by rw [OrderedMap.get?_map, hoption]; rfl, by rw [OrderedMap.get?_map, hname]; rfl⟩

theorem compounds_filled (index : Nat) :
    (plan.filled b answers).compounds[index]? =
      plan.compounds[index]?.map (plan.compoundCell answers index) := by
  simp only [filled, List.getElem?_map, List.getElem?_zipIdx, Option.map_map, Nat.zero_add]
  rfl

/-- The answer of every cell is found in the compiled recipe. -/
theorem base_or_inTables_of_cellRule (h : plan.CellRule b answers cell rule) :
    (plan.filled b answers).base = (answers cell).1 ∨
      (plan.filled b answers).InTables (answers cell).1 := by
  cases h with
  | base hbase => exact .inl (by simp [filled, baseClass, hbase])
  | regular haxis hoption =>
      exact .inr (.regular (hasClass_regularTable_iff.2 ⟨_, _, haxis, hoption, rfl, rfl⟩))
  | responsive hname haxis hoption =>
      exact .inr (.responsive
        (hasClass_responsiveTable_iff.2 ⟨_, _, _, haxis, hoption, hname, rfl⟩))
  | @inline axisName axis haxis =>
      have hcell : (plan.filled b answers).inline.get? axisName =
          some (plan.inlineCell b answers axisName axis) := by simp [filled, haxis]
      exact .inr (.inline hcell rfl)
  | @compound index compound hindex hregular =>
      have hcell : (plan.filled b answers).compounds[index]? =
          some (plan.compoundCell answers index compound) := by
        rw [compounds_filled, hindex, Option.map_some]
      have hclass : (plan.compoundCell answers index compound).classNames.get? plan.initial =
          some (answers (.compound index)).1 := by
        rw [compoundCell, if_pos hregular, OrderedMap.get?_singleton, if_pos rfl]
      exact .inr (.compound hcell hclass)
  | @compoundUnder index compound name condition hindex hmixed hname =>
      have hcell : (plan.filled b answers).compounds[index]? =
          some (plan.compoundCell answers index compound) := by
        rw [compounds_filled, hindex, Option.map_some]
      have hclass : (plan.compoundCell answers index compound).classNames.get? name =
          some (answers (.compoundUnder index name)).1 := by
        rw [compoundCell, if_neg hmixed, OrderedMap.get?_map, hname, Option.map_some]
      exact .inr (.compound hcell hclass)

end Blueprint
end StyleVariants
