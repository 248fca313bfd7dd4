import StyleVariants.Proofs.ClassRegistryRuns
import StyleVariants.Proofs.CompiledClasses

/-!
# Classes of compiled recipes are registered

When recipes are compiled with a class registry, every class in their tables is registered
for the rule that its cell stands for, and stays so whatever is named or compiled with the
registry later. So does every class that a resolved selection adds to the base. A registry
that was empty before knows nothing but the classes of the compiled recipe.
-/
namespace StyleVariants

def Axes.Declares (axes : Axes Style) (axis option : String) (rule : StyleRule) : Prop :=
  ∃ styles, OrderedMap.get? axes axis = some styles ∧ styles.get? option = some (.rule rule)

theorem Axes.declares_ruleStyles {axes : Axes StyleRule} {axis option : String}
    {options : OrderedMap String StyleRule} {rule : StyleRule}
    (haxis : OrderedMap.get? axes axis = some options) (hoption : options.get? option = some rule) :
    (ruleStyles axes).Declares axis option rule :=
  ⟨options.map fun _ rule => .rule rule, by simp [ruleStyles, haxis], by simp [hoption]⟩

namespace CompiledRecipe

/-- The form of a declared rule under a condition: wrapped exactly when the condition is not
the initial one and has a predicate. -/
def formUnder (compiled : CompiledRecipe) (name : String) (rule : StyleRule) : StyleRule :=
  match compiled.conditions.get? name with
  | some condition =>
      if name = compiled.initial ∨ condition.predicates.entries = [] then rule
      else rule.under condition
  | none => rule

/-- Every class of a compiled recipe is registered for the rule that its cell stands for: a
base of its own, an option or a compound for the declared rule in the form of the condition,
an inline axis for the rule generated for it. -/
structure BackedBy (compiled : CompiledRecipe) (r : Recipe)
    (inlineRule : String → InlineAxis → StyleRule) (registry : ClassRegistry) : Prop where
  base : ∀ rule, BaseStyle.ofStyle r.base = .rule rule → registry.Holds compiled.base rule
  regular : ∀ axis option condition className,
    compiled.regular.HasClass axis option condition className →
    ∃ rule, r.regular.Declares axis option rule ∧
      registry.Holds className (compiled.formUnder condition rule)
  responsive : ∀ axis option condition className,
    compiled.responsive.HasClass axis option condition className →
    ∃ rule, r.responsive.Declares axis option rule ∧
      registry.Holds className (compiled.formUnder condition rule)
  inline : ∀ axisName cell, compiled.inline.get? axisName = some cell →
    ∃ axis, r.inline.get? axisName = some axis ∧
      registry.Holds cell.className (inlineRule axisName axis)
  compounds : ∀ (index : Nat) (cell : CompiledCompound) (condition className : String),
    compiled.compounds[index]? = some cell →
    cell.classNames.get? condition = some className →
    ∃ rule, r.compounds[index]? = some ⟨cell.required, .rule rule⟩ ∧
      registry.Holds className (compiled.formUnder condition rule)

theorem BackedBy.registered {compiled : CompiledRecipe} {r : Recipe}
    {inlineRule : String → InlineAxis → StyleRule} {registry : ClassRegistry}
    (h : compiled.BackedBy r inlineRule registry) {className : String}
    (hin : compiled.InTables className) :
    ∃ rule, registry.rules.get? className = some rule := by
  cases hin with
  | regular hclass =>
      obtain ⟨_, -, registered, hget, -⟩ := h.regular _ _ _ _ hclass
      exact ⟨registered, hget⟩
  | responsive hclass =>
      obtain ⟨_, -, registered, hget, -⟩ := h.responsive _ _ _ _ hclass
      exact ⟨registered, hget⟩
  | inline hcell hname =>
      obtain ⟨_, -, registered, hget, -⟩ := h.inline _ _ hcell
      exact ⟨registered, hname ▸ hget⟩
  | compound hcell hclass =>
      obtain ⟨_, -, registered, hget, -⟩ := h.compounds _ _ _ _ hcell hclass
      exact ⟨registered, hget⟩

end CompiledRecipe

namespace Blueprint
variable {σ : Type} {plan : Blueprint} {b : Backend σ} {answers : Answers Cell σ}

theorem formUnder_filled {name : String} {condition : Condition}
    (h : plan.conditions.get? name = some condition) (rule : StyleRule) :
    (plan.filled b answers).formUnder name rule = plan.formUnder name condition rule := by
  simp only [CompiledRecipe.formUnder, filled, h]
  rfl

theorem formUnder_filled_initial (rule : StyleRule) :
    (plan.filled b answers).formUnder plan.initial rule = rule := by
  simp only [CompiledRecipe.formUnder, filled]
  split <;> simp

/-- If the answer of every cell is registered for the rule of the cell, so is every class of
the compiled recipe for what its cell stands for. -/
theorem backedBy_of_holds {r : Recipe} {family : RecipeDefaults} {registry : ClassRegistry}
    (hr : plan.Restates r family)
    (h : ∀ cell rule, plan.CellRule b answers cell rule → registry.Holds (answers cell).1 rule) :
    (plan.filled b answers).BackedBy r
      (fun axisName axis => (plan.inlineState b answers axisName axis).rule) registry where
  base := by
    intro rule hbase
    have hcell : plan.base = .rule rule := hr.base.trans hbase
    simpa [filled, baseClass, hcell] using h .base rule (.base hcell)
  regular := by
    intro axis option condition className hclass
    obtain ⟨options, rule, haxis, hoption, rfl, rfl⟩ := hasClass_regularTable_iff.1 hclass
    refine ⟨rule, hr.regular ▸ Axes.declares_ruleStyles haxis hoption, ?_⟩
    rw [formUnder_filled_initial]
    exact h _ _ (.regular haxis hoption)
  responsive := by
    intro axis option name className hclass
    obtain ⟨options, rule, condition, haxis, hoption, hname, rfl⟩ :=
      hasClass_responsiveTable_iff.1 hclass
    refine ⟨rule, hr.responsive ▸ Axes.declares_ruleStyles haxis hoption, ?_⟩
    rw [formUnder_filled hname]
    exact h _ _ (.responsive hname haxis hoption)
  inline := by
    intro axisName cell hcell
    obtain ⟨axis, haxis, rfl⟩ := Option.map_eq_some_iff.1
      ((OrderedMap.get?_map _ plan.inline axisName).symm.trans hcell)
    exact ⟨axis, hr.inline ▸ haxis, h _ _ (.inline haxis)⟩
  compounds := by
    intro index cell name className hcell hclass
    rw [compounds_filled] at hcell
    obtain ⟨compound, hindex, rfl⟩ := Option.map_eq_some_iff.1 hcell
    have hdeclared : r.compounds[index]? = some ⟨compound.required, .rule compound.rule⟩ := by
      rw [hr.compounds, List.getElem?_map, hindex]
      rfl
    refine ⟨compound.rule, hdeclared, ?_⟩
    simp only [compoundCell] at hclass
    split at hclass
    · next hregular =>
      rw [OrderedMap.get?_singleton] at hclass
      split at hclass
      · next hinitial =>
        obtain rfl := Option.some.inj hclass
        rw [← hinitial, formUnder_filled_initial]
        exact h _ _ (.compound hindex hregular)
      · simp at hclass
    · next hmixed =>
      rw [OrderedMap.get?_map] at hclass
      obtain ⟨condition, hname, rfl⟩ := Option.map_eq_some_iff.1 hclass
      rw [formUnder_filled hname]
      exact h _ _ (.compoundUnder hindex hmixed hname)

end Blueprint

namespace ClassRegistry

abbrev backend {τ : Type} (digest : String → String) (allocator : PropertyAllocator τ) :
    Backend (ClassRegistry × τ) :=
  .ofParts (className digest) allocator

/-- What can become of a registry: rules are named one by one, and recipes are compiled with
it, whether they are accepted or refused and wherever their custom properties come from. -/
inductive Later (digest : String → String) : ClassRegistry → ClassRegistry → Prop
  | refl (s : ClassRegistry) : Later digest s s
  | named {s t u : ClassRegistry} {rule : StyleRule} {label : Option String} {name : String} :
      className digest rule label s = (name, t) → Later digest t u → Later digest s u
  | compiled {τ : Type} {allocator : PropertyAllocator τ} {p q : τ} {s t u : ClassRegistry}
      {r : Recipe} {family : RecipeDefaults} {debugId : Option String}
      {outcome : Except RecipeError CompiledRecipe} :
      r.compile family (backend digest allocator) debugId (s, p) = (outcome, t, q) →
      Later digest t u → Later digest s u

theorem Later.exists_run {digest : String → String} {s u : ClassRegistry}
    (h : Later digest s u) : ∃ calls, ClassNamer.Run (className digest) s calls u := by
  induction h with
  | refl s => exact ⟨[], .done s⟩
  | @named s t u rule label name hstep _ ih =>
      obtain ⟨calls, hrun⟩ := ih
      exact ⟨⟨rule, label, name⟩ :: calls, .step hstep hrun⟩
  | @compiled τ allocator p q s t u r family debugId outcome hcompile _ ih =>
      obtain ⟨calls, hrun⟩ := ih
      cases outcome with
      | ok compiled =>
          obtain ⟨plan, answers, -, -, hbuild⟩ := Recipe.run_of_compile hcompile
          exact ⟨_, hbuild.named.append hrun⟩
      | error error =>
          rcases Recipe.compile_cases hcompile with ⟨_, _, -, heq, -⟩ | ⟨_, -, hsame⟩
          · cases heq
          · obtain ⟨rfl, -⟩ := Prod.mk.inj hsame
            exact ⟨calls, hrun⟩

end ClassRegistry

theorem Schedule.mem_named_iff {ι σ : Type} {schedule : Schedule ι} {answers : Answers ι σ}
    {named : NamedRule} :
    named ∈ (schedule.steps answers).filterMap Request.named? ↔
      ∃ slot, (slot, Request.className named.rule named.label) ∈ schedule ∧
        named.className = (answers slot).1 := by
  simp only [Schedule.steps, List.filterMap_map, List.mem_filterMap, Function.comp_apply]
  constructor
  · rintro ⟨⟨slot, request⟩, hmem, hnamed⟩
    cases request with
    | className rule label =>
        obtain rfl := Option.some.inj hnamed
        exact ⟨slot, hmem, rfl⟩
    | customProperty hint => cases hnamed
  · rintro ⟨slot, hmem, hname⟩
    refine ⟨_, hmem, ?_⟩
    rw [Request.named?, ← hname]

/-- Compiled with a class registry, a recipe has no class that is not registered for the
rule of its cell, then and at any later time, nor does resolving add one. A registry that was
empty before has no class that the recipe does not have. -/
theorem Recipe.compiled_classes_stay_registered {τ : Type} (digest : String → String)
    (allocator : PropertyAllocator τ) (debugId : Option String) (r : Recipe)
    (family : RecipeDefaults) {s t : ClassRegistry} {p q : τ} {compiled : CompiledRecipe}
    (h : r.compile family (ClassRegistry.backend digest allocator) debugId (s, p) =
      (.ok compiled, t, q)) :
    ∃ (plan : Blueprint) (answers : Answers Cell (ClassRegistry × τ)), plan.Restates r family ∧
      compiled = plan.filled (ClassRegistry.backend digest allocator) answers ∧
      (ClassRegistry.backend digest allocator).Run (s, p)
        ((plan.schedule (ClassRegistry.backend digest allocator) debugId answers).steps answers)
        (t, q) ∧
      (∀ u, ClassRegistry.Later digest t u →
        compiled.BackedBy r (fun axisName axis => (plan.inlineState
          (ClassRegistry.backend digest allocator) answers axisName axis).rule) u ∧
        ∀ selection, (compiled.resolve selection).className = " ".intercalate
            ((compiled.base :: compiled.addedClasses selection).filter (· ≠ "")) ∧
          ∀ className ∈ compiled.addedClasses selection,
            ∃ rule, u.rules.get? className = some rule) ∧
      (s.rules.isEmpty = true → ∀ className ∈ t.rules.keys,
        className = compiled.base ∨ compiled.InTables className) := by
  obtain ⟨plan, answers, hrestates, rfl, hrun⟩ := Recipe.run_of_compile h
  have hnamed := hrun.named
  refine ⟨plan, answers, hrestates, rfl, hrun, fun u hlater => ?_, fun hempty className hin => ?_⟩
  · obtain ⟨calls, hlater⟩ := hlater.exists_run
    -- the class of a cell answers the request for its rule, so it is registered for this rule
    have hbacked := Blueprint.backedBy_of_holds hrestates fun cell rule hcell => by
      obtain ⟨label, hmem⟩ := Blueprint.mem_schedule_of_cellRule debugId hcell
      let named : NamedRule := ⟨rule, label, (answers cell).1⟩
      have hnamed' : t.Holds named.className named.rule :=
        ClassRegistry.run_holds hnamed (Schedule.mem_named_iff.2 ⟨cell, hmem, rfl⟩)
      exact hnamed'.of_run hlater
    exact ⟨hbacked, fun selection => ⟨CompiledRecipe.resolve_className _ selection,
      fun className hclass =>
        hbacked.registered (CompiledRecipe.inTables_of_mem_addedClasses hclass)⟩⟩
  · obtain ⟨rule, hget⟩ := OrderedMap.mem_keys_iff.1 hin
    rcases ClassRegistry.run_registered hnamed hget with hold | ⟨before, label, after, hcalls, -⟩
    · have hnone : s.rules.entries = [] := List.isEmpty_iff.1 hempty
      simp [OrderedMap.get?, hnone] at hold
    · have hmem : (⟨rule, label, className⟩ : NamedRule) ∈
          ((plan.schedule (ClassRegistry.backend digest allocator) debugId answers).steps
            answers).filterMap Request.named? := by
        rw [hcalls]
        simp
      obtain ⟨cell, hcell, hname⟩ := Schedule.mem_named_iff.1 hmem
      have hfound :=
        Blueprint.base_or_inTables_of_cellRule (Blueprint.cellRule_of_mem_schedule hcell)
      rw [← hname] at hfound
      exact hfound.imp_left Eq.symm

/-- A digest that tells nothing apart, so that all hashed names clash. -/
def blind : String → String := fun _ => "00000000"

/-- Three different rules and one name to start from: the second and the third take numbers. -/
theorem Recipe.compiled_classes_stay_registered_framed :
    ∃ (compiled : CompiledRecipe) (t : ClassRegistry) (q : Nat),
      framed.compile {} (ClassRegistry.backend blind Echo.counting) none ({}, 0) =
        (.ok compiled, t, q) ∧
      t.rules.keys = ["recipes__00000000", "recipes__00000000_1", "recipes__00000000_2"] ∧
      ∃ (plan : Blueprint) (answers : Answers Cell (ClassRegistry × Nat)),
        plan.Restates framed {} ∧
        compiled = plan.filled (ClassRegistry.backend blind Echo.counting) answers ∧
        (ClassRegistry.backend blind Echo.counting).Run ({}, 0)
          ((plan.schedule (ClassRegistry.backend blind Echo.counting) none answers).steps answers)
          (t, q) ∧
        (∀ u, ClassRegistry.Later blind t u →
          compiled.BackedBy framed (fun axisName axis => (plan.inlineState
            (ClassRegistry.backend blind Echo.counting) answers axisName axis).rule) u ∧
          ∀ selection, (compiled.resolve selection).className = " ".intercalate
              ((compiled.base :: compiled.addedClasses selection).filter (· ≠ "")) ∧
            ∀ className ∈ compiled.addedClasses selection,
              ∃ rule, u.rules.get? className = some rule) ∧
        (({} : ClassRegistry).rules.isEmpty = true → ∀ className ∈ t.rules.keys,
          className = compiled.base ∨ compiled.InTables className) := by
  have haccepted : (framed.compile {} (ClassRegistry.backend blind Echo.counting) none
      ({}, 0)).1.isOk = true := by decide +kernel
  have hkeys : (framed.compile {} (ClassRegistry.backend blind Echo.counting) none
      ({}, 0)).2.1.rules.keys =
        ["recipes__00000000", "recipes__00000000_1", "recipes__00000000_2"] := by decide +kernel
  rcases hcompile : framed.compile {} (ClassRegistry.backend blind Echo.counting) none
    ({}, 0) with ⟨outcome, t, q⟩
  rw [hcompile] at haccepted hkeys
  cases outcome with
  | error error => cases haccepted
  | ok compiled =>
      exact ⟨compiled, t, q, rfl, hkeys,
        Recipe.compiled_classes_stay_registered blind Echo.counting none framed {} hcompile⟩

end StyleVariants
