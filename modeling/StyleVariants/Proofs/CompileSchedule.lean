import StyleVariants.Recipe.Compile
import StyleVariants.Backend.Echo
import StyleVariants.Proofs.AcceptedRecipes
import StyleVariants.Proofs.BackendRuns
import Mathlib.Data.List.Nodup

/-!
# The schedule of a compilation

Compiling a blueprint makes one request for every cell of its tables, in a fixed order:
the base, the regular options, for each condition all responsive options, for each inline
axis its custom properties and then its class, and at last the compounds. The tables hold
in every cell the answer of its own request and nothing else.

The schedule is written down without a backend. Only the rule of an inline axis depends on
answers given before, those that allocate its custom properties.
-/
namespace StyleVariants

/-- The places in the tables of a recipe that one answer goes to. -/
inductive Cell where
  | base
  | regular (axis option : String)
  | responsive (condition axis option : String)
  | property (axis condition : String)
  | inline (axis : String)
  | compound (index : Nat)
  | compoundUnder (index : Nat) (condition : String)
  deriving DecidableEq

namespace Blueprint
variable {σ : Type}

/-- The rule is wrapped unless the condition is the initial one or has no predicate. -/
def formUnder (plan : Blueprint) (name : String) (condition : Condition) (rule : StyleRule) :
    StyleRule :=
  if name = plan.initial ∨ condition.predicates.entries = [] then rule
  else rule.under condition

def baseSchedule (plan : Blueprint) (debugId : Option String) : Schedule Cell :=
  match plan.base with
  | .references _ => []
  | .rule rule => [(.base, .className rule debugId)]

def regularSchedule (plan : Blueprint) (debugId : Option String) : Schedule Cell :=
  plan.regular.entries.flatMap fun (axis, options) =>
    options.entries.map fun (option, rule) =>
      (.regular axis option,
        .className rule (qualifiedLabel debugId (axis ++ "_" ++ option)))

def responsiveSchedule (plan : Blueprint) (debugId : Option String) (name : String)
    (condition : Condition) : Schedule Cell :=
  plan.responsive.entries.flatMap fun (axis, options) =>
    options.entries.map fun (option, rule) =>
      (.responsive name axis option,
        .className (plan.formUnder name condition rule)
          (qualifiedLabel debugId (name ++ "_" ++ axis ++ "_" ++ option)))

def inlineScope (plan : Blueprint) (axis : InlineAxis) : Conditions where
  entries := plan.conditions.entries.filter fun e => axis.responsive || e.1 == plan.initial
  nodup_keys := (List.filter_sublist.map Prod.fst).nodup plan.conditions.nodup_keys

def propertyIn (b : Backend σ) (answers : Answers Cell σ) (axisName name : String) : String :=
  b.target (answers (.property axisName name)).1 (answers (.property axisName name)).2

def inlineState (plan : Blueprint) (b : Backend σ) (answers : Answers Cell σ)
    (axisName : String) (axis : InlineAxis) : InlineState :=
  (plan.inlineScope axis).entries.foldl (fun state (name, condition) =>
    state.extend plan axis.property name condition (answers (.property axisName name)).1
      (propertyIn b answers axisName name)) {}

def inlineSchedule (plan : Blueprint) (b : Backend σ) (debugId : Option String)
    (answers : Answers Cell σ) (axisName : String) (axis : InlineAxis) : Schedule Cell :=
  (plan.inlineScope axis).entries.map (fun (name, _) =>
    (.property axisName name, .customProperty (axisName ++ "-" ++ name))) ++
  [(.inline axisName, .className (plan.inlineState b answers axisName axis).rule
    (underscoredLabel debugId ("inline_" ++ axisName)))]

def compoundSchedule (plan : Blueprint) (debugId : Option String) (index : Nat)
    (compound : CompoundRule) : Schedule Cell :=
  let label := "compound_" ++ compound.name
  if ∀ axis ∈ compound.required.keys, axis ∈ plan.regular.keys then
    [(.compound index, .className compound.rule (underscoredLabel debugId label))]
  else
    plan.conditions.entries.map fun (name, condition) =>
      (.compoundUnder index name,
        .className (plan.formUnder name condition compound.rule)
          (underscoredLabel debugId (label ++ "_" ++ name)))

def schedule (plan : Blueprint) (b : Backend σ) (debugId : Option String)
    (answers : Answers Cell σ) : Schedule Cell :=
  plan.baseSchedule debugId ++ plan.regularSchedule debugId ++
  (plan.conditions.entries.flatMap fun (name, condition) =>
    plan.responsiveSchedule debugId name condition) ++
  (plan.inline.entries.flatMap fun (axisName, axis) =>
    plan.inlineSchedule b debugId answers axisName axis) ++
  (plan.compounds.zipIdx.flatMap fun (compound, index) =>
    plan.compoundSchedule debugId index compound)

def baseClass (plan : Blueprint) (answers : Answers Cell σ) : String :=
  match plan.base with
  | .references classNames => classNames
  | .rule _ => (answers .base).1

def regularTable (plan : Blueprint) (answers : Answers Cell σ) : ClassTable :=
  plan.regular.map fun axis options => options.map fun option _ =>
    .singleton plan.initial (answers (.regular axis option)).1

def responsiveTable (plan : Blueprint) (answers : Answers Cell σ) : ClassTable :=
  plan.responsive.map fun axis options => options.map fun option _ =>
    plan.conditions.map fun name _ => (answers (.responsive name axis option)).1

def inlineCell (plan : Blueprint) (b : Backend σ) (answers : Answers Cell σ)
    (axisName : String) (axis : InlineAxis) : CompiledInline where
  className := (answers (.inline axisName)).1
  properties := (plan.inlineScope axis).map fun name _ => propertyIn b answers axisName name

def compoundCell (plan : Blueprint) (answers : Answers Cell σ) (index : Nat)
    (compound : CompoundRule) : CompiledCompound where
  required := compound.required
  classNames :=
    if ∀ axis ∈ compound.required.keys, axis ∈ plan.regular.keys then
      .singleton plan.initial (answers (.compound index)).1
    else plan.conditions.map fun name _ => (answers (.compoundUnder index name)).1

/-- The tables of a blueprint, each cell with its answer. -/
def filled (plan : Blueprint) (b : Backend σ) (answers : Answers Cell σ) : CompiledRecipe where
  initial := plan.initial
  conditions := plan.conditions
  base := plan.baseClass answers
  regular := plan.regularTable answers
  responsive := plan.responsiveTable answers
  inline := plan.inline.map fun axisName axis => plan.inlineCell b answers axisName axis
  compounds := plan.compounds.zipIdx.map fun (compound, index) =>
    plan.compoundCell answers index compound
  defaults := plan.defaults

theorem ruleUnder_eq_formUnder (plan : Blueprint) (name : String) (condition : Condition)
    (rule : StyleRule) :
    plan.ruleUnder name condition rule = plan.formUnder name condition rule := by
  by_cases hname : name = plan.initial <;>
    cases hentries : condition.predicates.entries <;>
      simp [ruleUnder, formUnder, isWrapped, Condition.isAlways, OrderedMap.isEmpty, hname,
        hentries]

theorem onlyRegular_iff {plan : Blueprint} {compound : CompoundRule} :
    plan.onlyRegular compound ↔ ∀ axis ∈ compound.required.keys, axis ∈ plan.regular.keys := by
  simp [onlyRegular, OrderedMap.contains_iff]

variable (b : Backend σ) (debugId : Option String)

theorem fills_compileBase (plan : Blueprint) :
    Fills b (plan.compileBase b debugId) ((plan.baseSchedule debugId).map Prod.fst)
      (fun _ => plan.baseSchedule debugId) plan.baseClass := by
  unfold compileBase baseSchedule baseClass
  cases plan.base with
  | references classNames => exact Fills.pure classNames
  | rule rule => exact Fills.className Cell.base rule debugId

theorem fills_compileRegular (plan : Blueprint) :
    Fills b (plan.compileRegular b debugId) ((plan.regularSchedule debugId).map Prod.fst)
      (fun _ => plan.regularSchedule debugId) plan.regularTable := by
  have hoption : ∀ axis option rule,
      Fills b (do
          let className ← b.className rule (qualifiedLabel debugId (axis ++ "_" ++ option))
          return OrderedMap.singleton plan.initial className)
        [Cell.regular axis option] (fun _ => [(Cell.regular axis option,
          .className rule (qualifiedLabel debugId (axis ++ "_" ++ option)))])
        (fun answers => .singleton plan.initial (answers (.regular axis option)).1) :=
    fun axis option rule => (Fills.className _ rule _).map _
  have hall := Fills.mapM_map (fun axis options =>
    Fills.mapM_map (hoption axis) options) plan.regular
  refine hall.congr ?_ (fun answers => ?_) (fun answers => rfl)
  · simp only [regularSchedule, List.map_flatMap, List.map_map, ← List.map_eq_flatMap]
    rfl
  · simp only [regularSchedule, ← List.map_eq_flatMap]

theorem fills_extendResponsive (plan : Blueprint) (name : String) (condition : Condition)
    {table : PartialTable}
    (htable : (table.map fun _ options => options.map fun _ cell => cell.1) = plan.responsive) :
    Fills b (plan.extendResponsive b debugId name condition table)
      ((plan.responsiveSchedule debugId name condition).map Prod.fst)
      (fun _ => plan.responsiveSchedule debugId name condition)
      (fun answers => table.map fun axis options => options.map fun option cell =>
        (cell.1, cell.2.insert name (answers (.responsive name axis option)).1)) := by
  have hoption : ∀ axis option (cell : StyleRule × OrderedMap String String),
      Fills b (do
          let className ← b.className (plan.ruleUnder name condition cell.1)
            (qualifiedLabel debugId (name ++ "_" ++ axis ++ "_" ++ option))
          return (cell.1, cell.2.insert name className))
        [Cell.responsive name axis option] (fun _ => [(Cell.responsive name axis option,
          .className (plan.formUnder name condition cell.1)
            (qualifiedLabel debugId (name ++ "_" ++ axis ++ "_" ++ option)))])
        (fun answers => (cell.1, cell.2.insert name (answers (.responsive name axis option)).1)) := by
    intro axis option cell
    rw [ruleUnder_eq_formUnder]
    exact (Fills.className _ _ _).map _
  have hall := Fills.mapM_map (fun axis options =>
    Fills.mapM_map (hoption axis) options) table
  refine hall.congr ?_ (fun answers => ?_) (fun answers => rfl)
  · rw [responsiveSchedule, ← htable]
    simp only [OrderedMap.map, List.flatMap_map, List.map_flatMap, List.map_map,
      ← List.map_eq_flatMap]
    rfl
  · rw [responsiveSchedule, ← htable]
    simp only [OrderedMap.map, List.flatMap_map, List.map_map, ← List.map_eq_flatMap]
    rfl

/-- Adding conditions to all options, one after the other, adds to each option all of
them. -/
theorem foldl_extend_eq_map (answer : String → String → String → String)
    (conditions : List (String × Condition)) (table : PartialTable) :
    conditions.foldl (fun table e => table.map fun axis options =>
        options.map fun option cell => (cell.1, cell.2.insert e.1 (answer e.1 axis option)))
      table =
    table.map fun axis options => options.map fun option cell =>
      (cell.1, conditions.foldl (fun classNames e =>
        classNames.insert e.1 (answer e.1 axis option)) cell.2) := by
  induction conditions generalizing table with
  | nil => simp
  | cons e rest ih => simp [ih]

theorem fills_compileResponsive (plan : Blueprint) :
    Fills b (plan.compileResponsive b debugId)
      ((plan.conditions.entries.flatMap fun e =>
        plan.responsiveSchedule debugId e.1 e.2).map Prod.fst)
      (fun _ => plan.conditions.entries.flatMap fun e =>
        plan.responsiveSchedule debugId e.1 e.2)
      plan.responsiveTable := by
  let rules (table : PartialTable) : Axes StyleRule :=
    table.map fun _ options => options.map fun _ cell => cell.1
  let start : PartialTable := plan.responsive.map fun _ options =>
    options.map fun _ rule => (rule, ∅)
  let classes (table : PartialTable) : ClassTable :=
    table.map fun _ options => options.map fun _ cell => cell.2
  have hstart : rules start = plan.responsive := by simp [rules, start]
  have hloop := Fills.foldlM (P := fun table => rules table = plan.responsive)
    (fun table e htable => plan.fills_extendResponsive b debugId e.1 e.2 htable)
    (fun table e answers htable => by simpa [rules] using htable) plan.conditions.entries start
    hstart
  refine (hloop.map classes).congr ?_ (fun answers => rfl) (fun answers => ?_)
  · rw [List.map_flatMap]
  · have hcell : ∀ axis option, plan.conditions.entries.foldl (fun classNames e =>
          classNames.insert e.1 (answers (.responsive e.1 axis option)).1) ∅ =
        plan.conditions.map fun name _ => (answers (.responsive name axis option)).1 :=
      fun axis option => OrderedMap.foldl_insert_eq_map
        (fun name _ => (answers (.responsive name axis option)).1) plan.conditions
    rw [foldl_extend_eq_map fun name axis option => (answers (.responsive name axis option)).1]
    simp only [classes, start, OrderedMap.map_map, hcell]
    rfl

theorem properties_inlineState (plan : Blueprint) (answers : Answers Cell σ)
    (axisName : String) (axis : InlineAxis) :
    (plan.inlineState b answers axisName axis).properties =
      (plan.inlineCell b answers axisName axis).properties := by
  have hfold : ∀ (scope : List (String × Condition)) (state : InlineState),
      (scope.foldl (fun state e => state.extend plan axis.property e.1 e.2
          (answers (.property axisName e.1)).1 (propertyIn b answers axisName e.1))
        state).properties =
      scope.foldl (fun properties e => properties.insert e.1 (propertyIn b answers axisName e.1))
        state.properties := by
    intro scope
    induction scope with
    | nil => exact fun state => rfl
    | cons e rest ih => exact fun state => ih _
  exact (hfold _ {}).trans (OrderedMap.foldl_insert_eq_map
    (fun name _ => propertyIn b answers axisName name) (plan.inlineScope axis))

theorem fills_compileInline (plan : Blueprint) :
    Fills b (plan.compileInline b debugId)
      (plan.inline.entries.flatMap fun e =>
        (plan.inlineScope e.2).keys.map (.property e.1) ++ [.inline e.1])
      (fun answers => plan.inline.entries.flatMap fun e =>
        plan.inlineSchedule b debugId answers e.1 e.2)
      (fun answers => plan.inline.map fun axisName axis =>
        plan.inlineCell b answers axisName axis) := by
  have haxis : ∀ axisName axis, Fills b (do
        let state ← (plan.inlineConditions axis).foldlM (fun state (name, condition) =>
          plan.extendInline b axisName axis name condition state) {}
        let className ← b.className state.rule
          (underscoredLabel debugId ("inline_" ++ axisName))
        return (⟨className, state.properties⟩ : CompiledInline))
      ((plan.inlineScope axis).keys.map (.property axisName) ++ [.inline axisName])
      (fun answers => plan.inlineSchedule b debugId answers axisName axis)
      (fun answers => plan.inlineCell b answers axisName axis) := by
    intro axisName axis
    -- one turn of the loop fills the slot of one condition, whatever the rule is so far
    have hcondition : ∀ (state : InlineState) (e : String × Condition), True →
        Fills b (plan.extendInline b axisName axis e.1 e.2 state)
          [Cell.property axisName e.1]
          (fun _ => [(Cell.property axisName e.1, .customProperty (axisName ++ "-" ++ e.1))])
          (fun answers => state.extend plan axis.property e.1 e.2
            (answers (.property axisName e.1)).1 (propertyIn b answers axisName e.1)) :=
      fun state e _ => Fills.request _ (.customProperty _) fun reference t =>
        state.extend plan axis.property e.1 e.2 reference (b.target reference t)
    have hloop := Fills.foldlM hcondition (fun _ _ _ h => h) (plan.inlineScope axis).entries {}
      trivial
    have hboth := hloop.bind fun state => (Fills.className (Cell.inline axisName) state.rule
      (underscoredLabel debugId ("inline_" ++ axisName))).map
        fun className => (⟨className, state.properties⟩ : CompiledInline)
    refine hboth.congr ?_ (fun answers => ?_) (fun answers => ?_)
    · rw [← List.map_eq_flatMap, OrderedMap.keys, List.map_map]
      rfl
    · rw [← List.map_eq_flatMap]
      rfl
    · rw [inlineCell, CompiledInline.mk.injEq]
      exact ⟨rfl, plan.properties_inlineState b answers axisName axis⟩
  exact Fills.mapM_map haxis plan.inline

def compileEverywhere (plan : Blueprint) (compound : CompoundRule) : StateM σ CompiledCompound := do
  let classNames ← plan.conditions.mapM fun name condition =>
    b.className (plan.ruleUnder name condition compound.rule)
      (underscoredLabel debugId ("compound_" ++ compound.name ++ "_" ++ name))
  return ⟨compound.required, classNames⟩

def everywhereSchedule (plan : Blueprint) (index : Nat) (compound : CompoundRule) :
    Schedule Cell :=
  plan.conditions.entries.map fun (name, condition) =>
    (.compoundUnder index name,
      .className (plan.formUnder name condition compound.rule)
        (underscoredLabel debugId ("compound_" ++ compound.name ++ "_" ++ name)))

theorem fills_compileEverywhere (plan : Blueprint) (index : Nat) (compound : CompoundRule) :
    Fills b (plan.compileEverywhere b debugId compound)
      ((plan.everywhereSchedule debugId index compound).map Prod.fst)
      (fun _ => plan.everywhereSchedule debugId index compound)
      (fun answers => ⟨compound.required,
        plan.conditions.map fun name _ => (answers (.compoundUnder index name)).1⟩) := by
  unfold compileEverywhere everywhereSchedule
  simp only [ruleUnder_eq_formUnder]
  let label := "compound_" ++ compound.name
  have hcondition : ∀ name condition, Fills b
      (b.className (plan.formUnder name condition compound.rule)
        (underscoredLabel debugId (label ++ "_" ++ name)))
      [Cell.compoundUnder index name] (fun _ => [(Cell.compoundUnder index name,
        .className (plan.formUnder name condition compound.rule)
          (underscoredLabel debugId (label ++ "_" ++ name)))])
      (fun answers => (answers (.compoundUnder index name)).1) :=
    fun name condition => Fills.className _ _ _
  let cell (classNames : OrderedMap String String) : CompiledCompound :=
    ⟨compound.required, classNames⟩
  refine ((Fills.mapM_map hcondition plan.conditions).map cell).congr ?_ (fun answers => ?_)
    (fun answers => rfl)
  · rw [← List.map_eq_flatMap, List.map_map]
    rfl
  · rw [← List.map_eq_flatMap]

theorem compileCompound_of_mixed {plan : Blueprint} {compound : CompoundRule}
    (h : ¬ ∀ axis ∈ compound.required.keys, axis ∈ plan.regular.keys) :
    plan.compileCompound b debugId compound = plan.compileEverywhere b debugId compound := by
  have hmixed : plan.onlyRegular compound = false := by
    rw [Bool.eq_false_iff, ne_eq, onlyRegular_iff]
    exact h
  simp only [compileCompound, compileEverywhere, hmixed, Bool.false_eq_true, if_false]

theorem fills_compileCompound (plan : Blueprint) (index : Nat) (compound : CompoundRule) :
    Fills b (plan.compileCompound b debugId compound)
      ((plan.compoundSchedule debugId index compound).map Prod.fst)
      (fun _ => plan.compoundSchedule debugId index compound)
      (fun answers => plan.compoundCell answers index compound) := by
  by_cases hregular : ∀ axis ∈ compound.required.keys, axis ∈ plan.regular.keys
  · simp only [compileCompound, compoundSchedule, compoundCell, onlyRegular_iff.2 hregular,
      if_pos hregular, if_true]
    exact (Fills.className _ _ _).map _
  · simp only [compileCompound_of_mixed b debugId hregular, compoundSchedule, compoundCell,
      if_neg hregular]
    exact plan.fills_compileEverywhere b debugId index compound

def cells (plan : Blueprint) (debugId : Option String) : List Cell :=
  (plan.baseSchedule debugId).map Prod.fst ++ (plan.regularSchedule debugId).map Prod.fst ++
  (plan.conditions.entries.flatMap fun e =>
    plan.responsiveSchedule debugId e.1 e.2).map Prod.fst ++
  (plan.inline.entries.flatMap fun e =>
    (plan.inlineScope e.2).keys.map (.property e.1) ++ [.inline e.1]) ++
  (plan.compounds.zipIdx.flatMap fun e =>
    (plan.compoundSchedule debugId e.2 e.1).map Prod.fst)

theorem fills_compile (plan : Blueprint) :
    Fills b (plan.compile b debugId) (plan.cells debugId) (plan.schedule b debugId)
      (plan.filled b) := by
  have hcompounds := Fills.mapM (fun index compound =>
    plan.fills_compileCompound b debugId index compound) plan.compounds 0
  let assemble (base : String) (regular responsive : ClassTable)
      (inline : OrderedMap String CompiledInline) (compounds : List CompiledCompound) :
      CompiledRecipe :=
    { initial := plan.initial
      conditions := plan.conditions
      defaults := plan.defaults
      base, regular, responsive, inline, compounds }
  have hall := (plan.fills_compileBase b debugId).bind fun base =>
    (plan.fills_compileRegular b debugId).bind fun regular =>
    (plan.fills_compileResponsive b debugId).bind fun responsive =>
    (plan.fills_compileInline b debugId).bind fun inline =>
    hcompounds.map (assemble base regular responsive inline)
  refine hall.congr ?_ (fun answers => ?_) (fun answers => rfl)
  · simp only [cells, List.append_assoc]
  · simp only [schedule, List.append_assoc]

theorem schedule_map_fst (plan : Blueprint) (answers : Answers Cell σ) :
    (plan.schedule b debugId answers).map Prod.fst = plan.cells debugId := by
  simp [schedule, cells, inlineSchedule, List.map_flatMap, OrderedMap.keys, Function.comp_def]

/-- Lists that are told apart by the key of what they are made for have no element twice. -/
theorem nodup_flatMap_of_key {α κ ι : Type} {key : α → κ} {items : α → List ι} {l : List α}
    (hn : (l.map key).Nodup) (hitems : ∀ a, (items a).Nodup)
    (hkey : ∀ a b, ∀ i ∈ items a, i ∈ items b → key a = key b) : (l.flatMap items).Nodup := by
  refine List.nodup_flatMap.2 ⟨fun a _ => hitems a, ?_⟩
  refine (List.pairwise_map.1 hn).imp fun hne => ?_
  exact List.disjoint_left.2 fun i hi hi' => hne (hkey _ _ i hi hi')

theorem nodup_options {cell : String → String → Cell}
    (hcell : ∀ {axis option axis' option'}, cell axis option = cell axis' option' →
      axis = axis' ∧ option = option') (axes : Axes StyleRule) :
    (axes.entries.flatMap fun e => e.2.keys.map (cell e.1)).Nodup := by
  refine nodup_flatMap_of_key axes.nodup_keys (fun e => ?_) (fun e f c hc hc' => ?_)
  · exact List.Nodup.map (fun option option' h => (hcell h).2) e.2.nodup_keys
  · obtain ⟨option, -, rfl⟩ := List.mem_map.1 hc
    obtain ⟨option', -, h⟩ := List.mem_map.1 hc'
    exact (hcell h).1.symm

theorem nodup_regularCells (plan : Blueprint) :
    ((plan.regularSchedule debugId).map Prod.fst).Nodup := by
  have hcells : (plan.regularSchedule debugId).map Prod.fst =
      plan.regular.entries.flatMap fun e => e.2.keys.map (Cell.regular e.1) := by
    simp [regularSchedule, List.map_flatMap, OrderedMap.keys, Function.comp_def]
  rw [hcells]
  exact nodup_options (fun h => Cell.regular.inj h) plan.regular

theorem nodup_responsiveCells (plan : Blueprint) :
    ((plan.conditions.entries.flatMap fun e =>
      plan.responsiveSchedule debugId e.1 e.2).map Prod.fst).Nodup := by
  have hcells : ∀ e : String × Condition,
      (plan.responsiveSchedule debugId e.1 e.2).map Prod.fst =
        plan.responsive.entries.flatMap fun a => a.2.keys.map (Cell.responsive e.1 a.1) := by
    intro e
    simp [responsiveSchedule, List.map_flatMap, OrderedMap.keys, Function.comp_def]
  rw [List.map_flatMap]
  refine nodup_flatMap_of_key plan.conditions.nodup_keys (fun e => ?_) (fun e f c hc hc' => ?_)
  · rw [hcells]
    exact nodup_options (fun h => (Cell.responsive.inj h).2) plan.responsive
  · rw [hcells] at hc hc'
    grind

theorem nodup_inlineCells (plan : Blueprint) :
    (plan.inline.entries.flatMap fun e =>
      (plan.inlineScope e.2).keys.map (Cell.property e.1) ++ [.inline e.1]).Nodup := by
  refine nodup_flatMap_of_key plan.inline.nodup_keys (fun e => ?_) (fun e f c hc hc' => ?_)
  · have hproperties : ((plan.inlineScope e.2).keys.map (Cell.property e.1)).Nodup :=
      List.Nodup.map (fun name name' h => (Cell.property.inj h).2) (plan.inlineScope e.2).nodup_keys
    rw [List.nodup_append]
    exact ⟨hproperties, by simp, by grind⟩
  · grind

theorem map_fst_everywhereSchedule (plan : Blueprint) (index : Nat) (compound : CompoundRule) :
    (plan.everywhereSchedule debugId index compound).map Prod.fst =
      plan.conditions.keys.map (Cell.compoundUnder index) := by
  simp [everywhereSchedule, OrderedMap.keys, Function.comp_def]

theorem nodup_conditionCells (plan : Blueprint) (index : Nat) :
    (plan.conditions.keys.map (Cell.compoundUnder index)).Nodup :=
  List.Nodup.map (fun _ _ h => (Cell.compoundUnder.inj h).2) plan.conditions.nodup_keys

theorem nodup_compoundCells (plan : Blueprint) :
    (plan.compounds.zipIdx.flatMap fun e =>
      (plan.compoundSchedule debugId e.2 e.1).map Prod.fst).Nodup := by
  have hindices : (plan.compounds.zipIdx.map Prod.snd).Nodup := by
    rw [List.zipIdx_map_snd]
    exact List.nodup_range'
  have hcells : ∀ e : CompoundRule × Nat,
      (plan.compoundSchedule debugId e.2 e.1).map Prod.fst = [.compound e.2] ∨
      (plan.compoundSchedule debugId e.2 e.1).map Prod.fst =
        plan.conditions.keys.map (Cell.compoundUnder e.2) := by
    intro e
    unfold compoundSchedule
    split
    · exact .inl rfl
    · exact .inr (plan.map_fst_everywhereSchedule debugId e.2 e.1)
  refine nodup_flatMap_of_key hindices (fun e => ?_) (fun e f c hc hc' => ?_)
  · rcases hcells e with h | h
    · rw [h]
      simp
    · rw [h]
      exact plan.nodup_conditionCells e.2
  · rcases hcells e with h | h <;> rcases hcells f with h' | h' <;>
      rw [h] at hc <;> rw [h'] at hc' <;> grind

theorem nodup_cells (plan : Blueprint) : (plan.cells debugId).Nodup := by
  have hbase : ((plan.baseSchedule debugId).map Prod.fst).Nodup ∧
      ∀ c ∈ (plan.baseSchedule debugId).map Prod.fst, c = Cell.base := by
    unfold baseSchedule
    cases plan.base <;> simp
  have hregular : ∀ c ∈ (plan.regularSchedule debugId).map Prod.fst,
      ∃ axis option, c = Cell.regular axis option := by
    unfold regularSchedule
    grind
  have hresponsive : ∀ c ∈ (plan.conditions.entries.flatMap fun e =>
      plan.responsiveSchedule debugId e.1 e.2).map Prod.fst,
      ∃ condition axis option, c = Cell.responsive condition axis option := by
    unfold responsiveSchedule
    grind
  have hinline : ∀ c ∈ plan.inline.entries.flatMap fun e =>
      (plan.inlineScope e.2).keys.map (Cell.property e.1) ++ [.inline e.1],
      (∃ axis condition, c = Cell.property axis condition) ∨ ∃ axis, c = Cell.inline axis := by
    grind
  have hcompound : ∀ c ∈ plan.compounds.zipIdx.flatMap fun e =>
      (plan.compoundSchedule debugId e.2 e.1).map Prod.fst,
      (∃ index, c = Cell.compound index) ∨
        ∃ index condition, c = Cell.compoundUnder index condition := by
    unfold compoundSchedule
    grind
  -- each group has kinds of cells of its own, so only cells of one group could meet
  unfold cells
  refine List.nodup_append.2 ⟨?_, nodup_compoundCells debugId plan, by grind⟩
  refine List.nodup_append.2 ⟨?_, nodup_inlineCells plan, by grind⟩
  refine List.nodup_append.2 ⟨?_, nodup_responsiveCells debugId plan, by grind⟩
  exact List.nodup_append.2 ⟨hbase.1, nodup_regularCells debugId plan, by grind⟩

/-- What a compilation does: it performs the schedule from one state to another, these are
its calls, and this is what it returns. -/
structure Performs (plan : Blueprint) (answers : Answers Cell σ) (s : σ)
    (compiled : CompiledRecipe) (t : σ) (calls : List Call) : Prop where
  returned : compiled = plan.filled b answers
  run : b.Run s ((plan.schedule b debugId answers).steps answers) t
  called : calls = (plan.schedule b debugId answers).map fun e => e.2.answered (answers e.1).1

theorem performs_of_compile {plan : Blueprint} {s t : σ} {compiled : CompiledRecipe}
    {calls : List Call}
    (h : plan.compile b.recorded debugId (s, []) = (compiled, t, calls)) :
    ∃ answers, plan.Performs b debugId answers s compiled t calls := by
  obtain ⟨recorded, hresult, hrun⟩ :=
    (plan.fills_compile b.recorded debugId).exists_answers (plan.nodup_cells debugId) (s, [])
  rw [h] at hresult hrun
  let answers : Answers Cell σ := fun cell => ((recorded cell).1, (recorded cell).2.1)
  obtain ⟨hcalls, hrun⟩ := hrun.of_recorded
  refine ⟨answers, hresult, ?_, ?_⟩
  · rw [Schedule.steps, List.map_map] at hrun
    exact hrun
  · rw [Schedule.steps, List.map_map, List.nil_append] at hcalls
    exact hcalls

end Blueprint

theorem Recipe.compile_cases {σ : Type} {b : Backend σ} {debugId : Option String} {r : Recipe}
    {family : RecipeDefaults} {s t : σ} {outcome : Except RecipeError CompiledRecipe}
    (h : r.compile family b debugId s = (outcome, t)) :
    (∃ (plan : Blueprint) (compiled : CompiledRecipe), plan.Restates r family ∧
      outcome = .ok compiled ∧ plan.compile b debugId s = (compiled, t)) ∨
    ∃ error, outcome = .error error ∧ t = s := by
  unfold Recipe.compile at h
  cases hplan : r.blueprint family with
  | ok plan =>
      left
      rw [hplan] at h
      obtain ⟨rfl, rfl⟩ := Prod.mk.inj h
      exact ⟨plan, _, restates_of_blueprint hplan, rfl, rfl⟩
  | error error =>
      right
      rw [hplan] at h
      obtain ⟨rfl, rfl⟩ := Prod.mk.inj h
      exact ⟨error, rfl, rfl⟩

theorem Recipe.performs_of_compile {σ : Type} {b : Backend σ} {debugId : Option String}
    {r : Recipe} {family : RecipeDefaults} {s t : σ} {compiled : CompiledRecipe}
    {calls : List Call}
    (h : r.compile family b.recorded debugId (s, []) = (.ok compiled, t, calls)) :
    ∃ (plan : Blueprint) (answers : Answers Cell σ), plan.Restates r family ∧
      plan.Performs b debugId answers s compiled t calls := by
  rcases Recipe.compile_cases h with ⟨plan, _, hrestates, heq, hcompile⟩ | ⟨error, heq, -⟩
  · obtain rfl := Except.ok.inj heq
    obtain ⟨answers, hperforms⟩ := Blueprint.performs_of_compile b debugId hcompile
    exact ⟨plan, answers, hrestates, hperforms⟩
  · cases heq

theorem Recipe.run_of_compile {σ : Type} {b : Backend σ} {debugId : Option String}
    {r : Recipe} {family : RecipeDefaults} {s t : σ} {compiled : CompiledRecipe}
    (h : r.compile family b debugId s = (.ok compiled, t)) :
    ∃ (plan : Blueprint) (answers : Answers Cell σ), plan.Restates r family ∧
      compiled = plan.filled b answers ∧
      b.Run s ((plan.schedule b debugId answers).steps answers) t := by
  rcases Recipe.compile_cases h with ⟨plan, _, hrestates, heq, hcompile⟩ | ⟨error, heq, -⟩
  · obtain rfl := Except.ok.inj heq
    obtain ⟨answers, hfilled, hrun⟩ :=
      (plan.fills_compile b debugId).exists_answers (plan.nodup_cells debugId) s
    rw [hcompile] at hfilled hrun
    exact ⟨plan, answers, hrestates, hfilled, hrun⟩
  · cases heq

/-- Compiling an accepted recipe makes exactly the calls of its schedule, each in the state
that the one before left. No two calls are for the same cell of the tables, and every cell
holds the answer of its own call. -/
theorem Recipe.compile_follows_schedule {σ : Type} (b : Backend σ) (debugId : Option String)
    (r : Recipe) (family : RecipeDefaults) {s t : σ} {compiled : CompiledRecipe}
    {calls : List Call}
    (h : r.compile family b.recorded debugId (s, []) = (.ok compiled, t, calls)) :
    ∃ (plan : Blueprint) (answers : Answers Cell σ), plan.Restates r family ∧
      compiled = plan.filled b answers ∧
      b.Run s ((plan.schedule b debugId answers).steps answers) t ∧
      calls = ((plan.schedule b debugId answers).map fun e => e.2.answered (answers e.1).1) ∧
      ((plan.schedule b debugId answers).map Prod.fst).Nodup := by
  obtain ⟨plan, answers, hrestates, hperforms⟩ := Recipe.performs_of_compile h
  refine ⟨plan, answers, hrestates, hperforms.returned, hperforms.run, hperforms.called, ?_⟩
  rw [plan.schedule_map_fst b debugId answers]
  exact plan.nodup_cells debugId

def labelling : Backend (Unit × Nat) := .ofParts Echo.labels Echo.counting

def framed : Recipe where
  base := some (.reference "frame")
  regular := .ofList [("size", .ofList [("small", .rule ∅), ("large", .rule ∅)])]
  responsive := .ofList [("color", .ofList [("red", .rule ∅), ("blue", .rule ∅)])]
  inline := .ofList [("gap", { property := "gap" })]
  conditions := some (.ofList [("initial", .always),
    ("md", Condition.always.insert .media "(min-width: 40em)")])
  compounds := [⟨.ofList [("size", .text "small"), ("color", .text "red")], .rule ∅⟩]

theorem Recipe.compile_follows_schedule_framed :
    ∃ (compiled : CompiledRecipe) (t : Unit × Nat) (calls : List Call),
      framed.compile {} labelling.recorded none (((), 0), []) = (.ok compiled, t, calls) ∧
      calls.length = 11 ∧
      ∃ (plan : Blueprint) (answers : Answers Cell (Unit × Nat)), plan.Restates framed {} ∧
        compiled = plan.filled labelling answers ∧
        labelling.Run ((), 0) ((plan.schedule labelling none answers).steps answers) t ∧
        calls = ((plan.schedule labelling none answers).map
          fun e => e.2.answered (answers e.1).1) ∧
        ((plan.schedule labelling none answers).map Prod.fst).Nodup :=
  ⟨_, _, _, rfl, rfl, Recipe.compile_follows_schedule labelling none framed {} rfl⟩

end StyleVariants
