import StyleVariants.Proofs.AcceptedRecipes
import StyleVariants.Proofs.RelatedPrograms
import StyleVariants.Recipe.Compile

/-!
# Compiling in one pass

A recipe can also be compiled as it is read, each style checked right before its class is asked
for. An offence that is found on the way then comes too late: what was requested before it stays
requested. For a recipe that was accepted as a whole no such check fails, and compiling in one
pass makes the same requests with the same answers as compiling its blueprint.
-/
namespace StyleVariants

namespace Recipe
variable {σ : Type}

/-- What of a recipe needs no check: all but the rules of its options and compounds. -/
def outline (family : RecipeDefaults) (r : Recipe) : Blueprint where
  initial := settleInitial r.initial family.initial
  conditions := r.conditions.getD family.conditions
  base := .ofStyle r.base
  regular := r.regular.map fun _ _ => ∅
  responsive := ∅
  inline := r.inline
  compounds := []
  defaults := r.defaults

def regularInOnePass (family : RecipeDefaults) (r : Recipe) (b : Backend σ)
    (debugId : Option String) : ExceptT RecipeError (StateM σ) ClassTable :=
  r.regular.mapM fun axis options => options.mapM fun option style => do
    let rule ← style.ruleAt ("variants." ++ axis ++ "." ++ option)
    let className ← b.className rule (qualifiedLabel debugId (axis ++ "_" ++ option))
    return .singleton (r.outline family).initial className

abbrev StyledTable := Axes (Style × OrderedMap String String)

def extendInOnePass (family : RecipeDefaults) (r : Recipe) (b : Backend σ)
    (debugId : Option String) (table : StyledTable) (e : String × Condition) :
    ExceptT RecipeError (StateM σ) StyledTable :=
  table.mapM fun axis options => options.mapM fun option cell => do
    let rule ← cell.1.ruleAt ("responsiveVariants." ++ axis ++ "." ++ option)
    let className ← b.className ((r.outline family).ruleUnder e.1 e.2 rule)
      (qualifiedLabel debugId (e.1 ++ "_" ++ axis ++ "_" ++ option))
    return (cell.1, cell.2.insert e.1 className)

def responsiveInOnePass (family : RecipeDefaults) (r : Recipe) (b : Backend σ)
    (debugId : Option String) : ExceptT RecipeError (StateM σ) ClassTable := do
  let start : StyledTable := r.responsive.map fun _ options =>
    options.map fun _ style => (style, ∅)
  let table ← (r.outline family).conditions.entries.foldlM
    (r.extendInOnePass family b debugId) start
  return table.map fun _ options => options.map fun _ cell => cell.2

def compoundInOnePass (family : RecipeDefaults) (r : Recipe) (b : Backend σ)
    (debugId : Option String) (e : Compound × Nat) :
    ExceptT RecipeError (StateM σ) CompiledCompound := do
  let rule ← e.1.style.ruleAt ("compoundVariants[" ++ toString e.2 ++ "].style")
  (r.outline family).compileCompound b debugId ⟨e.1.required, rule⟩

/-- Compiles a recipe as it is read, every style checked right before it is named. What was
requested before an offence stays requested. -/
def compileInOnePass (r : Recipe) (family : RecipeDefaults) (b : Backend σ)
    (debugId : Option String) : ExceptT RecipeError (StateM σ) CompiledRecipe := do
  let base ← (r.outline family).compileBase b debugId
  let regular ← r.regularInOnePass family b debugId
  let responsive ← r.responsiveInOnePass family b debugId
  let inline ← (r.outline family).compileInline b debugId
  let compounds ← r.compounds.zipIdx.mapM (r.compoundInOnePass family b debugId)
  return {
    initial := (r.outline family).initial
    conditions := (r.outline family).conditions
    defaults := r.defaults
    base, regular, responsive, inline, compounds }

end Recipe

section Passing
variable {σ : Type}

/-- A program with checks runs through without an offence. It leaves the state that a program
without checks leaves, and what the two return is related. -/
def passing (σ : Type) : Simulation (ExceptT RecipeError (StateM σ)) (StateM σ) where
  Relates R checked program := ∀ s, ∃ a, checked.run s = (.ok a, (program s).2) ∧ R a (program s).1
  pure h := fun _ => ⟨_, rfl, h⟩
  bind := by
    intro α β γ δ R S checked program next next' h hnext s
    obtain ⟨a, hchecked, hab⟩ := h s
    obtain ⟨c, hlater, hcd⟩ := hnext a (program s).1 hab (program s).2
    refine ⟨c, ?_, hcd⟩
    have hrun : (checked >>= next).run s =
        ExceptT.bindCont next (checked.run s).1 (checked.run s).2 := rfl
    rw [hrun, hchecked]
    exact hlater

theorem passing_lift {α : Type} (program : StateM σ α) :
    (passing σ).Relates (· = ·) (liftM program) program :=
  fun _ => ⟨_, rfl, rfl⟩

theorem passing_check {γ δ : Type} {S : γ → δ → Prop} {style : Style} {location : String}
    {rule : StyleRule} (hstyle : style = .rule rule)
    {next : StyleRule → ExceptT RecipeError (StateM σ) γ} {program : StateM σ δ}
    (h : (passing σ).Relates S (next rule) program) :
    (passing σ).Relates S (liftM (style.ruleAt location) >>= next) program := by
  subst hstyle
  exact h

end Passing

namespace Blueprint.Restates
variable {σ : Type} {plan : Blueprint} {r : Recipe} {family : RecipeDefaults}

def IsRule (style : Style) (rule : StyleRule) : Prop := style = .rule rule

def SameCell (cell : Style × OrderedMap String String)
    (other : StyleRule × OrderedMap String String) : Prop :=
  IsRule cell.1 other.1 ∧ cell.2 = other.2

theorem related_ruleStyles (axes : Axes StyleRule) :
    (ruleStyles axes).Related (OrderedMap.Related IsRule) axes := by
  apply OrderedMap.related_map
  intro axis options
  apply OrderedMap.related_map
  exact fun _ _ => rfl

theorem regularInOnePass (h : plan.Restates r family) (b : Backend σ) (debugId : Option String) :
    (passing σ).Relates (· = ·) (r.regularInOnePass family b debugId)
      (plan.compileRegular b debugId) := by
  have hrelated : r.regular.Related (OrderedMap.Related IsRule) plan.regular :=
    h.regular ▸ related_ruleStyles plan.regular
  refine (passing σ).mapM_map_eq hrelated fun axis options rules hoptions => ?_
  refine (passing σ).mapM_map_eq hoptions fun option style rule hstyle => ?_
  apply passing_check hstyle
  apply (passing σ).bind (passing_lift _)
  rintro className _ rfl
  exact (passing σ).pure (by rw [h.initial]; rfl)

theorem ruleUnder_outline (h : plan.Restates r family) (name : String) (condition : Condition)
    (rule : StyleRule) :
    (r.outline family).ruleUnder name condition rule = plan.ruleUnder name condition rule := by
  rw [ruleUnder, ruleUnder, isWrapped, isWrapped, h.initial]
  rfl

theorem extendInOnePass (h : plan.Restates r family) (b : Backend σ) (debugId : Option String)
    {table : Recipe.StyledTable} {other : PartialTable} (e : String × Condition)
    (htable : table.Related (OrderedMap.Related SameCell) other) :
    (passing σ).Relates (OrderedMap.Related (OrderedMap.Related SameCell))
      (r.extendInOnePass family b debugId table e)
      (plan.extendResponsive b debugId e.1 e.2 other) := by
  refine (passing σ).mapM_map htable fun axis options rules hoptions => ?_
  refine (passing σ).mapM_map hoptions fun option cell cell' hcell => ?_
  apply passing_check hcell.1
  rw [h.ruleUnder_outline]
  apply (passing σ).bind (passing_lift _)
  rintro className _ rfl
  exact (passing σ).pure ⟨hcell.1, by rw [hcell.2]⟩

theorem responsiveInOnePass (h : plan.Restates r family) (b : Backend σ)
    (debugId : Option String) :
    (passing σ).Relates (· = ·) (r.responsiveInOnePass family b debugId)
      (plan.compileResponsive b debugId) := by
  have hrelated : r.responsive.Related (OrderedMap.Related IsRule) plan.responsive :=
    h.responsive ▸ related_ruleStyles plan.responsive
  have hstart : (r.responsive.map fun _ options =>
        options.map fun _ style => (style, (∅ : OrderedMap String String))).Related
      (OrderedMap.Related SameCell)
      (plan.responsive.map fun _ options => options.map fun _ rule => (rule, ∅)) :=
    hrelated.map fun _ _ hoptions => hoptions.map fun _ _ hstyle => ⟨hstyle, rfl⟩
  have hconditions : (r.outline family).conditions = plan.conditions := h.conditions.symm
  unfold Recipe.responsiveInOnePass compileResponsive
  rw [hconditions]
  apply (passing σ).bind ((passing σ).foldlM
    (fun _ _ e htable => h.extendInOnePass b debugId e htable) plan.conditions.entries hstart)
  intro table other htable
  apply (passing σ).pure
  exact (htable.map fun _ _ hoptions => (hoptions.map fun _ _ hcell => hcell.2).eq).eq

theorem compileInline_outline (h : plan.Restates r family) (b : Backend σ)
    (debugId : Option String) :
    (r.outline family).compileInline b debugId = plan.compileInline b debugId := by
  have hconditions : (r.outline family).conditions = plan.conditions := h.conditions.symm
  have hinitial : (r.outline family).initial = plan.initial := h.initial.symm
  have hinline : (r.outline family).inline = plan.inline := h.inline
  unfold compileInline inlineConditions extendInline InlineState.extend isWrapped
  rw [hconditions, hinitial, hinline]

theorem compileCompound_outline (h : plan.Restates r family) (b : Backend σ)
    (debugId : Option String) (compound : CompoundRule) :
    (r.outline family).compileCompound b debugId compound =
      plan.compileCompound b debugId compound := by
  have hconditions : (r.outline family).conditions = plan.conditions := h.conditions.symm
  have hinitial : (r.outline family).initial = plan.initial := h.initial.symm
  have hregular : (r.outline family).onlyRegular compound = plan.onlyRegular compound := by
    have hcontains : (r.outline family).regular.contains = plan.regular.contains := by
      funext axis
      rw [OrderedMap.contains, OrderedMap.contains, Recipe.outline, h.regular, ruleStyles,
        OrderedMap.map_map, OrderedMap.get?_map, Option.isSome_map]
    rw [onlyRegular, onlyRegular, hcontains]
  unfold compileCompound
  simp only [hregular, hinitial, hconditions, h.ruleUnder_outline]

theorem compoundInOnePass (h : plan.Restates r family) (b : Backend σ) (debugId : Option String)
    {e : Compound × Nat} {compound : CompoundRule}
    (he : e.1 = ⟨compound.required, .rule compound.rule⟩) :
    (passing σ).Relates (· = ·) (r.compoundInOnePass family b debugId e)
      (plan.compileCompound b debugId compound) := by
  have hstyle : e.1.style = .rule compound.rule := by rw [he]
  have hrequired : e.1.required = compound.required := by rw [he]
  apply passing_check hstyle
  rw [hrequired, h.compileCompound_outline]
  exact passing_lift _

/-- No check fails on the way, and the outcome is that of the blueprint. -/
theorem compileInOnePass (h : plan.Restates r family) (b : Backend σ) (debugId : Option String) :
    (passing σ).Relates (· = ·) (r.compileInOnePass family b debugId) (plan.compile b debugId) := by
  have hcompounds : List.Forall₂
      (fun (e : Compound × Nat) c => e.1 = ⟨c.required, .rule c.rule⟩)
      r.compounds.zipIdx plan.compounds := by
    have hmap := (List.zipIdx_map_fst 0 r.compounds).trans h.compounds
    rwa [← List.forall₂_eq_eq_eq, List.forall₂_map_left_iff, List.forall₂_map_right_iff] at hmap
  have hbase : (r.outline family).compileBase b debugId = plan.compileBase b debugId := by
    rw [compileBase, compileBase, h.base]
    rfl
  unfold Recipe.compileInOnePass compile
  rw [hbase, h.compileInline_outline]
  apply (passing σ).bind (passing_lift _)
  rintro base _ rfl
  apply (passing σ).bind (h.regularInOnePass b debugId)
  rintro regular _ rfl
  apply (passing σ).bind (h.responsiveInOnePass b debugId)
  rintro responsive _ rfl
  apply (passing σ).bind (passing_lift _)
  rintro inline _ rfl
  apply (passing σ).bind ((passing σ).mapM hcompounds
    fun _ _ he => h.compoundInOnePass b debugId he)
  intro compounds others hcompounds
  obtain rfl : compounds = others := by simpa using hcompounds
  apply (passing σ).pure
  rw [h.initial, h.conditions, ← h.defaults]
  rfl

end Blueprint.Restates
end StyleVariants
