import StyleVariants.Proofs.ClassSources
import StyleVariants.Proofs.RefusedRecipes
import StyleVariants.Proofs.RegisteredClasses

/-!
# Compiling apart from names

A recipe is compiled twice, with different debug ids and with namers that know nothing of each
other, beginning with the same state of the allocator. The two programs run side by side: at every
call the same rule is named or the same property is allocated, and only names come out different.
So the compiled recipes are the same but for the names in their places, and a selection reads the
same places of both.
-/
namespace StyleVariants
open CompiledRecipe

/-- Two backends answer alike but for names, whatever labels they are given. -/
structure Backend.Alike {ρ ρ' : Type} (sim : Simulation (StateM ρ) (StateM ρ')) (b : Backend ρ)
    (other : Backend ρ') : Prop where
  className (rule : StyleRule) (label label' : Option String) :
    sim.Relates EquallyNamed (b.className rule label) (other.className rule label')
  customProperty (hint : String) :
    sim.Relates (· = ·) (b.customProperty hint) (other.customProperty hint)
  target : sim.Relates (fun s s' => ∀ reference, b.target reference s = other.target reference s')
    get get

namespace Backend.Alike
variable {ρ ρ' : Type} {sim : Simulation (StateM ρ) (StateM ρ')} {b : Backend ρ}
  {other : Backend ρ'}

theorem compileBase (h : b.Alike sim other) (plan : Blueprint)
    (debugId debugId' : Option String) :
    sim.Relates EquallyNamed (plan.compileBase b debugId) (plan.compileBase other debugId') := by
  unfold Blueprint.compileBase
  cases plan.base with
  | references classNames => exact sim.pure Iff.rfl
  | rule rule => exact h.className rule debugId debugId'

theorem compileRegular (h : b.Alike sim other) (plan : Blueprint)
    (debugId debugId' : Option String) :
    sim.Relates (OrderedMap.Related (OrderedMap.Related (OrderedMap.Related EquallyNamed)))
      (plan.compileRegular b debugId) (plan.compileRegular other debugId') := by
  refine sim.mapM_map (OrderedMap.related_same (fun _ => rfl) plan.regular) ?_
  rintro axis options _ rfl
  refine sim.mapM_map (OrderedMap.related_same (fun _ => rfl) options) ?_
  rintro option rule _ rfl
  refine sim.bind (h.className rule _ _) fun className className' hnames => ?_
  exact sim.pure (.cons ⟨rfl, hnames⟩ .nil)

def AlikeCells (cell other : StyleRule × OrderedMap String String) : Prop :=
  cell.1 = other.1 ∧ cell.2.Related EquallyNamed other.2

theorem extendResponsive (h : b.Alike sim other) (plan : Blueprint)
    (debugId debugId' : Option String) (e : String × Condition)
    {table table' : Blueprint.PartialTable}
    (htable : table.Related (OrderedMap.Related AlikeCells) table') :
    sim.Relates (OrderedMap.Related (OrderedMap.Related AlikeCells))
      (plan.extendResponsive b debugId e.1 e.2 table)
      (plan.extendResponsive other debugId' e.1 e.2 table') := by
  refine sim.mapM_map htable fun axis options options' hoptions => ?_
  refine sim.mapM_map hoptions ?_
  rintro option ⟨rule, classNames⟩ ⟨_, classNames'⟩ ⟨rfl, hclasses⟩
  refine sim.bind (h.className _ _ _) fun className className' hnames => ?_
  exact sim.pure ⟨rfl, hclasses.insert e.1 hnames⟩

theorem compileResponsive (h : b.Alike sim other) (plan : Blueprint)
    (debugId debugId' : Option String) :
    sim.Relates (OrderedMap.Related (OrderedMap.Related (OrderedMap.Related EquallyNamed)))
      (plan.compileResponsive b debugId) (plan.compileResponsive other debugId') := by
  let start : Blueprint.PartialTable := plan.responsive.map fun _ options =>
    options.map fun _ rule => (rule, ∅)
  have hcell : ∀ cell, AlikeCells cell cell := fun cell =>
    ⟨rfl, OrderedMap.related_same (P := EquallyNamed) (fun _ => Iff.rfl) cell.2⟩
  have hstart : start.Related (OrderedMap.Related AlikeCells) start :=
    OrderedMap.related_same (OrderedMap.related_same hcell) start
  have hloop := sim.foldlM (fun _ _ e htable =>
    h.extendResponsive plan debugId debugId' e htable) plan.conditions.entries hstart
  refine sim.bind hloop fun table table' htable => sim.pure ?_
  exact htable.map fun _ _ hoptions => hoptions.map fun _ _ hcell => hcell.2

/-- The rule of an inline axis is the same, because it reads the same properties. -/
theorem compileInline (h : b.Alike sim other) (plan : Blueprint)
    (debugId debugId' : Option String) :
    sim.Relates (OrderedMap.Related AlikeInline) (plan.compileInline b debugId)
      (plan.compileInline other debugId') := by
  refine sim.mapM_map (OrderedMap.related_same (fun _ => rfl) plan.inline) ?_
  rintro axisName axis _ rfl
  have hcondition : ∀ (state state' : Blueprint.InlineState) (e : String × Condition),
      state = state' → sim.Relates (· = ·) (plan.extendInline b axisName axis e.1 e.2 state)
        (plan.extendInline other axisName axis e.1 e.2 state') := by
    rintro state _ e rfl
    refine sim.bind (h.customProperty _) ?_
    rintro reference _ rfl
    refine sim.bind h.target fun s s' htarget => sim.pure ?_
    rw [htarget]
  refine sim.bind (sim.foldlM hcondition (plan.inlineConditions axis) rfl) ?_
  rintro state _ rfl
  refine sim.bind (h.className _ _ _) fun className className' hnames => ?_
  exact sim.pure ⟨hnames, rfl⟩

theorem compileCompound (h : b.Alike sim other) (plan : Blueprint)
    (debugId debugId' : Option String) (compound : CompoundRule) :
    sim.Relates AlikeCompounds (plan.compileCompound b debugId compound)
      (plan.compileCompound other debugId' compound) := by
  unfold Blueprint.compileCompound
  split
  · refine sim.bind (h.className _ _ _) fun className className' hnames => ?_
    exact sim.pure ⟨rfl, .cons ⟨rfl, hnames⟩ .nil⟩
  · have hloop : ∀ label label' : String → Option String,
        sim.Relates (OrderedMap.Related EquallyNamed)
          (plan.conditions.mapM fun name condition =>
            b.className (plan.ruleUnder name condition compound.rule) (label name))
          (plan.conditions.mapM fun name condition =>
            other.className (plan.ruleUnder name condition compound.rule) (label' name)) := by
      intro label label'
      refine sim.mapM_map (OrderedMap.related_same (fun _ => rfl) plan.conditions) ?_
      rintro name condition _ rfl
      exact h.className _ _ _
    exact sim.bind (hloop _ _) fun _ _ hnames => sim.pure ⟨rfl, hnames⟩

/-- Compiling with backends that answer alike gives compiled recipes that are the same but for
names. -/
theorem compile (h : b.Alike sim other) (plan : Blueprint) (debugId debugId' : Option String) :
    sim.Relates SameButNames (plan.compile b debugId) (plan.compile other debugId') := by
  have hcompounds : sim.Relates (List.Forall₂ AlikeCompounds)
      (plan.compounds.mapM (plan.compileCompound b debugId))
      (plan.compounds.mapM (plan.compileCompound other debugId')) := by
    refine sim.mapM (R := (· = ·)) (List.forall₂_refl _) ?_
    rintro compound _ rfl
    exact h.compileCompound plan debugId debugId' compound
  refine sim.bind (h.compileBase plan debugId debugId') fun base base' hbase => ?_
  refine sim.bind (h.compileRegular plan debugId debugId') fun regular regular' hregular => ?_
  refine sim.bind (h.compileResponsive plan debugId debugId')
    fun responsive responsive' hresponsive => ?_
  refine sim.bind (h.compileInline plan debugId debugId') fun inline inline' hinline => ?_
  refine sim.bind hcompounds fun compounds compounds' hcompounds => ?_
  exact sim.pure {
    initial := rfl
    conditions := rfl
    defaults := rfl
    base := hbase
    regular := hregular
    responsive := hresponsive
    inline := hinline
    compounds := hcompounds }

end Backend.Alike

def Call.unnamed : Call → Call
  | .className rule _ _ => .className rule none ""
  | .customProperty hint answer => .customProperty hint answer

def ClassNamer.NeverEmpty {σ : Type} (namer : ClassNamer σ) : Prop :=
  ∀ rule label s, (namer rule label s).1 ≠ ""

section SideBySide
variable {σ σ' τ : Type}

/-- The allocators are in the same state, and the calls so far are the same apart from names. -/
structure SideBySide (s : (σ × τ) × List Call) (s' : (σ' × τ) × List Call) : Prop where
  allocator : s.1.2 = s'.1.2
  calls : s.2.map Call.unnamed = s'.2.map Call.unnamed

/-- Begun side by side, two programs end side by side, and what they return is related. -/
def sideBySide (σ σ' τ : Type) :
    Simulation (StateM ((σ × τ) × List Call)) (StateM ((σ' × τ) × List Call)) where
  Relates R program other := ∀ s s', SideBySide s s' →
    R (program s).1 (other s').1 ∧ SideBySide (program s).2 (other s').2
  pure h := fun _ _ hs => ⟨h, hs⟩
  bind h hnext := fun s s' hs => hnext _ _ (h s s' hs).1 _ _ (h s s' hs).2

variable {namer : ClassNamer σ} {other : ClassNamer σ'}

/-- Namers that never answer the empty text cannot be told apart but by their names. -/
theorem ClassNamer.NeverEmpty.alike (hnamer : namer.NeverEmpty) (hother : other.NeverEmpty)
    (allocator : PropertyAllocator τ) :
    (Backend.ofParts namer allocator).recorded.Alike (sideBySide σ σ' τ)
      (Backend.ofParts other allocator).recorded where
  className := by
    intro rule label label' s s' hs
    refine ⟨iff_of_false (hnamer rule label _) (hother rule label' _), hs.allocator, ?_⟩
    change (s.2 ++ [Call.className rule label _]).map Call.unnamed =
      (s'.2 ++ [Call.className rule label' _]).map Call.unnamed
    rw [List.map_append, List.map_append, hs.calls]
    rfl
  customProperty := by
    intro hint s s' hs
    have hanswer : allocator.customProperty hint s.1.2 =
        allocator.customProperty hint s'.1.2 := by
      rw [hs.allocator]
    refine ⟨congrArg Prod.fst hanswer, congrArg Prod.snd hanswer, ?_⟩
    change (s.2 ++ [Call.customProperty hint (allocator.customProperty hint s.1.2).1]).map
        Call.unnamed =
      (s'.2 ++ [Call.customProperty hint (allocator.customProperty hint s'.1.2).1]).map
        Call.unnamed
    rw [List.map_append, List.map_append, hs.calls, hanswer]
  target := fun _ _ hs => ⟨fun reference => congrArg (allocator.target reference) hs.allocator, hs⟩

end SideBySide

namespace ClassName
variable {digest : String → String}

theorem shorten_ne_empty {name : String} (h : name ≠ "") (separator : String) :
    shorten digest name separator ≠ "" := by
  unfold shorten
  split
  · exact h
  · intro hempty
    simp [h] at hempty

theorem generate_ne_empty (mode : NamingMode) (scope : String) (label : Option String)
    (rule : StyleRule) : generate digest mode scope label rule ≠ "" := by
  cases mode with
  | hash => simp [generate, hashed]
  | readable => exact shorten_ne_empty (by simp) _
  | camelCase =>
      simp only [generate, camelCase]
      split
      · decide
      · next hname => exact shorten_ne_empty hname ""

end ClassName

theorem ClassRegistry.className_neverEmpty (digest : String → String) :
    ClassNamer.NeverEmpty (ClassRegistry.className digest) := by
  intro rule label registry
  let base := ClassName.generate digest registry.options.mode registry.options.scope label rule
  have hbase : base ≠ "" := ClassName.generate_ne_empty _ _ _ _
  obtain ⟨name, hfound⟩ := registry.exists_found rule base
  have hname : name ≠ "" := by
    rcases List.mem_cons.1 (List.mem_of_find?_eq_some hfound) with rfl | hnumbered
    · exact hbase
    · obtain ⟨i, -, rfl⟩ := List.mem_map.1 hnumbered
      simp
  have hanswer : (ClassRegistry.className digest rule label registry).1 = name := by
    simp only [ClassRegistry.className]
    rw [hfound, Option.getD_some]
    split <;> rfl
  rw [hanswer]
  exact hname

/-- The debug id and the namer of classes have a say in names only. If a recipe is accepted, then
with any other debug id and any other namer, and with the allocator in the same state, it is
accepted too; the same rules are named in the same order, and between them the same properties are
allocated. The compiled recipes are the same but for names. Every selection sets the same custom
properties of both, and joins classes from the same places of both in the same order. -/
theorem Recipe.debugId_changes_names_only {σ σ' τ : Type} {namer : ClassNamer σ}
    {other : ClassNamer σ'} (hnamer : namer.NeverEmpty) (hother : other.NeverEmpty)
    (allocator : PropertyAllocator τ) (debugId debugId' : Option String) (r : Recipe)
    (family : RecipeDefaults) {s t : σ} (s' : σ') {p q : τ} {first : CompiledRecipe}
    {calls : List Call}
    (h : r.compile family (Backend.ofParts namer allocator).recorded debugId ((s, p), []) =
      (.ok first, (t, q), calls)) :
    ∃ (second : CompiledRecipe) (t' : σ') (calls' : List Call),
      r.compile family (Backend.ofParts other allocator).recorded debugId' ((s', p), []) =
        (.ok second, (t', q), calls') ∧
      calls.map Call.unnamed = calls'.map Call.unnamed ∧ first.SameButNames second ∧
      ∀ selection, (first.resolve selection).style = (second.resolve selection).style ∧
        (first.sources selection).map Prod.fst = (second.sources selection).map Prod.fst ∧
        ∀ built ∈ [first, second],
          (built.resolve selection).className =
            " ".intercalate ((built.sources selection).map Prod.snd) ∧
          ∀ e ∈ built.sources selection, built.classAt? e.1 = some e.2 := by
  cases hplan : r.blueprint family with
  | error error =>
      rw [Recipe.compile_of_blueprint_eq_error hplan] at h
      cases h
  | ok plan =>
      rw [Recipe.compile_of_blueprint_eq_ok hplan] at h
      -- the two compilations go side by side, from one state of the allocator
      have hboth := (hnamer.alike hother allocator).compile plan debugId debugId' ((s, p), [])
        ((s', p), []) ⟨rfl, rfl⟩
      rcases hfirst : plan.compile (Backend.ofParts namer allocator).recorded debugId
        ((s, p), []) with ⟨compiled, ⟨u, v⟩, recorded⟩
      rcases hsecond : plan.compile (Backend.ofParts other allocator).recorded debugId'
        ((s', p), []) with ⟨second, ⟨t', q'⟩, calls'⟩
      rw [hfirst] at h
      cases h
      rw [hfirst, hsecond] at hboth
      obtain ⟨hsame, hallocator, hcalls⟩ := hboth
      obtain rfl : q = q' := hallocator
      refine ⟨second, t', calls', ?_, hcalls, hsame, fun selection => ?_⟩
      · rw [Recipe.compile_of_blueprint_eq_ok hplan, hsecond]
      · exact ⟨hsame.style_eq selection, (hsame.sources_related selection).keys_eq,
          fun built _ => ⟨built.resolve_className_sources selection,
            fun _ => classAt?_of_mem_sources⟩⟩

def Echo.constant : ClassNamer Unit := fun _ _ => pure "class"

def tinted : Recipe where
  responsive := .ofList [("color", .ofList [("red", .rule ∅)])]
  inline := .ofList [("gap", { property := "gap" })]
  conditions := some (.ofList [("initial", .always)])

/-- Readable names with a debug id, beside a namer that does not look at labels. -/
theorem Recipe.debugId_changes_names_only_tinted :
    ∃ (first : CompiledRecipe) (t : ClassRegistry) (q : Nat) (calls : List Call),
      tinted.compile {} (Backend.ofParts (ClassRegistry.className blind) Echo.counting).recorded
        (some "box") (({ options := { mode := .readable } }, 0), []) =
        (.ok first, (t, q), calls) ∧
      first.inline.entries.map (·.2.className) = ["recipes__box_inline_gap"] ∧
      ∃ (second : CompiledRecipe) (t' : Unit) (calls' : List Call),
        tinted.compile {} (Backend.ofParts Echo.constant Echo.counting).recorded none
          (((), 0), []) = (.ok second, (t', q), calls') ∧
        calls.map Call.unnamed = calls'.map Call.unnamed ∧ first.SameButNames second ∧
        ∀ selection, (first.resolve selection).style = (second.resolve selection).style ∧
          (first.sources selection).map Prod.fst = (second.sources selection).map Prod.fst ∧
          ∀ built ∈ [first, second],
            (built.resolve selection).className =
              " ".intercalate ((built.sources selection).map Prod.snd) ∧
            ∀ e ∈ built.sources selection, built.classAt? e.1 = some e.2 := by
  have hclasses : (tinted.compile {} (Backend.ofParts (ClassRegistry.className blind)
      Echo.counting).recorded (some "box") (({ options := { mode := .readable } }, 0),
        [])).1.toOption.map (·.inline.entries.map (·.2.className)) =
      some ["recipes__box_inline_gap"] := by decide +kernel
  rcases hcompile : tinted.compile {} (Backend.ofParts (ClassRegistry.className blind)
    Echo.counting).recorded (some "box") (({ options := { mode := .readable } }, 0), [])
    with ⟨outcome, ⟨t, q⟩, calls⟩
  rw [hcompile] at hclasses
  cases outcome with
  | error error => cases hclasses
  | ok first =>
      have hconstant : Echo.constant.NeverEmpty := fun _ _ _ => (by decide : "class" ≠ "")
      exact ⟨first, t, q, calls, rfl, Option.some.inj hclasses,
        Recipe.debugId_changes_names_only (ClassRegistry.className_neverEmpty blind) hconstant
          Echo.counting (some "box") none tinted {} () hcompile⟩

end StyleVariants
