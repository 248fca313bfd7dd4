import StyleVariants.Proofs.InlineForwardFill

/-!
# The initial value of an inline axis

At its top level the rule of an inline axis declares the property as a reference to the
custom property of the initial condition, which a single value sets. Later conditions may
take this declaration away: one without a predicate puts a bare reference to its own
property there, which nothing sets, and one whose block has the name of the property puts a
block there. Any other condition stands in a block of its own and leaves the declaration
alone. So a single value is read at the top level exactly if no later condition takes the
declaration away.
-/
namespace StyleVariants

/-- A rule under the condition stands in a block, and not in one that has the name of the
property. -/
def Condition.Spares (condition : Condition) (property : String) : Prop :=
  ∃ block ∈ condition.path.head?, block.1 ≠ property

theorem Reference.Value.ofText?_ofName {name : String} (h : Plain name) :
    ofText? (ofName name) = some (.var name) := by
  rw [ofText?, toList_ofName, readValue_var h]

namespace StyleRule

theorem exists_addAt_cons (rule inner : StyleRule) (first : String × String)
    (rest : List (String × String)) :
    ∃ blocks, rule.addAt inner (first :: rest) = rule.setBlock first.1 blocks := by
  cases rest with
  | nil => exact ⟨_, rfl⟩
  | cons next rest => exact ⟨_, rfl⟩

theorem get?_addUnder_of_spares {condition : Condition} {property : String}
    (h : condition.Spares property) (rule inner : StyleRule) :
    (rule.addUnder condition inner).get? property = rule.get? property := by
  obtain ⟨first, hfirst, hne⟩ := h
  obtain ⟨rest, hpath⟩ := List.head?_eq_some_iff.1 hfirst
  obtain ⟨blocks, hblocks⟩ := rule.exists_addAt_cons inner first rest
  rw [addUnder, hpath, hblocks, setBlock, get?_set_of_ne (Ne.symm hne)]

theorem get?_addUnder_of_not_spares {condition : Condition} {property : String}
    (hpath : condition.path ≠ []) (h : ¬ condition.Spares property) (rule inner : StyleRule) :
    ∃ blocks, (rule.addUnder condition inner).get? property = some (.block blocks) := by
  obtain ⟨first, rest, hcons⟩ := List.exists_cons_of_ne_nil hpath
  have hname : first.1 = property := by
    by_contra hne
    exact h ⟨first, by simp [hcons], hne⟩
  obtain ⟨blocks, hblocks⟩ := rule.exists_addAt_cons inner first rest
  refine ⟨blocks, ?_⟩
  rw [addUnder, hcons, hblocks, setBlock, hname, get?_set_self]

end StyleRule

namespace Blueprint
variable {σ : Type} {b : Backend σ} {plan : Blueprint} {answers : Answers Cell σ}
  {axisName : String} {axis : InlineAxis}

/-- The top level declares the property as a block, or as the reference of one of these
conditions. -/
def TakenBy (answers : Answers Cell σ) (axisName : String)
    (conditions : List (String × Condition)) (declared : Option StyleValue) : Prop :=
  (∃ blocks, declared = some (.block blocks)) ∨
    ∃ e ∈ conditions, declared = some (.text (answers (.property axisName e.1)).1)

theorem get?_inlineStep_of_spares {e : String × Condition} (hn : e.1 ≠ plan.initial)
    (h : e.2.Spares axis.property) (state : InlineState) :
    (plan.inlineStep b answers axisName axis state e).rule.get? axis.property =
      state.rule.get? axis.property := by
  have hpath : e.2.path ≠ [] := by
    obtain ⟨first, hfirst, -⟩ := h
    exact fun hnil => by simp [hnil] at hfirst
  have hwrapped : plan.isWrapped e.1 e.2 = true := by
    simpa [isWrapped, hn, Bool.eq_false_iff, Condition.isAlways_iff] using hpath
  simp only [inlineStep, InlineState.extend, hwrapped, if_true]
  exact StyleRule.get?_addUnder_of_spares h _ _

theorem takenBy_inlineStep {e : String × Condition} (hn : e.1 ≠ plan.initial)
    (h : ¬ e.2.Spares axis.property) (state : InlineState) :
    TakenBy answers axisName [e]
      ((plan.inlineStep b answers axisName axis state e).rule.get? axis.property) := by
  by_cases hpath : e.2.path = []
  · have hbare : plan.isWrapped e.1 e.2 = false := by
      simp [isWrapped, Condition.isAlways_iff.2 hpath]
    right
    refine ⟨e, List.mem_singleton_self e, ?_⟩
    simp [inlineStep, InlineState.extend, hbare]
  · have hwrapped : plan.isWrapped e.1 e.2 = true := by
      simpa [isWrapped, hn, Bool.eq_false_iff, Condition.isAlways_iff] using hpath
    left
    simp only [inlineStep, InlineState.extend, hwrapped, if_true]
    exact StyleRule.get?_addUnder_of_not_spares hpath h _ _

theorem get?_foldl_of_spares {rest : List (String × Condition)}
    (hn : ∀ e ∈ rest, e.1 ≠ plan.initial) (h : ∀ e ∈ rest, e.2.Spares axis.property)
    (state : InlineState) :
    (rest.foldl (plan.inlineStep b answers axisName axis) state).rule.get? axis.property =
      state.rule.get? axis.property := by
  induction rest generalizing state with
  | nil => rfl
  | cons e rest ih =>
      rw [List.foldl_cons, ih (fun f hf => hn f (by simp [hf])) fun f hf => h f (by simp [hf]),
        get?_inlineStep_of_spares (hn e (by simp)) (h e (by simp))]

theorem takenBy_foldl {rest : List (String × Condition)}
    (hn : ∀ e ∈ rest, e.1 ≠ plan.initial) (h : ¬ ∀ e ∈ rest, e.2.Spares axis.property)
    (state : InlineState) :
    TakenBy answers axisName rest
      ((rest.foldl (plan.inlineStep b answers axisName axis) state).rule.get?
        axis.property) := by
  induction rest generalizing state with
  | nil => simp at h
  | cons e rest ih =>
      have hrest : ∀ f ∈ rest, f.1 ≠ plan.initial := fun f hf => hn f (by simp [hf])
      rw [List.foldl_cons]
      by_cases hlater : ∀ f ∈ rest, f.2.Spares axis.property
      · have he : ¬ e.2.Spares axis.property := fun he =>
          h (List.forall_mem_cons.2 ⟨he, hlater⟩)
        rw [get?_foldl_of_spares hrest hlater]
        refine (takenBy_inlineStep (hn e (by simp)) he state).imp_right ?_
        rintro ⟨f, hf, hdeclared⟩
        obtain rfl := List.mem_singleton.1 hf
        exact ⟨f, by simp, hdeclared⟩
      · refine (ih hrest hlater _).imp_right ?_
        rintro ⟨f, hf, hdeclared⟩
        exact ⟨f, by simp [hf], hdeclared⟩

/-- The scope of an axis starts with the initial condition if the declared conditions do. The
others are in it if the axis is responsive. -/
theorem exists_inlineScope (hfirst : plan.conditions.keys.head? = some plan.initial)
    (axis : InlineAxis) :
    ∃ first later, (plan.inlineScope axis).entries = first :: later ∧
      first.1 = plan.initial ∧ (∀ e ∈ later, e.1 ≠ plan.initial) ∧
      later = if axis.responsive = true then plan.conditions.entries.tail else [] := by
  have hnodup := plan.conditions.nodup_keys
  cases hentries : plan.conditions.entries with
  | nil => simp [OrderedMap.keys, hentries] at hfirst
  | cons first tail =>
      have hinitial : first.1 = plan.initial := by
        simpa [OrderedMap.keys, hentries] using hfirst
      have htail : ∀ e ∈ tail, e.1 ≠ plan.initial := by
        rw [hentries, List.map_cons, List.nodup_cons, hinitial] at hnodup
        exact fun e he heq => hnodup.1 (heq ▸ List.mem_map_of_mem he)
      by_cases hresponsive : axis.responsive = true
      · exact ⟨first, tail, by simp [inlineScope, hentries, hresponsive], hinitial, htail,
          by simp [hresponsive]⟩
      · exact ⟨first, [], by simpa [inlineScope, hentries, hresponsive, hinitial] using htail,
          hinitial, by simp, by simp [hresponsive]⟩

/-- What the rule of an axis declares at its top level: the reference of the initial condition
if all later conditions spare the property, otherwise something else. -/
theorem get?_inlineState (b : Backend σ) (answers : Answers Cell σ) (axisName : String)
    {first : String × Condition} {later : List (String × Condition)}
    (hscope : (plan.inlineScope axis).entries = first :: later)
    (hfirst : first.1 = plan.initial) (hlater : ∀ e ∈ later, e.1 ≠ plan.initial) :
    ((∀ e ∈ later, e.2.Spares axis.property) →
      (plan.inlineState b answers axisName axis).rule.get? axis.property =
        some (.text (answers (.property axisName first.1)).1)) ∧
    ((¬ ∀ e ∈ later, e.2.Spares axis.property) →
      TakenBy answers axisName later
        ((plan.inlineState b answers axisName axis).rule.get? axis.property)) := by
  let start := plan.inlineStep b answers axisName axis {} first
  have hstart : start.rule.get? axis.property =
      some (.text (answers (.property axisName first.1)).1) := by
    have hbare : plan.isWrapped first.1 first.2 = false := by simp [isWrapped, hfirst]
    simp [start, inlineStep, InlineState.extend, hbare]
  have hstate : plan.inlineState b answers axisName axis =
      later.foldl (plan.inlineStep b answers axisName axis) start := by
    have hfold : plan.inlineState b answers axisName axis =
        (plan.inlineScope axis).entries.foldl (plan.inlineStep b answers axisName axis) {} := rfl
    rw [hfold, hscope, List.foldl_cons]
  rw [hstate]
  exact ⟨fun h => (get?_foldl_of_spares hlater h start).trans hstart,
    fun h => takenBy_foldl hlater h start⟩

section
variable {debugId : Option String} {s t : σ} {compiled : CompiledRecipe} {calls : List Call}
  {names : List String} {values : OrderedMap String SelectionValue} {v : Primitive}

theorem Performs.eval_reference (h : plan.Performs b debugId answers s compiled t calls)
    (ha : b.Allocates calls names) {condition : String}
    (hc : (axisName, condition) ∈ plan.inlineCells)
    (hvalue : values.get? axisName = some (.single v)) :
    ∃ chain, Reference.Value.ofText? (answers (.property axisName condition)).1 = some chain ∧
      chain.eval (compiled.resolveInForce values).style.get? =
        if condition = plan.initial then some v.label else none := by
  obtain ⟨hreference, hplain⟩ := h.reference_eq ha hc
  have hstyle : (compiled.resolveInForce values).style.get?
      (propertyIn b answers axisName condition) =
        (values.get? axisName).bind fun value => value.labelAt? compiled.initial condition :=
    h.style_get? ha hc
  refine ⟨.var (propertyIn b answers axisName condition), ?_, ?_⟩
  · rw [hreference, Reference.Value.ofText?_ofName hplain]
  · rw [Reference.Value.eval, hstyle, hvalue, h.returned]
    rfl

theorem Performs.reads_initial_iff (h : plan.Performs b debugId answers s compiled t calls)
    (ha : b.Allocates calls names) (haxis : plan.inline.get? axisName = some axis)
    (hvalue : values.get? axisName = some (.single v)) {first : String × Condition}
    {later : List (String × Condition)}
    (hscope : (plan.inlineScope axis).entries = first :: later)
    (hfirst : first.1 = plan.initial) (hlater : ∀ e ∈ later, e.1 ≠ plan.initial) :
    (∃ text chain,
        (plan.inlineState b answers axisName axis).rule.get? axis.property =
          some (.text text) ∧
        Reference.Value.ofText? text = some chain ∧
        chain.eval (compiled.resolveInForce values).style.get? = some v.label) ↔
      ∀ e ∈ later, e.2.Spares axis.property := by
  have hcell : ∀ e ∈ first :: later, (axisName, e.1) ∈ plan.inlineCells := by
    intro e he
    refine mem_inlineCells haxis ?_
    rw [OrderedMap.keys, hscope]
    exact List.mem_map_of_mem he
  obtain ⟨hspared, htaken⟩ := get?_inlineState b answers axisName hscope hfirst hlater
  constructor
  · rintro ⟨text, chain, htext, hread, heval⟩
    by_contra hnot
    -- a block is no text, and the property of a later condition is not set by a single value
    rcases htaken hnot with ⟨blocks, hblock⟩ | ⟨e, he, hreference⟩
    · rw [hblock] at htext
      cases htext
    · rw [hreference] at htext
      obtain rfl := StyleValue.text.inj (Option.some.inj htext)
      obtain ⟨chain', hread', heval'⟩ :=
        h.eval_reference ha (hcell e (List.mem_cons_of_mem _ he)) hvalue
      obtain rfl := Option.some.inj (hread.symm.trans hread')
      rw [heval', if_neg (hlater e he)] at heval
      cases heval
  · intro hall
    obtain ⟨chain, hread, heval⟩ := h.eval_reference ha (hcell first List.mem_cons_self) hvalue
    exact ⟨_, chain, hspared hall, hread, by rw [heval, if_pos hfirst]⟩

end

end Blueprint

/-- If the initial condition comes first, a single value of an inline axis is what the top level
of its rule reads, exactly if the axis is not responsive or every later condition spares the
property. -/
theorem Recipe.inline_initial_value_iff {σ : Type} (b : Backend σ) (debugId : Option String)
    (r : Recipe) (family : RecipeDefaults) {s t : σ} {compiled : CompiledRecipe}
    {calls : List Call} {names : List String}
    (h : r.compile family b.recorded debugId (s, []) = (.ok compiled, t, calls))
    (hfirst : (r.conditions.getD family.conditions).keys.head? =
      some (settleInitial r.initial family.initial))
    (ha : b.Allocates calls names) {axisName : String} {axis : InlineAxis}
    (haxis : r.inline.get? axisName = some axis) {selection : Selection} {v : Primitive}
    (hs : selection.get? axisName = some (some (.single v))) :
    ∃ (plan : Blueprint) (answers : Answers Cell σ) (rule : StyleRule),
      plan.Restates r family ∧ plan.Performs b debugId answers s compiled t calls ∧
      (Cell.inline axisName, Request.className rule
        (underscoredLabel debugId ("inline_" ++ axisName))) ∈ plan.schedule b debugId answers ∧
      ((∃ text chain, rule.get? axis.property = some (.text text) ∧
          Reference.Value.ofText? text = some chain ∧
          chain.eval (compiled.resolve (some selection)).style.get? = some v.label) ↔
        (axis.responsive = true →
          ∀ e ∈ (r.conditions.getD family.conditions).entries.tail,
            e.2.Spares axis.property)) := by
  obtain ⟨plan, answers, hrestates, hperforms⟩ := Recipe.performs_of_compile h
  have hinline : plan.inline.get? axisName = some axis := by rw [← hrestates.inline, haxis]
  have hmem : (axisName, axis) ∈ plan.inline.entries := OrderedMap.get?_eq_some_iff.1 hinline
  rw [← hrestates.conditions] at hfirst ⊢
  rw [← hrestates.initial] at hfirst
  obtain ⟨first, later, hscope, hinitial, hlater, htail⟩ :=
    Blueprint.exists_inlineScope hfirst axis
  obtain ⟨hresolve, hvalue⟩ := compiled.resolve_of_chosen hs
  refine ⟨plan, answers, (plan.inlineState b answers axisName axis).rule, hrestates, hperforms,
    ?_, ?_⟩
  · refine List.mem_append_left _ (List.mem_append_right _ (List.mem_flatMap.2 ⟨_, hmem, ?_⟩))
    exact List.mem_append_right _ (List.mem_singleton_self _)
  · rw [hresolve, hperforms.reads_initial_iff ha hinline hvalue hscope hinitial hlater, htail]
    by_cases hresponsive : axis.responsive = true <;> simp [hresponsive]

def evenGap : Selection := .ofList [("gap", some (.single (.text "4px")))]

theorem Recipe.inline_initial_value_iff_framed :
    ∃ (compiled : CompiledRecipe) (t : Unit × Nat) (calls : List Call),
      framed.compile {} labelling.recorded none (((), 0), []) = (.ok compiled, t, calls) ∧
      (framed.conditions.getD ∅).keys.head? = some (settleInitial framed.initial none) ∧
      labelling.Allocates calls ["--gap-initial_0", "--gap-md_1"] ∧
      framed.inline.get? "gap" = some gapAxis ∧
      evenGap.get? "gap" = some (some (.single (.text "4px"))) ∧
      ∃ (plan : Blueprint) (answers : Answers Cell (Unit × Nat)) (rule : StyleRule),
        plan.Restates framed {} ∧
        plan.Performs labelling none answers ((), 0) compiled t calls ∧
        (Cell.inline "gap", Request.className rule (underscoredLabel none ("inline_" ++ "gap"))) ∈
          plan.schedule labelling none answers ∧
        ((∃ text chain, rule.get? gapAxis.property = some (.text text) ∧
            Reference.Value.ofText? text = some chain ∧
            chain.eval (compiled.resolve (some evenGap)).style.get? =
              some (Primitive.text "4px").label) ↔
          (gapAxis.responsive = true →
            ∀ e ∈ (framed.conditions.getD ∅).entries.tail, e.2.Spares gapAxis.property)) := by
  obtain ⟨compiled, t, calls, hcompile, hreferences⟩ :
      ∃ (compiled : CompiledRecipe) (t : Unit × Nat) (calls : List Call),
        framed.compile {} labelling.recorded none (((), 0), []) = (.ok compiled, t, calls) ∧
        calls.filterMap Call.reference? =
          ["--gap-initial_0", "--gap-md_1"].map Reference.ofName := ⟨_, _, _, rfl, rfl⟩
  have hallocates : labelling.Allocates calls ["--gap-initial_0", "--gap-md_1"] :=
    ⟨hreferences, by decide, by decide, fun name _ s => Reference.target_ofName name⟩
  exact ⟨compiled, t, calls, hcompile, rfl, hallocates, rfl, rfl,
    Recipe.inline_initial_value_iff labelling none framed {} hcompile rfl hallocates rfl rfl⟩

/-- A later condition without a predicate. -/
def unguarded : Recipe where
  inline := .ofList [("gap", gapAxis)]
  conditions := some (.ofList [("initial", .always), ("wide", .always)])

/-- The rule of the axis reads the property of the later condition at its top level, which a
single value leaves unset. -/
theorem Recipe.initial_value_lost_unguarded :
    ∃ (compiled : CompiledRecipe) (t : Unit × Nat) (calls : List Call) (rule : StyleRule),
      unguarded.compile {} labelling.recorded none (((), 0), []) = (.ok compiled, t, calls) ∧
      (unguarded.conditions.getD ∅).keys.head? = some (settleInitial unguarded.initial none) ∧
      labelling.Allocates calls ["--gap-initial_0", "--gap-wide_1"] ∧
      unguarded.inline.get? "gap" = some gapAxis ∧
      evenGap.get? "gap" = some (some (.single (.text "4px"))) ∧
      Call.className rule (some "_inline_gap") "_inline_gap" ∈ calls ∧
      rule.get? gapAxis.property = some (.text "var(--gap-wide_1)") ∧
      (compiled.resolve (some evenGap)).style.entries = [("--gap-initial_0", "4px")] ∧
      ¬ ∃ text chain, rule.get? gapAxis.property = some (.text text) ∧
        Reference.Value.ofText? text = some chain ∧
        chain.eval (compiled.resolve (some evenGap)).style.get? =
          some (Primitive.text "4px").label := by
  let rule : StyleRule := (∅ : StyleRule).set "gap" (.text "var(--gap-wide_1)")
  obtain ⟨compiled, t, calls, hcompile, hcalls, hstyle⟩ :
      ∃ (compiled : CompiledRecipe) (t : Unit × Nat) (calls : List Call),
        unguarded.compile {} labelling.recorded none (((), 0), []) = (.ok compiled, t, calls) ∧
        calls = [.className ∅ none "<anonymous>",
          .customProperty "gap-initial" "var(--gap-initial_0)",
          .customProperty "gap-wide" "var(--gap-wide_1)",
          .className rule (some "_inline_gap") "_inline_gap"] ∧
        (compiled.resolve (some evenGap)).style.entries = [("--gap-initial_0", "4px")] :=
    ⟨_, _, _, rfl, rfl, rfl⟩
  have hallocates : labelling.Allocates calls ["--gap-initial_0", "--gap-wide_1"] :=
    ⟨by rw [hcalls]; rfl, by decide, by decide, fun name _ s => Reference.target_ofName name⟩
  have hdeclared : rule.get? gapAxis.property = some (.text "var(--gap-wide_1)") := rfl
  refine ⟨compiled, t, calls, rule, hcompile, rfl, hallocates, rfl, rfl, by simp [hcalls],
    hdeclared, hstyle, ?_⟩
  rintro ⟨text, chain, htext, hread, heval⟩
  rw [hdeclared] at htext
  obtain rfl := StyleValue.text.inj (Option.some.inj htext)
  have hplain : Reference.Plain "--gap-wide_1" := by decide
  have hvar : Reference.Value.ofText? "var(--gap-wide_1)" = some (.var "--gap-wide_1") :=
    Reference.Value.ofText?_ofName hplain
  obtain rfl := Option.some.inj (hread.symm.trans hvar)
  have hunset : (compiled.resolve (some evenGap)).style.get? "--gap-wide_1" = none := by
    rw [OrderedMap.get?, hstyle]
    rfl
  rw [Reference.Value.eval, hunset] at heval
  cases heval

end StyleVariants
