import StyleVariants.Proofs.InlineProperties
import StyleVariants.StyleRule.Lemmas

/-!
# Fallback chains compute the forward fill

In a cascade the initial condition comes first and every other condition is one media
query of its own. The rule of an inline axis then declares under every condition a chain
of the custom properties up to it, the latest first. A selection sets the properties of
the conditions where it gives a label. So the chain takes the label given last.
-/
namespace StyleVariants

def StyleRule.blockAt (rule : StyleRule) (path : List (String × String)) : StyleRule :=
  path.foldl (fun rule e => (rule.block e.1).block e.2) rule

/-- What a rule declares for a property under a condition: at its top level for the initial
one, otherwise in the blocks of the condition. -/
def StyleRule.declaredUnder (rule : StyleRule) (initial property name : String)
    (condition : Condition) : Option StyleValue :=
  if name = initial then rule.get? property
  else (rule.blockAt condition.path).get? property

def Condition.IsMedia (condition : Condition) : Prop :=
  ∃ query, condition = always.insert .media query

/-- The initial condition comes first, and every later one is a media query of its own. -/
structure Conditions.IsCascade (conditions : Conditions) (initial : String) : Prop where
  initial_first : conditions.keys.head? = some initial
  media : ∀ e ∈ conditions.entries.tail, e.2.IsMedia
  distinct : (conditions.entries.tail.map Prod.snd).Nodup

/-- Each condition of a cascade but the first is a media query that does not come again, and
none that comes later is the initial one. -/
theorem Conditions.IsCascade.at {conditions : Conditions} {initial : String}
    (h : conditions.IsCascade initial) {k : Nat} {name : String} {condition : Condition}
    (hk : conditions.entries[k]? = some (name, condition)) :
    (name = initial → k = 0) ∧
      (name ≠ initial → condition.IsMedia ∧
        condition ∉ (conditions.entries.drop (k + 1)).map Prod.snd) ∧
      ∀ e ∈ conditions.entries.drop (k + 1), e.1 ≠ initial ∧ e.2.IsMedia := by
  obtain ⟨hfirst, hmedia, hdistinct⟩ := h
  have hnodup := conditions.nodup_keys
  rw [OrderedMap.keys] at hfirst
  cases hentries : conditions.entries with
  | nil => simp [hentries] at hk
  | cons first tail =>
      simp only [hentries, List.map_cons, List.head?_cons, Option.some.injEq, List.tail_cons,
        List.nodup_cons] at hk hfirst hmedia hdistinct hnodup
      have hlater : ∀ e ∈ tail, e.1 ≠ initial ∧ e.2.IsMedia := by
        intro e he
        refine ⟨fun heq => hnodup.1 ?_, hmedia e he⟩
        rw [hfirst, ← heq]
        exact List.mem_map_of_mem he
      cases k with
      | zero =>
          obtain rfl := Option.some.inj hk
          exact ⟨fun _ => rfl, fun hne => (hne hfirst).elim, hlater⟩
      | succ k =>
          rw [List.getElem?_cons_succ] at hk
          have hmem : (name, condition) ∈ tail := List.mem_of_getElem? hk
          obtain ⟨hlt, hget⟩ := List.getElem?_eq_some_iff.1 hk
          have hdrop : tail.drop k = (name, condition) :: tail.drop (k + 1) := by
            rw [List.drop_eq_getElem_cons hlt, hget]
          have hunique := hdistinct.sublist ((List.drop_sublist k tail).map Prod.snd)
          rw [hdrop, List.map_cons, List.nodup_cons] at hunique
          exact ⟨fun heq => ((hlater _ hmem).1 heq).elim,
            fun _ => ⟨(hlater _ hmem).2, hunique.1⟩,
            fun e he => hlater e (List.mem_of_mem_drop he)⟩

theorem Condition.path_media (query : String) :
    (always.insert .media query).path = [("@media", query)] := rfl

namespace StyleRule

theorem blockAt_addUnder_self {condition : Condition} (h : condition.IsMedia)
    (rule inner : StyleRule) : (rule.addUnder condition inner).blockAt condition.path = inner := by
  obtain ⟨query, rfl⟩ := h
  simp [addUnder, Condition.path_media, addAt, blockAt]

theorem blockAt_addUnder_of_ne {condition other : Condition} (h : condition.IsMedia)
    (h' : other.IsMedia) (hne : condition ≠ other) (rule inner : StyleRule) :
    (rule.addUnder other inner).blockAt condition.path = rule.blockAt condition.path := by
  obtain ⟨query, rfl⟩ := h
  obtain ⟨query', rfl⟩ := h'
  have hquery : query ≠ query' := fun heq => hne (by rw [heq])
  simp [addUnder, Condition.path_media, addAt, blockAt, block_setBlock_of_ne hquery]

theorem get?_addUnder {condition : Condition} (h : condition.IsMedia) {property : String}
    (hp : property ≠ "@media") (rule inner : StyleRule) :
    (rule.addUnder condition inner).get? property = rule.get? property := by
  obtain ⟨query, rfl⟩ := h
  simp only [addUnder, Condition.path_media, addAt, setBlock]
  exact get?_set_of_ne hp rule _

end StyleRule

namespace Blueprint.InlineState
open StyleRule
variable {plan : Blueprint} {cssProperty : String}

theorem isWrapped_of_media {name : String} {condition : Condition} (hn : name ≠ plan.initial)
    (hc : condition.IsMedia) : plan.isWrapped name condition = true := by
  obtain ⟨query, rfl⟩ := hc
  have halways : (Condition.always.insert .media query).isAlways = false := rfl
  simp [isWrapped, hn, halways]

theorem declaredUnder_extend_self {name : String} {condition : Condition}
    {state : InlineState} (hi : name = plan.initial → state.references = [])
    (hm : name ≠ plan.initial → condition.IsMedia) (reference property : String) :
    (state.extend plan cssProperty name condition reference property).rule.declaredUnder
        plan.initial cssProperty name condition =
      some (.text (Reference.chain (reference :: state.references))) := by
  by_cases hn : name = plan.initial
  · subst hn
    have hwrapped : plan.isWrapped plan.initial condition = false := by simp [isWrapped]
    simp [extend, hwrapped, declaredUnder, hi rfl, Reference.chain]
  · have hwrapped := isWrapped_of_media hn (hm hn)
    simp [extend, hwrapped, declaredUnder, hn, blockAt_addUnder_self (hm hn)]

theorem declaredUnder_extend_of_ne {name other : String} {condition condition' : Condition}
    (hp : cssProperty ≠ "@media") (ho : other ≠ plan.initial) (hm' : condition'.IsMedia)
    (hm : name ≠ plan.initial → condition.IsMedia ∧ condition ≠ condition')
    (state : InlineState) (reference property : String) :
    (state.extend plan cssProperty other condition' reference property).rule.declaredUnder
        plan.initial cssProperty name condition =
      state.rule.declaredUnder plan.initial cssProperty name condition := by
  have hwrapped := isWrapped_of_media ho hm'
  by_cases hn : name = plan.initial
  · simp [extend, hwrapped, declaredUnder, hn, get?_addUnder hm' hp]
  · obtain ⟨hc, hne⟩ := hm hn
    simp [extend, hwrapped, declaredUnder, hn, blockAt_addUnder_of_ne hc hm' hne]

end Blueprint.InlineState

namespace Blueprint
variable {σ : Type} {b : Backend σ} {plan : Blueprint} {answers : Answers Cell σ}
  {axisName : String} {axis : InlineAxis}

def inlineStep (plan : Blueprint) (b : Backend σ) (answers : Answers Cell σ)
    (axisName : String) (axis : InlineAxis) (state : InlineState) (e : String × Condition) :
    InlineState :=
  state.extend plan axis.property e.1 e.2 (answers (.property axisName e.1)).1
    (propertyIn b answers axisName e.1)

def referencesTo (answers : Answers Cell σ) (axisName : String)
    (conditions : List (String × Condition)) : List String :=
  (conditions.map fun e => (answers (.property axisName e.1)).1).reverse

theorem references_foldl (conditions : List (String × Condition)) (state : InlineState) :
    (conditions.foldl (plan.inlineStep b answers axisName axis) state).references =
      referencesTo answers axisName conditions ++ state.references := by
  induction conditions generalizing state with
  | nil => rfl
  | cons e rest ih =>
      rw [List.foldl_cons, ih]
      simp [referencesTo, inlineStep, InlineState.extend]

theorem declaredUnder_foldl {rest : List (String × Condition)} {name : String}
    {condition : Condition} (hp : axis.property ≠ "@media")
    (hrest : ∀ e ∈ rest, e.1 ≠ plan.initial ∧ e.2.IsMedia)
    (hm : name ≠ plan.initial → condition.IsMedia ∧ condition ∉ rest.map Prod.snd)
    (state : InlineState) :
    (rest.foldl (plan.inlineStep b answers axisName axis) state).rule.declaredUnder
        plan.initial axis.property name condition =
      state.rule.declaredUnder plan.initial axis.property name condition := by
  induction rest generalizing state with
  | nil => rfl
  | cons e rest ih =>
      obtain ⟨hinitial, hmedia⟩ := hrest e (by simp)
      have hm' : name ≠ plan.initial → condition.IsMedia ∧ condition ≠ e.2 := by
        intro hn
        obtain ⟨hc, hmem⟩ := hm hn
        exact ⟨hc, fun heq => hmem (by simp [heq])⟩
      have hlater : name ≠ plan.initial → condition.IsMedia ∧ condition ∉ rest.map Prod.snd := by
        intro hn
        obtain ⟨hc, hmem⟩ := hm hn
        exact ⟨hc, fun h => hmem (by simp [List.mem_map.1 h])⟩
      rw [List.foldl_cons, ih (fun e he => hrest e (by simp [he])) hlater]
      exact InlineState.declaredUnder_extend_of_ne hp hinitial hmedia hm' state _ _

theorem inlineScope_of_responsive (plan : Blueprint) {axis : InlineAxis}
    (h : axis.responsive = true) : plan.inlineScope axis = plan.conditions := by
  refine OrderedMap.ext_entries ?_
  simp [inlineScope, h]

/-- In a cascade, every condition declares the chain of the references up to it. -/
theorem declaredUnder_inlineState (hc : plan.conditions.IsCascade plan.initial)
    (hresponsive : axis.responsive = true) (hp : axis.property ≠ "@media") {k : Nat}
    {name : String} {condition : Condition}
    (hk : plan.conditions.entries[k]? = some (name, condition)) :
    (plan.inlineState b answers axisName axis).rule.declaredUnder plan.initial axis.property
        name condition =
      some (.text (Reference.chain
        (referencesTo answers axisName (plan.conditions.entries.take (k + 1))))) := by
  obtain ⟨hinitial, hm, hrest⟩ := hc.at hk
  obtain ⟨hlt, hget⟩ := List.getElem?_eq_some_iff.1 hk
  -- the loop is cut behind the condition: what comes later leaves its declaration alone
  let step := plan.inlineStep b answers axisName axis
  let front := (plan.conditions.entries.take k).foldl step {}
  have hsplit : plan.inlineState b answers axisName axis =
      (plan.conditions.entries.drop (k + 1)).foldl step (step front (name, condition)) := by
    have hstate : plan.inlineState b answers axisName axis =
        (plan.inlineScope axis).entries.foldl step {} := rfl
    rw [hstate, plan.inlineScope_of_responsive hresponsive, ← List.foldl_cons, ← hget,
      ← List.drop_eq_getElem_cons hlt, ← List.foldl_append, List.take_append_drop]
  have hfront : front.references =
      referencesTo answers axisName (plan.conditions.entries.take k) := by
    rw [references_foldl]
    exact List.append_nil _
  have hempty : name = plan.initial → front.references = [] := by
    intro hn
    rw [hfront, hinitial hn]
    rfl
  have htake : referencesTo answers axisName (plan.conditions.entries.take (k + 1)) =
      (answers (.property axisName name)).1 :: front.references := by
    rw [hfront, List.take_succ_eq_append_getElem hlt, hget]
    simp [referencesTo]
  rw [hsplit, declaredUnder_foldl hp hrest hm, htake]
  exact InlineState.declaredUnder_extend_self hempty (fun hn => (hm hn).1) _ _

section
variable {debugId : Option String} {s t : σ} {compiled : CompiledRecipe} {calls : List Call}
  {names : List String} {conditions : List (String × Condition)}

def propertiesTo (b : Backend σ) (answers : Answers Cell σ) (axisName : String)
    (conditions : List (String × Condition)) : List String :=
  (conditions.map fun e => propertyIn b answers axisName e.1).reverse

theorem Performs.referencesTo_eq (h : plan.Performs b debugId answers s compiled t calls)
    (ha : b.Allocates calls names)
    (hcells : ∀ e ∈ conditions, (axisName, e.1) ∈ plan.inlineCells) :
    referencesTo answers axisName conditions =
        (propertiesTo b answers axisName conditions).map Reference.ofName ∧
      ∀ property ∈ propertiesTo b answers axisName conditions, Reference.Plain property := by
  constructor
  · rw [referencesTo, propertiesTo, List.map_reverse, List.map_map]
    refine congrArg List.reverse (List.map_congr_left fun e he => ?_)
    exact (h.reference_eq ha (hcells e he)).1
  · intro property hproperty
    obtain ⟨e, he, rfl⟩ := List.mem_map.1 (List.mem_reverse.1 hproperty)
    exact (h.reference_eq ha (hcells e he)).2

theorem Performs.findSome?_propertiesTo
    (h : plan.Performs b debugId answers s compiled t calls) (ha : b.Allocates calls names)
    (hcells : ∀ e ∈ conditions, (axisName, e.1) ∈ plan.inlineCells)
    {values : OrderedMap String SelectionValue} {value : SelectionValue}
    (hvalue : values.get? axisName = some value) :
    (propertiesTo b answers axisName conditions).findSome?
        (compiled.resolveInForce values).style.get? =
      value.lastGiven? compiled.initial (conditions.map Prod.fst) := by
  have hfirst : ∀ (f : String → Option String) (l : List String),
      l.reverse.findSome? f = (l.map f).reverse.findSome? id := by
    intro f l
    rw [← List.map_reverse, List.findSome?_map]
    rfl
  rw [propertiesTo, SelectionValue.lastGiven?, hfirst, hfirst, List.map_map, List.map_map]
  refine congrArg (fun l => List.findSome? id (List.reverse l)) ?_
  refine List.map_congr_left fun e he => ?_
  refine (h.style_get? ha (hcells e he)).trans ?_
  rw [hvalue]
  rfl

theorem Performs.eval_chain (h : plan.Performs b debugId answers s compiled t calls)
    (ha : b.Allocates calls names) (hne : conditions ≠ [])
    (hcells : ∀ e ∈ conditions, (axisName, e.1) ∈ plan.inlineCells)
    {values : OrderedMap String SelectionValue} {value : SelectionValue}
    (hvalue : values.get? axisName = some value) :
    ∃ chain, Reference.Value.ofText?
        (Reference.chain (referencesTo answers axisName conditions)) = some chain ∧
      chain.eval (compiled.resolveInForce values).style.get? =
        value.lastGiven? compiled.initial (conditions.map Prod.fst) := by
  obtain ⟨hreferences, hplain⟩ := h.referencesTo_eq ha hcells
  let properties := propertiesTo b answers axisName conditions
  have hchain : properties.map Reference.ofName ++ (none : Option String).toList ≠ [] := by
    simpa [properties, propertiesTo] using hne
  obtain ⟨chain, hread, heval⟩ := Reference.Value.ofText?_chain hplain (by simp) hchain
  refine ⟨chain, ?_, ?_⟩
  · rw [hreferences, ← hread, Option.toList_none, List.append_nil]
  · rw [heval, Option.or_none]
    exact h.findSome?_propertiesTo ha hcells hvalue

end

end Blueprint

/-- In a cascade, whatever is selected for a responsive inline axis: under every condition the
rule of the axis declares its property as a chain of references, and evaluated in the resolved
style the chain takes the label in force there, and nothing if there is none. -/
theorem Recipe.inline_chains_take_label_in_force {σ : Type} (b : Backend σ)
    (debugId : Option String) (r : Recipe) (family : RecipeDefaults) {s t : σ}
    {compiled : CompiledRecipe} {calls : List Call} {names : List String}
    (h : r.compile family b.recorded debugId (s, []) = (.ok compiled, t, calls))
    (hc : (r.conditions.getD family.conditions).IsCascade
      (settleInitial r.initial family.initial))
    (ha : b.Allocates calls names) {axisName : String} {axis : InlineAxis}
    (haxis : r.inline.get? axisName = some axis) (hresponsive : axis.responsive = true)
    (hp : axis.property ≠ "@media") {selection : Selection} {value : SelectionValue}
    (hs : selection.get? axisName = some (some value)) :
    ∃ (plan : Blueprint) (answers : Answers Cell σ) (rule : StyleRule),
      plan.Restates r family ∧ plan.Performs b debugId answers s compiled t calls ∧
      (Cell.inline axisName, Request.className rule
        (underscoredLabel debugId ("inline_" ++ axisName))) ∈ plan.schedule b debugId answers ∧
      ∀ k name condition, compiled.conditions.entries[k]? = some (name, condition) →
        ∃ text chain, rule.declaredUnder compiled.initial axis.property name condition =
            some (.text text) ∧
          Reference.Value.ofText? text = some chain ∧
          ∀ label, chain.eval (compiled.resolve (some selection)).style.get? = some label ↔
            value.InForceAt compiled.initial compiled.conditions.keys k label := by
  obtain ⟨plan, answers, hrestates, hperforms⟩ := Recipe.performs_of_compile h
  have hplan : plan.conditions.IsCascade plan.initial := by
    rw [hrestates.conditions, hrestates.initial]
    exact hc
  have hinline : plan.inline.get? axisName = some axis := by rw [← hrestates.inline, haxis]
  have hmem : (axisName, axis) ∈ plan.inline.entries := OrderedMap.get?_eq_some_iff.1 hinline
  refine ⟨plan, answers, (plan.inlineState b answers axisName axis).rule, hrestates, hperforms,
    ?_, fun k name condition hk => ?_⟩
  · refine List.mem_append_left _ (List.mem_append_right _ (List.mem_flatMap.2 ⟨_, hmem, ?_⟩))
    exact List.mem_append_right _ (List.mem_singleton_self _)
  · obtain ⟨hresolve, hvalue⟩ := compiled.resolve_of_chosen hs
    have hk' : plan.conditions.entries[k]? = some (name, condition) := by
      rw [hperforms.returned] at hk
      exact hk
    have hne : plan.conditions.entries.take (k + 1) ≠ [] := by
      have hlt := (List.getElem?_eq_some_iff.1 hk').1
      exact List.ne_nil_of_length_pos (by rw [List.length_take]; omega)
    have hcells : ∀ e ∈ plan.conditions.entries.take (k + 1),
        (axisName, e.1) ∈ plan.inlineCells := by
      intro e he
      refine Blueprint.mem_inlineCells hinline ?_
      rw [plan.inlineScope_of_responsive hresponsive]
      exact List.mem_map_of_mem (List.mem_of_mem_take he)
    obtain ⟨chain, hread, heval⟩ := hperforms.eval_chain ha hne hcells hvalue
    refine ⟨_, chain, ?_, hread, fun label => ?_⟩
    · rw [hperforms.returned]
      exact Blueprint.declaredUnder_inlineState hplan hresponsive hp hk'
    · have hkeys : (plan.conditions.entries.take (k + 1)).map Prod.fst =
          compiled.conditions.keys.take (k + 1) := by
        rw [hperforms.returned, List.map_take]
        rfl
      -- the chain takes the label given last, and that is the one in force
      rw [hresolve, heval, hkeys]
      exact SelectionValue.lastGiven?_take_iff

def gapAxis : InlineAxis := { property := "gap" }

def lateGap : Selection := .ofList [("gap", some (.ofEntries [("md", .text "4px")]))]

theorem Recipe.inline_chains_take_label_in_force_lateGap :
    ∃ (compiled : CompiledRecipe) (t : Unit × Nat) (calls : List Call),
      framed.compile {} labelling.recorded none (((), 0), []) = (.ok compiled, t, calls) ∧
      (framed.conditions.getD ∅).IsCascade (settleInitial framed.initial none) ∧
      labelling.Allocates calls ["--gap-initial_0", "--gap-md_1"] ∧
      framed.inline.get? "gap" = some gapAxis ∧ gapAxis.responsive = true ∧
      gapAxis.property ≠ "@media" ∧
      lateGap.get? "gap" = some (some (.ofEntries [("md", .text "4px")])) ∧
      ∃ (plan : Blueprint) (answers : Answers Cell (Unit × Nat)) (rule : StyleRule),
        plan.Restates framed {} ∧
        plan.Performs labelling none answers ((), 0) compiled t calls ∧
        (Cell.inline "gap", Request.className rule (underscoredLabel none ("inline_" ++ "gap"))) ∈
          plan.schedule labelling none answers ∧
        ∀ k name condition, compiled.conditions.entries[k]? = some (name, condition) →
          ∃ text chain, rule.declaredUnder compiled.initial gapAxis.property name condition =
              some (.text text) ∧
            Reference.Value.ofText? text = some chain ∧
            ∀ label, chain.eval (compiled.resolve (some lateGap)).style.get? = some label ↔
              (SelectionValue.ofEntries [("md", .text "4px")]).InForceAt compiled.initial
                compiled.conditions.keys k label := by
  have htail : (framed.conditions.getD ∅).entries.tail =
      [("md", Condition.always.insert .media "(min-width: 40em)")] := rfl
  have hcascade : (framed.conditions.getD ∅).IsCascade (settleInitial framed.initial none) := by
    refine ⟨rfl, ?_, ?_⟩
    · rw [htail]
      exact List.forall_mem_singleton.2 ⟨_, rfl⟩
    · rw [htail]
      exact List.nodup_singleton _
  obtain ⟨compiled, t, calls, hcompile, hreferences⟩ :
      ∃ (compiled : CompiledRecipe) (t : Unit × Nat) (calls : List Call),
        framed.compile {} labelling.recorded none (((), 0), []) = (.ok compiled, t, calls) ∧
        calls.filterMap Call.reference? =
          ["--gap-initial_0", "--gap-md_1"].map Reference.ofName := ⟨_, _, _, rfl, rfl⟩
  have hallocates : labelling.Allocates calls ["--gap-initial_0", "--gap-md_1"] :=
    ⟨hreferences, by decide, by decide, fun name _ s => Reference.target_ofName name⟩
  have hproperty : gapAxis.property ≠ "@media" := by decide
  exact ⟨compiled, t, calls, hcompile, hcascade, hallocates, rfl, rfl, hproperty, rfl,
    Recipe.inline_chains_take_label_in_force labelling none framed {} hcompile hcascade
      hallocates rfl rfl hproperty rfl⟩

end StyleVariants
