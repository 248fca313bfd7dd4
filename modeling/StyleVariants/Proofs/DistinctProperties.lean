import StyleVariants.CustomProperty.Registry
import StyleVariants.Proofs.PropertyRuns
import StyleVariants.Proofs.ResolvedSelections

/-!
# Properties of recipes that share a registry

A registry of properties hands out only names that it does not have yet, and keeps them. So
the names in the inline tables of all recipes compiled with it are pairwise distinct, however
their hints are spelt and whatever the hash takes for a value. No two slots of a compiled
recipe then write to one property, and a resolved selection holds every explicit label of
every inline axis in an entry of its own.
-/
namespace StyleVariants

/-- A registry that finds no new name answers the empty text, and no other call does. -/
def Call.Returned : Call → Prop
  | .className .. => True
  | .customProperty _ answer => answer ≠ ""

instance : DecidablePred Call.Returned
  | .className .. => instDecidableTrue
  | .customProperty .. => inferInstanceAs (Decidable (_ ≠ _))

namespace PropertyRegistry

/-- From one registry to a later one that has more names: new ones, pairwise distinct and
behind the others. -/
structure Grows (p q : PropertyRegistry) (names : List String) : Prop where
  names_eq : q.names = p.names ++ names
  nodup : names.Nodup
  fresh : ∀ name ∈ names, name ∉ p.names

theorem Grows.refl (p : PropertyRegistry) : p.Grows p [] :=
  ⟨by simp, List.nodup_nil, by simp⟩

theorem Grows.trans {p q u : PropertyRegistry} {names later : List String}
    (h : p.Grows q names) (h' : q.Grows u later) : p.Grows u (names ++ later) where
  names_eq := by rw [h'.names_eq, h.names_eq, List.append_assoc]
  nodup := by
    apply h.nodup.append h'.nodup
    intro name hname hlater
    apply h'.fresh name hlater
    rw [h.names_eq]
    exact List.mem_append_right _ hname
  fresh := by
    intro name hname hold
    rcases List.mem_append.1 hname with hname | hlater
    · exact h.fresh name hname hold
    · apply h'.fresh name hlater
      rw [h.names_eq]
      exact List.mem_append_left _ hold

theorem newName?_not_mem {digest : String → String} {p : PropertyRegistry} {hint name : String}
    {fuel index : Nat} (h : newName? digest p hint fuel index = some name) : name ∉ p.names := by
  induction fuel generalizing index with
  | zero => cases h
  | succ fuel ih =>
      rw [newName?] at h
      split at h
      · exact ih h
      · next hnew => exact Option.some.inj h ▸ hnew

theorem customProperty_grows {digest : String → String} {p q : PropertyRegistry}
    {hint answer : String} (h : customProperty digest hint p = (answer, q)) (ha : answer ≠ "") :
    ∃ name, answer = Reference.ofName name ∧ p.Grows q [name] := by
  unfold customProperty at h
  split at h
  · next name hname =>
    obtain ⟨rfl, rfl⟩ := Prod.mk.inj h
    refine ⟨name, rfl, rfl, List.nodup_singleton name, ?_⟩
    intro other hother
    rw [List.mem_singleton.1 hother]
    exact newName?_not_mem hname
  · exact (ha (Prod.mk.inj h).1.symm).elim

theorem run_grows {digest : String → String} {p q : PropertyRegistry}
    {steps : List (String × String × PropertyRegistry)}
    (h : (allocator digest).Run p steps q) (ha : ∀ e ∈ steps, e.2.1 ≠ "") :
    ∃ names, steps.map (·.2.1) = names.map Reference.ofName ∧ p.Grows q names := by
  induction h with
  | done p => exact ⟨[], rfl, Grows.refl p⟩
  | @step p q u hint answer rest hstep _ ih =>
      obtain ⟨name, rfl, hgrows⟩ := customProperty_grows hstep (ha _ List.mem_cons_self)
      obtain ⟨names, hnames, hlater⟩ := ih fun e he => ha e (List.mem_cons_of_mem _ he)
      exact ⟨name :: names, by simp [hnames], hgrows.trans hlater⟩

end PropertyRegistry

def CompiledRecipe.properties (compiled : CompiledRecipe) : List String :=
  compiled.inlineSlots.map InlineSlot.property

theorem Blueprint.Performs.reference_ne_empty {σ : Type} {b : Backend σ} {plan : Blueprint}
    {debugId : Option String} {answers : Answers Cell σ} {s t : σ} {compiled : CompiledRecipe}
    {calls : List Call} (h : plan.Performs b debugId answers s compiled t calls)
    (hcalls : ∀ call ∈ calls, call.Returned) {c : String × String} (hc : c ∈ plan.inlineCells) :
    (answers (.property c.1 c.2)).1 ≠ "" := by
  have hmem : (answers (.property c.1 c.2)).1 ∈ calls.filterMap Call.reference? := by
    rw [h.references]
    exact List.mem_map.2 ⟨c, hc, rfl⟩
  obtain ⟨call, hcall, hreference⟩ := List.mem_filterMap.1 hmem
  have hreturned := hcalls call hcall
  cases call with
  | className rule label answer => cases hreference
  | customProperty hint answer =>
      rw [← Option.some.inj hreference]
      exact hreturned

theorem Recipe.grows_of_compile {σ : Type} {digest : String → String} {namer : ClassNamer σ}
    {debugId : Option String} {r : Recipe} {family : RecipeDefaults} {s t : σ}
    {p q : PropertyRegistry} {compiled : CompiledRecipe} {calls : List Call}
    (h : r.compile family (Backend.ofParts namer (PropertyRegistry.allocator digest)).recorded
      debugId ((s, p), []) = (.ok compiled, (t, q), calls))
    (hcalls : ∀ call ∈ calls, call.Returned) : p.Grows q compiled.properties := by
  obtain ⟨plan, answers, -, hperforms⟩ := Recipe.performs_of_compile h
  have hanswered : ∀ e ∈ plan.inlineCells.map (fun c => (c.1 ++ "-" ++ c.2,
      (answers (.property c.1 c.2)).1, (answers (.property c.1 c.2)).2.2)), e.2.1 ≠ "" := by
    intro e he
    obtain ⟨c, hc, rfl⟩ := List.mem_map.1 he
    exact hperforms.reference_ne_empty hcalls hc
  obtain ⟨names, hnames, hgrows⟩ :=
    PropertyRegistry.run_grows (Blueprint.run_allocated hperforms.run) hanswered
  have hproperties : compiled.properties = names := by
    rw [hperforms.returned, CompiledRecipe.properties, Blueprint.inlineSlots_filled]
    have htargets := congrArg (List.map Reference.target) hnames
    simpa [Blueprint.propertyIn, Backend.ofParts, PropertyRegistry.allocator,
      Function.comp_def] using htargets
  rw [hproperties]
  exact hgrows

namespace PropertyRegistry

/-- Recipes are compiled one after the other with one registry of properties, each with
any namer of classes and with every call returning; a refused recipe gives no tables. -/
inductive Builds (digest : String → String) :
    PropertyRegistry → List CompiledRecipe → PropertyRegistry → Prop
  | done (p : PropertyRegistry) : Builds digest p [] p
  | accepted {σ : Type} {namer : ClassNamer σ} {debugId : Option String} {r : Recipe}
      {family : RecipeDefaults} {s t : σ} {p q u : PropertyRegistry} {compiled : CompiledRecipe}
      {calls : List Call} {rest : List CompiledRecipe} :
      r.compile family (Backend.ofParts namer (allocator digest)).recorded debugId
        ((s, p), []) = (.ok compiled, (t, q), calls) →
      (∀ call ∈ calls, call.Returned) → Builds digest q rest u →
      Builds digest p (compiled :: rest) u
  | refused {σ : Type} {namer : ClassNamer σ} {debugId : Option String} {r : Recipe}
      {family : RecipeDefaults} {s t : σ} {p q u : PropertyRegistry} {error : RecipeError}
      {calls : List Call} {rest : List CompiledRecipe} :
      r.compile family (Backend.ofParts namer (allocator digest)).recorded debugId
        ((s, p), []) = (.error error, (t, q), calls) →
      Builds digest q rest u → Builds digest p rest u

/-- The registry grows by the properties of all compiled recipes. -/
theorem Builds.grows {digest : String → String} {p q : PropertyRegistry}
    {results : List CompiledRecipe} (h : Builds digest p results q) :
    p.Grows q (results.flatMap CompiledRecipe.properties) := by
  induction h with
  | done p => exact Grows.refl p
  | accepted hcompile hcalls _ ih =>
      rw [List.flatMap_cons]
      exact (Recipe.grows_of_compile hcompile hcalls).trans ih
  | refused hcompile _ ih =>
      rcases Recipe.compile_cases hcompile with ⟨_, _, -, heq, -⟩ | ⟨_, -, hsame⟩
      · cases heq
      · have hregistry := (Prod.mk.inj (Prod.mk.inj hsame).1).2
        exact hregistry ▸ ih

end PropertyRegistry

namespace CompiledRecipe

/-- Every explicit label of an inline axis in force stands in an entry of its own, there are no
other entries, and the class of the axis is among the classes. -/
structure KeepsInlineValues (compiled : CompiledRecipe) (selection : Option Selection) :
    Prop where
  pairs_nodup : (compiled.inlineSlots.map fun slot => (slot.axis, slot.condition)).Nodup
  entries : ∃ writes,
    List.Forall₂ (compiled.SlotWrites (compiled.effective selection).get?) compiled.inlineSlots
      writes ∧
    (compiled.resolve selection).style.entries = writes.flatten
  className : ∀ axis cell, compiled.inline.get? axis = some cell →
    axis ∈ (compiled.effective selection).keys → ∃ before after,
      (compiled.resolve selection).className =
        " ".intercalate ((before ++ cell.className :: after).filter (· ≠ ""))

theorem nodup_inlineSlots (compiled : CompiledRecipe) :
    (compiled.inlineSlots.map fun slot => (slot.axis, slot.condition)).Nodup := by
  rw [inlineSlots, List.map_flatMap]
  apply Blueprint.nodup_flatMap_of_key compiled.inline.nodup_keys
  · intro e
    apply List.Nodup.of_map Prod.snd
    simpa [Function.comp_def] using e.2.properties.nodup_keys
  · intro e f pair he hf
    simp only [List.map_map, List.mem_map, Function.comp_apply] at he hf
    obtain ⟨_, -, rfl⟩ := he
    obtain ⟨_, -, heq⟩ := hf
    exact (Prod.mk.inj heq).1.symm

theorem map_fst_written (compiled : CompiledRecipe) (value? : String → Option SelectionValue) :
    (compiled.written value?).map Prod.fst =
      (compiled.inlineSlots.filter fun slot => (compiled.labelIn? value? slot).isSome).map
        InlineSlot.property := by
  simp only [written, List.map_filterMap, Option.map_map, Function.comp_def]
  induction compiled.inlineSlots with
  | nil => rfl
  | cons slot rest ih => cases h : compiled.labelIn? value? slot <;> simp [h, ih]

/-- No entry is lost where no two slots have the same property. -/
theorem entries_resolve_style {compiled : CompiledRecipe} (hn : compiled.properties.Nodup)
    (selection : Option Selection) : (compiled.resolve selection).style.entries =
      compiled.written (compiled.effective selection).get? := by
  rw [resolve_style]
  apply Entries.insertAll_of_nodup
  rw [List.nil_append, map_fst_written]
  exact (List.filter_sublist.map InlineSlot.property).nodup hn

theorem exists_className_of_inline {compiled : CompiledRecipe} {selection : Option Selection}
    {axis : String} {cell : CompiledInline} (hcell : compiled.inline.get? axis = some cell)
    (haxis : axis ∈ (compiled.effective selection).keys) : ∃ before after,
      (compiled.resolve selection).className =
        " ".intercalate ((before ++ cell.className :: after).filter (· ≠ "")) := by
  have hmem : cell.className ∈ compiled.addedClasses selection := by
    cases selection with
    | none => cases haxis
    | some selection =>
        by_cases hempty : selection.isEmpty
        · simp only [effective, hempty, if_true] at haxis
          cases haxis
        · simp only [effective, hempty, Bool.false_eq_true, if_false] at haxis
          obtain ⟨value, hvalue⟩ := OrderedMap.mem_keys_iff.1 haxis
          have hinline : (cell, value) ∈ compiled.inlineInForce (compiled.inForce selection) := by
            rw [inlineInForce, List.mem_filterMap]
            exact ⟨(axis, cell), OrderedMap.get?_eq_some_iff.1 hcell, by rw [hvalue]; rfl⟩
          have hclass := List.mem_map_of_mem (f := (·.1.className)) hinline
          simp only [addedClasses, hempty, Bool.false_eq_true, if_false, List.mem_append]
          exact .inl (.inr hclass)
  obtain ⟨before, after, hsplit⟩ := List.append_of_mem hmem
  exact ⟨compiled.base :: before, after, by rw [resolve_className, hsplit]; rfl⟩

theorem keepsInlineValues {compiled : CompiledRecipe} (hn : compiled.properties.Nodup)
    (selection : Option Selection) : compiled.KeepsInlineValues selection where
  pairs_nodup := compiled.nodup_inlineSlots
  entries := by
    obtain ⟨writes, hwrites, hwritten⟩ :=
      compiled.written_slotWrites (compiled.effective selection).get?
    exact ⟨writes, hwrites, (entries_resolve_style hn selection).trans hwritten⟩
  className := fun _ _ => exists_className_of_inline

end CompiledRecipe

/-- When recipes are compiled with one registry of properties, all property names in all of
their inline tables are pairwise distinct, and they are the names by which the registry has
grown. So every result keeps, for every selection, each inline value in its own entry. -/
theorem PropertyRegistry.builds_keep_inline_values {digest : String → String}
    {p q : PropertyRegistry} {results : List CompiledRecipe} (h : Builds digest p results q) :
    (results.flatMap CompiledRecipe.properties).Nodup ∧
      q.names = p.names ++ results.flatMap CompiledRecipe.properties ∧
      ∀ compiled ∈ results, ∀ selection, compiled.KeepsInlineValues selection := by
  have hgrows := h.grows
  refine ⟨hgrows.nodup, hgrows.names_eq, fun compiled hmem selection => ?_⟩
  apply CompiledRecipe.keepsInlineValues
  exact (List.nodup_flatMap.1 hgrows.nodup).1 compiled hmem

/-- Six times the last character, where `2` counts as `1`. -/
def coarse (text : String) : String :=
  let last := text.toList.getLastD '0'
  String.ofList (List.replicate 6 (if last = '2' then '1' else last))

/-- Two axes and two conditions that make the hint `a-b-c` twice. -/
def hyphenated : Recipe where
  inline := .ofList [("a", { property := "gap" }), ("a-b", { property := "margin" })]
  conditions := some (.ofList [("c", .always),
    ("b-c", Condition.always.insert .media "(min-width: 40em)")])
  initial := some "c"

def compileHyphenated (p : PropertyRegistry) :
    Except RecipeError CompiledRecipe × (Unit × PropertyRegistry) × List Call :=
  hyphenated.compile {} (Backend.ofParts Echo.labels (PropertyRegistry.allocator coarse)).recorded
    none (((), p), [])

/-- The hint that comes twice also meets a name that is taken, and the recipe is compiled a
second time with the same registry. -/
theorem PropertyRegistry.builds_keep_inline_values_hyphenated :
    ∃ (first second : CompiledRecipe) (q : PropertyRegistry),
      Builds coarse {} [first, second] q ∧
      q.names = ["--a-c__000000", "--a-b-c__111111", "--a-b-c__333333", "--a-b-b-c__333333",
        "--a-c__444444", "--a-b-c__555555", "--a-b-c__666666", "--a-b-b-c__777777"] ∧
      ([first, second].flatMap CompiledRecipe.properties).Nodup ∧
      q.names = ({} : PropertyRegistry).names ++
        [first, second].flatMap CompiledRecipe.properties ∧
      ∀ compiled ∈ [first, second], ∀ selection, compiled.KeepsInlineValues selection := by
  have haccepted : (compileHyphenated {}).1.isOk = true ∧
      ∀ call ∈ (compileHyphenated {}).2.2, call.Returned := by decide +kernel
  have hagain : (compileHyphenated (compileHyphenated {}).2.1.2).1.isOk = true ∧
      (∀ call ∈ (compileHyphenated (compileHyphenated {}).2.1.2).2.2, call.Returned) ∧
      (compileHyphenated (compileHyphenated {}).2.1.2).2.1.2.names =
        ["--a-c__000000", "--a-b-c__111111", "--a-b-c__333333", "--a-b-b-c__333333",
          "--a-c__444444", "--a-b-c__555555", "--a-b-c__666666", "--a-b-b-c__777777"] := by
    decide +kernel
  rcases hfirst : compileHyphenated {} with ⟨first, ⟨_, q⟩, calls⟩
  rw [hfirst] at haccepted hagain
  rcases hsecond : compileHyphenated q with ⟨second, ⟨_, u⟩, calls'⟩
  rw [hsecond] at hagain
  cases first with
  | error error => cases haccepted.1
  | ok first =>
      cases second with
      | error error => cases hagain.1
      | ok second =>
          have hbuilds : Builds coarse {} [first, second] u :=
            .accepted hfirst haccepted.2 (.accepted hsecond hagain.2.1 (.done u))
          exact ⟨first, second, u, hbuilds, hagain.2.2, builds_keep_inline_values hbuilds⟩

end StyleVariants
