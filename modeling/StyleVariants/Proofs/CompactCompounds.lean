import StyleVariants.Proofs.GivenLabels

/-!
# One class for a compound of regular axes

A compound whose axes are all regular is compiled once, any other one under every condition.
For single values the two forms say the same. What is selected at the initial condition stays in
force at all the others, so the requirements are met everywhere or nowhere, and the one run that
may begin does so at the first condition. If this is the initial one, its rule is not wrapped.
-/
namespace StyleVariants

theorem SelectionValue.fill_single_carried (p : Primitive) (initial : String)
    (conditions : List String) :
    (single p).fill initial (some p.label) conditions =
      List.replicate conditions.length (some p.label) := by
  induction conditions with
  | nil => rfl
  | cons condition rest ih =>
      have hlabel : ((single p).labelAt? initial condition).or (some p.label) =
          some p.label := by
        by_cases h : condition = initial <;> simp [labelAt?, h]
      simp only [fill, hlabel, ih, List.length_cons, List.replicate_succ]

theorem SelectionValue.fill_single (p : Primitive) (initial : String) (rest : List String) :
    (single p).fill initial none (initial :: rest) =
      List.replicate (rest.length + 1) (some p.label) := by
  have hlabel : ((single p).labelAt? initial initial).or none = some p.label := by
    simp [labelAt?]
  simp only [fill, hlabel, fill_single_carried, List.replicate_succ]

theorem OrderedMap.exists_entries_of_head? {κ α : Type} {m : OrderedMap κ α} {key : κ}
    (h : m.keys.head? = some key) : ∃ value rest, m.entries = (key, value) :: rest := by
  rw [keys, List.head?_map] at h
  obtain ⟨⟨key, value⟩, hhead, rfl⟩ := Option.map_eq_some_iff.1 h
  exact ⟨value, _, (List.head?_eq_some_iff.1 hhead).choose_spec⟩

namespace CompiledRecipe

theorem onsets_replicate_false (previous : Bool) (n : Nat) :
    onsets previous (List.replicate n false) = List.replicate n false := by
  induction n generalizing previous with
  | zero => rfl
  | succ n ih => simp [List.replicate_succ, onsets, ih]

theorem onsets_replicate_true (n : Nat) :
    onsets true (List.replicate n true) = List.replicate n false := by
  induction n with
  | zero => rfl
  | succ n ih => simp [List.replicate_succ, onsets, ih]

theorem onsets_replicate (flag : Bool) (n : Nat) :
    onsets false (List.replicate (n + 1) flag) = flag :: List.replicate n false := by
  cases flag with
  | false => rw [onsets_replicate_false, List.replicate_succ]
  | true => simp [List.replicate_succ, onsets, onsets_replicate_true]

theorem filterMap_zip_replicate {α β γ : Type} {f : α × β → Option γ} {b : β}
    (h : ∀ a, f (a, b) = none) (l : List α) (n : Nat) :
    (l.zip (List.replicate n b)).filterMap f = [] := by
  rw [List.filterMap_eq_nil_iff]
  intro e he
  obtain ⟨a, b'⟩ := e
  obtain rfl : b' = b := List.eq_of_mem_replicate (List.of_mem_zip he).2
  exact h a

def Matches (values : OrderedMap String SelectionValue) (entries : List (String × Primitive)) :
    Prop :=
  ∀ e ∈ entries, ∃ p, values.get? e.1 = some (.single p) ∧ p.label = e.2.label

/-- With single values for all axes, the requirements are met at all conditions or at none, and
which of the two does not depend on the conditions that follow the initial one. -/
theorem allMet?_single {initial : String} {values : OrderedMap String SelectionValue}
    {entries : List (String × Primitive)}
    (h : ∀ e ∈ entries, ∀ value, values.get? e.1 = some value → ∃ p, value = .single p) :
    ∃ flag : Option Bool, (flag = some true ↔ Matches values entries) ∧
      ∀ rest, allMet? initial values (initial :: rest) entries =
        flag.map (List.replicate (rest.length + 1)) := by
  induction entries with
  | nil =>
      refine ⟨some true, by simp [Matches], fun rest => ?_⟩
      simp [allMet?, List.replicate_succ]
  | cons e others ih =>
      obtain ⟨axis, required⟩ := e
      obtain ⟨flag, hmatches, hflag⟩ := ih fun e he => h e (List.mem_cons_of_mem _ he)
      cases hv : values.get? axis with
      | none =>
          refine ⟨none, by simp [Matches, hv], fun rest => ?_⟩
          simp [allMet?, hv]
      | some value =>
          obtain ⟨p, rfl⟩ := h (axis, required) (by simp) value hv
          refine ⟨flag.map (p.label == required.label && ·), ?_, fun rest => ?_⟩
          · have hcons : Matches values ((axis, required) :: others) ↔
                p.label = required.label ∧ Matches values others := by
              simp [Matches, hv]
            rw [hcons, ← hmatches]
            cases flag <;> simp
          · cases flag <;>
              simp [allMet?, hv, hflag, met, SelectionValue.fill_single]

theorem compoundClasses_single {initial : String} {values : OrderedMap String SelectionValue}
    {required : OrderedMap String Primitive}
    (h : ∀ axis ∈ required.keys, ∀ value, values.get? axis = some value →
      ∃ p, value = .single p) :
    ∃ holds : Bool, (holds = true ↔ Matches values required.entries) ∧
      ∀ (classNames : OrderedMap String String) (className : String)
        (others : List (String × String)),
        classNames.entries = (initial, className) :: others →
          compoundClasses initial values ⟨required, classNames⟩ =
            if holds then [className] else [] := by
  have hentries : ∀ e ∈ required.entries, ∀ value, values.get? e.1 = some value →
      ∃ p, value = .single p := fun e he => h e.1 (List.mem_map_of_mem he)
  obtain ⟨flag, hmatches, hflag⟩ := @allMet?_single initial values required.entries hentries
  refine ⟨flag.getD false, ?_, fun classNames className others hcells => ?_⟩
  · rw [← hmatches]
    cases flag <;> simp
  · have hkeys : classNames.keys = initial :: others.map Prod.fst := by
      rw [OrderedMap.keys, hcells, List.map_cons]
    rw [compoundClasses, hkeys, hflag]
    cases flag with
    | none => rfl
    | some holds =>
        simp only [Option.map_some, Option.getD_some, onsets_replicate, hcells,
          List.zip_cons_cons, List.filterMap_cons]
        rw [filterMap_zip_replicate fun _ => rfl]
        cases holds <;> rfl

def contribution (r : CompiledRecipe) (selection : Selection) (compound : CompiledCompound) :
    List String :=
  compoundClasses r.initial (r.inForce selection) compound

def withCompound (r : CompiledRecipe) (index : Nat) (compound : CompiledCompound) :
    CompiledRecipe :=
  { r with compounds := r.compounds.set index compound }

theorem withCompound_self {r : CompiledRecipe} {index : Nat} {compound : CompiledCompound}
    (h : r.compounds[index]? = some compound) : r.withCompound index compound = r := by
  obtain ⟨hlt, rfl⟩ := List.getElem?_eq_some_iff.1 h
  rw [withCompound, List.set_getElem_self]

/-- Each of these axes has a single value, its own or a default, or no value at all. -/
def ChoosesSingly (r : CompiledRecipe) (selection : Selection) (axes : List String) : Prop :=
  ∀ axis ∈ axes, ∀ value, r.valueFor? selection axis = some value → ∃ p, value = .single p

theorem ChoosesSingly.exists_contribution {r : CompiledRecipe} {selection : Selection}
    {required : OrderedMap String Primitive} (h : r.ChoosesSingly selection required.keys) :
    ∃ holds : Bool, (holds = true ↔ Matches (r.inForce selection) required.entries) ∧
      ∀ (classNames : OrderedMap String String) (className : String)
        (others : List (String × String)),
        classNames.entries = (r.initial, className) :: others →
          r.contribution selection ⟨required, classNames⟩ =
            if holds then [className] else [] := by
  apply compoundClasses_single
  intro axis haxis value hvalue
  rw [get?_inForce] at hvalue
  exact h axis haxis value hvalue

/-- A compound in its place adds its contribution between the same other classes, whatever its
form is. -/
theorem exists_className_withCompound (r : CompiledRecipe) {selection : Selection}
    (hs : selection.isEmpty = false) {index : Nat} (hi : index < r.compounds.length) :
    ∃ front back, ∀ compound,
      ((r.withCompound index compound).resolve (some selection)).className = " ".intercalate
        ((front ++ r.contribution selection compound ++ back).filter (· ≠ "")) := by
  let classes := compoundClasses r.initial (r.inForce selection)
  refine ⟨r.base :: r.tableClasses (r.inForce selection) ++ r.inlineClasses selection ++
    (r.compounds.take index).flatMap classes, (r.compounds.drop (index + 1)).flatMap classes,
    fun compound => ?_⟩
  have hcompounds : (r.compounds.set index compound).flatMap classes =
      (r.compounds.take index).flatMap classes ++ r.contribution selection compound ++
        (r.compounds.drop (index + 1)).flatMap classes := by
    rw [List.set_eq_take_append_cons_drop, if_pos hi]
    simp [contribution, classes]
  rw [resolve_className_parts hs]
  show " ".intercalate ((r.base :: r.tableClasses (r.inForce selection) ++
    r.inlineClasses selection ++ (r.compounds.set index compound).flatMap classes).filter _) = _
  rw [hcompounds]
  simp only [List.append_assoc, List.cons_append]

end CompiledRecipe

namespace Blueprint
variable {σ : Type} {plan : Blueprint}

theorem run_compileEverywhere (b : Backend σ) (debugId : Option String)
    {condition : Condition} {later : List (String × Condition)}
    (hfirst : plan.conditions.entries = (plan.initial, condition) :: later)
    (compound : CompoundRule) (s : σ) :
    ∃ (classNames : OrderedMap String String) (t : σ) (label : Option String) (first : String)
      (calls : List Call) (others : List (String × String)),
      plan.compileEverywhere b.recorded debugId compound (s, []) =
        (⟨compound.required, classNames⟩, t, .className compound.rule label first :: calls) ∧
      classNames.keys = plan.conditions.keys ∧
      classNames.entries = (plan.initial, first) :: others := by
  have hslots : ((plan.everywhereSchedule debugId 0 compound).map Prod.fst).Nodup := by
    rw [map_fst_everywhereSchedule]
    exact plan.nodup_conditionCells 0
  obtain ⟨answers, hresult, hrun⟩ :=
    (plan.fills_compileEverywhere b.recorded debugId 0 compound).exists_answers hslots (s, [])
  let labelUnder (name : String) : Option String :=
    underscoredLabel debugId ("compound_" ++ compound.name ++ "_" ++ name)
  let answerUnder (name : String) : String := (answers (.compoundUnder 0 name)).1
  have hform : plan.formUnder plan.initial condition compound.rule = compound.rule := by
    simp [formUnder]
  have hcalls := hrun.of_recorded.1
  simp only [Schedule.steps, everywhereSchedule, hfirst, List.map_cons, hform,
    List.nil_append] at hcalls
  refine ⟨plan.conditions.map fun name _ => answerUnder name, _, labelUnder plan.initial,
    answerUnder plan.initial, _, later.map fun e => (e.1, answerUnder e.1),
    Prod.ext hresult (Prod.ext rfl hcalls), OrderedMap.keys_map _ _, ?_⟩
  simp only [OrderedMap.map, hfirst, List.map_cons]

theorem Performs.exists_compact {b : Backend σ} {debugId : Option String}
    {answers : Answers Cell σ} {s t : σ} {compiled : CompiledRecipe} {calls : List Call}
    (h : plan.Performs b debugId answers s compiled t calls) {index : Nat}
    {compound : CompoundRule} (hindex : plan.compounds[index]? = some compound)
    (hregular : ∀ axis ∈ compound.required.keys, axis ∈ plan.regular.keys) :
    ∃ label className, .className compound.rule label className ∈ calls ∧
      compiled.compounds[index]? =
        some ⟨compound.required, .singleton plan.initial className⟩ := by
  have hcell : plan.CellRule b answers (.compound index) compound.rule := .compound hindex hregular
  obtain ⟨label, hmem⟩ := mem_schedule_of_cellRule debugId hcell
  refine ⟨label, (answers (.compound index)).1, ?_, ?_⟩
  · rw [h.called]
    exact List.mem_map_of_mem hmem
  · rw [h.returned, compounds_filled, hindex, Option.map_some, compoundCell, if_pos hregular]

end Blueprint

/-- How the compact form of a compound of regular axes, which has one class, stands for the
general one, which is compiled under every condition: where all required labels are chosen,
both add one class, that of the initial condition, and elsewhere both add nothing. -/
structure Blueprint.CompactAgrees (plan : Blueprint) (debugId : Option String)
    (compiled : CompiledRecipe) (calls : List Call) (selection : Selection) (index : Nat)
    (compound : CompoundRule) (className : String) (holds : Bool) : Prop where
  holds_iff : holds = true ↔
    CompiledRecipe.Matches (compiled.inForce selection) compound.required.entries
  compact : compiled.compounds[index]? =
    some ⟨compound.required, .singleton compiled.initial className⟩
  called : ∃ label, .className compound.rule label className ∈ calls
  compact_adds : ∀ form, compiled.compounds[index]? = some form →
    compiled.contribution selection form = if holds then [className] else []
  /-- Whatever names the classes, the first class is for the same rule, not wrapped. -/
  general_adds : ∀ {τ : Type} (b : Backend τ) (u : τ),
    ∃ (form : CompiledCompound) (v : τ) (label : Option String) (first : String)
      (later : List Call),
      plan.compileEverywhere b.recorded debugId compound (u, []) =
        (form, v, .className compound.rule label first :: later) ∧
      form.required = compound.required ∧ form.classNames.keys = compiled.conditions.keys ∧
      form.classNames.get? compiled.initial = some first ∧
      compiled.contribution selection form = if holds then [first] else []
  /-- What either form adds stands between the same other classes. -/
  in_place : ∃ front back,
    (compiled.resolve (some selection)).className = " ".intercalate
      ((front ++ (if holds then [className] else []) ++ back).filter (· ≠ "")) ∧
    ∀ form, ((compiled.withCompound index form).resolve (some selection)).className =
      " ".intercalate ((front ++ compiled.contribution selection form ++ back).filter (· ≠ ""))

namespace Recipe

/-- For an accepted compound of regular axes the compact form and the general one agree on every
selection with single values, if the initial condition is the first one. -/
theorem compact_compound_agrees {σ : Type} {b : Backend σ} {debugId : Option String}
    {r : Recipe} {family : RecipeDefaults} {s t : σ} {compiled : CompiledRecipe}
    {calls : List Call} {index : Nat} {compound : Compound} {selection : Selection}
    (h : r.compile family b.recorded debugId (s, []) = (.ok compiled, t, calls))
    (hfirst : (r.conditions.getD family.conditions).keys.head? =
      some (settleInitial r.initial family.initial))
    (hindex : r.compounds[index]? = some compound)
    (hregular : ∀ axis ∈ compound.required.keys, axis ∈ r.regular.keys)
    (hs : selection.isEmpty = false)
    (hsingly : compiled.ChoosesSingly selection compound.required.keys) :
    ∃ (plan : Blueprint) (rule : StyleRule) (className : String) (holds : Bool),
      plan.Restates r family ∧ compound.style = .rule rule ∧
      plan.CompactAgrees debugId compiled calls selection index ⟨compound.required, rule⟩
        className holds := by
  obtain ⟨plan, answers, hrestates, hperforms⟩ := performs_of_compile h
  have hinitial : compiled.initial = plan.initial := by rw [hperforms.returned]; rfl
  have hconditions : compiled.conditions = plan.conditions := by rw [hperforms.returned]; rfl
  rw [hrestates.compounds, List.getElem?_map] at hindex
  obtain ⟨⟨required, rule⟩, hplan, rfl⟩ := Option.map_eq_some_iff.1 hindex
  rw [hrestates.keys_regular] at hregular
  rw [← hrestates.conditions, ← hrestates.initial] at hfirst
  obtain ⟨label, className, hcall, hcompact⟩ := hperforms.exists_compact hplan hregular
  rw [← hinitial] at hcompact
  obtain ⟨holds, hmatches, hadds⟩ := hsingly.exists_contribution
  refine ⟨plan, rule, className, holds, hrestates, rfl, hmatches, hcompact, ⟨label, hcall⟩,
    fun form hform => ?_, fun {τ} b u => ?_, ?_⟩
  · obtain rfl := Option.some.inj (hcompact.symm.trans hform)
    exact hadds _ className [] rfl
  · -- the general form, compiled by any backend in any state
    obtain ⟨condition, rest, hentries⟩ := OrderedMap.exists_entries_of_head? hfirst
    obtain ⟨classNames, v, label, first, later, others, hrun, hkeys, hcells⟩ :=
      Blueprint.run_compileEverywhere b debugId hentries ⟨required, rule⟩ u
    rw [← hinitial] at hcells
    refine ⟨_, v, label, first, later, hrun, rfl, ?_, ?_, hadds classNames first others hcells⟩
    · rw [hconditions, hkeys]
    · simp [OrderedMap.get?, hcells, Entries.get?]
  · -- either form stands between the same other classes
    have hlt : index < compiled.compounds.length := (List.getElem?_eq_some_iff.1 hcompact).1
    obtain ⟨front, back, hresolve⟩ := compiled.exists_className_withCompound hs hlt
    have hself := hresolve ⟨required, .singleton compiled.initial className⟩
    rw [CompiledRecipe.withCompound_self hcompact, hadds _ className [] rfl] at hself
    exact ⟨front, back, hself, hresolve⟩

def toned : Recipe where
  base := some (.reference "card")
  regular := .ofList
    [("size", .ofList [("small", .rule ∅), ("large", .rule ∅)]),
     ("tone", .ofList [("dark", .rule ∅), ("light", .rule ∅)])]
  conditions := some (.ofList
    [("initial", Condition.always.insert .media "(min-width: 0px)"),
     ("md", Condition.always.insert .media "(min-width: 40em)"), ("lg", .always)])
  compounds := [⟨.ofList [("size", .text "small"), ("tone", .text "dark")],
    .rule ((∅ : StyleRule).set "color" (.text "red"))⟩]
  defaults := .ofList [("tone", .text "dark")]

def smallOnly : Selection := .ofList [("size", some (.single (.text "small")))]

theorem compact_compound_agrees_toned :
    ∃ (compiled : CompiledRecipe) (t : Unit × Nat) (calls : List Call) (compound : Compound),
      toned.compile {} labelling.recorded none (((), 0), []) = (.ok compiled, t, calls) ∧
      toned.compounds[0]? = some compound ∧
      compiled.ChoosesSingly smallOnly compound.required.keys ∧
      ∃ (plan : Blueprint) (rule : StyleRule) (className : String) (holds : Bool),
        plan.Restates toned {} ∧ compound.style = .rule rule ∧
        plan.CompactAgrees none compiled calls smallOnly 0 ⟨compound.required, rule⟩
          className holds := by
  have hsingly : ∀ {compiled : CompiledRecipe}, compiled.defaults = toned.defaults →
      compiled.ChoosesSingly smallOnly ["size", "tone"] := by
    intro compiled hdefaults axis haxis value hvalue
    rw [CompiledRecipe.valueFor?, hdefaults] at hvalue
    rcases List.mem_pair.1 haxis with rfl | rfl
    · exact ⟨.text "small", (Option.some.inj hvalue).symm⟩
    · exact ⟨.text "dark", (Option.some.inj hvalue).symm⟩
  refine ⟨_, _, _, _, rfl, rfl, hsingly rfl, ?_⟩
  exact compact_compound_agrees (b := labelling) (s := ((), 0)) rfl (by decide) rfl (by decide)
    (by decide) (hsingly rfl)

example :
    (toned.compile {} labelling none ((), 0)).1.toOption.map (fun compiled =>
      (compiled.resolve (some smallOnly)).className) =
        some "card tone_dark size_small _compound_size_small_tone_dark" := by
  decide

end Recipe
end StyleVariants
