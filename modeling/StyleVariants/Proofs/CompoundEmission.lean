import StyleVariants.Proofs.LabelsInForce
import Mathlib.Data.List.Forall2

/-!
# Where compounds add their classes

The conditions of a compound are walked once with a label carried along per axis and one
flag for what held before. Read without a walk, a compound is satisfied at a position if
every axis it constrains has its required label in force there, and it adds the class of a
position exactly where a run of satisfied positions begins.

The walk is also done a second time by positions, with every look-up of an axis, of a
carried label and of a class checked. No look-up fails, whatever the tables hold.
-/
namespace StyleVariants.CompiledRecipe

/-- Every constrained axis has a value that counts, with the required label in force. -/
def Satisfied (r : CompiledRecipe) (selection : Selection) (compound : CompiledCompound)
    (i : Nat) : Prop :=
  ∀ e ∈ compound.required.entries, ∃ value, r.valueFor? selection e.1 = some value ∧
    value.InForceAt r.initial compound.classNames.keys i e.2.label

def BeginsAt (r : CompiledRecipe) (selection : Selection) (compound : CompiledCompound)
    (i : Nat) : Prop :=
  r.Satisfied selection compound i ∧ (i = 0 ∨ ¬ r.Satisfied selection compound (i - 1))

/-- The classes of the positions where runs begin, each once and in order. -/
def Emits (r : CompiledRecipe) (selection : Selection) (compound : CompiledCompound)
    (classNames : List String) : Prop :=
  ∃ positions : List Nat, positions.Pairwise (· < ·) ∧
    (∀ i, i ∈ positions ↔ i < compound.classNames.size ∧ r.BeginsAt selection compound i) ∧
    List.Forall₂ (fun i className =>
      ∃ condition, compound.classNames.entries[i]? = some (condition, className))
      positions classNames

theorem getElem?_onsets (previous : Bool) (holds : List Bool) (i : Nat) :
    (onsets previous holds)[i]? =
      holds[i]?.map fun b => b && !((previous :: holds)[i]?.getD false) := by
  induction holds generalizing previous i with
  | nil => simp [onsets]
  | cons b rest ih =>
      cases i with
      | zero => simp [onsets]
      | succ i => simp [onsets, ih]

@[simp] theorem length_onsets (previous : Bool) (holds : List Bool) :
    (onsets previous holds).length = holds.length := by
  induction holds generalizing previous with
  | nil => rfl
  | cons b rest ih => simp [onsets, ih]

def onsetPositions (holds : List Bool) : List Nat := (onsets false holds).findIdxs id

theorem mem_onsetPositions {holds : List Bool} {i : Nat} :
    i ∈ onsetPositions holds ↔
      holds[i]? = some true ∧ (i = 0 ∨ ¬ holds[i - 1]? = some true) := by
  have hmem : i ∈ onsetPositions holds ↔ (onsets false holds)[i]? = some true := by
    simp [onsetPositions, List.getElem?_eq_some_iff]
  rw [hmem, getElem?_onsets]
  cases i with
  | zero => simp
  | succ i =>
      cases hi : holds[i + 1]? with
      | none => simp
      | some b =>
          have hlt : i < holds.length := by
            have := (List.getElem?_eq_some_iff.1 hi).1
            omega
          simp [List.getElem?_eq_getElem hlt]

/-- Filtering classes by flags takes the classes at the positions of the flags that are set;
`front` is what was passed already. -/
theorem forall₂_findIdxs_filterMap (front entries : List (String × String)) {flags : List Bool}
    (hl : flags.length = entries.length) :
    List.Forall₂ (fun i className => ∃ condition,
        (front ++ entries)[i]? = some (condition, className))
      (flags.findIdxs id front.length)
      ((entries.zip flags).filterMap fun (e, begins) => if begins then some e.2 else none) := by
  induction entries generalizing front flags with
  | nil =>
      obtain rfl := List.length_eq_zero_iff.1 hl
      exact .nil
  | cons e rest ih =>
      cases flags with
      | nil => simp at hl
      | cons b flags =>
          have hrest := @ih (front ++ [e]) flags (by simpa using hl)
          simp only [List.append_assoc, List.singleton_append, List.length_append,
            List.length_singleton] at hrest
          cases b with
          | false => simpa [List.findIdxs_cons] using hrest
          | true =>
              simp only [List.findIdxs_cons, id, if_true, List.zip_cons_cons]
              exact .cons ⟨e.1, by simp⟩ hrest

theorem forall₂_onsetPositions {classNames : OrderedMap String String} {holds : List Bool}
    (hl : holds.length = classNames.keys.length) :
    List.Forall₂ (fun i className =>
        ∃ condition, classNames.entries[i]? = some (condition, className))
      (onsetPositions holds)
      ((classNames.entries.zip (onsets false holds)).filterMap fun (e, begins) =>
        if begins then some e.2 else none) := by
  have hflags : (onsets false holds).length = classNames.entries.length := by
    rw [length_onsets, hl, OrderedMap.keys, List.length_map]
  exact forall₂_findIdxs_filterMap [] classNames.entries hflags

theorem getElem?_zipWith_and {holds others : List Bool} {i : Nat} :
    (List.zipWith (· && ·) holds others)[i]? = some true ↔
      holds[i]? = some true ∧ others[i]? = some true := by
  rw [List.getElem?_zipWith]
  cases holds[i]? <;> cases others[i]? <;> simp

@[simp] theorem length_met (initial : String) (conditions : List String) (required : Primitive)
    (value : SelectionValue) :
    (met initial conditions required value).length = conditions.length := by
  simp [met]

theorem getElem?_met {initial : String} {conditions : List String} {required : Primitive}
    {value : SelectionValue} {i : Nat} (hi : i < conditions.length) :
    (met initial conditions required value)[i]? = some true ↔
      value.InForceAt initial conditions i required.label := by
  rw [← SelectionValue.fill_eq_some_iff hi, met, List.getElem?_map]
  simp

theorem allMet?_eq_none {initial : String} {values : OrderedMap String SelectionValue}
    {conditions : List String} {entries : List (String × Primitive)}
    (h : ∃ e ∈ entries, values.get? e.1 = none) :
    allMet? initial values conditions entries = none := by
  induction entries with
  | nil => simp at h
  | cons e rest ih =>
      cases hv : values.get? e.1 with
      | none => simp [allMet?, hv]
      | some value =>
          have hrest : ∃ e ∈ rest, values.get? e.1 = none := by simpa [hv] using h
          simp [allMet?, ih hrest]

theorem allMet?_spec (initial : String) {values : OrderedMap String SelectionValue}
    (conditions : List String) {entries : List (String × Primitive)}
    (h : ∀ e ∈ entries, ∃ value, values.get? e.1 = some value) :
    ∃ holds, allMet? initial values conditions entries = some holds ∧
      holds.length = conditions.length ∧
      ∀ i, holds[i]? = some true ↔ i < conditions.length ∧
        ∀ e ∈ entries, ∃ value, values.get? e.1 = some value ∧
          value.InForceAt initial conditions i e.2.label := by
  induction entries with
  | nil =>
      refine ⟨conditions.map fun _ => true, rfl, by simp, fun i => ?_⟩
      simp [List.getElem?_replicate]
  | cons e rest ih =>
      obtain ⟨value, hv⟩ := h e (by simp)
      obtain ⟨others, ho, hlength, hothers⟩ := ih fun e he => h e (by simp [he])
      refine ⟨List.zipWith (· && ·) (met initial conditions e.2 value) others, ?_, ?_, ?_⟩
      · simp [allMet?, hv, ho]
      · simp [hlength]
      · intro i
        rw [getElem?_zipWith_and, hothers, List.forall_mem_cons]
        constructor
        · rintro ⟨hmet, hi, hrest⟩
          exact ⟨hi, ⟨value, hv, (getElem?_met hi).1 hmet⟩, hrest⟩
        · rintro ⟨hi, ⟨other, hother, hforce⟩, hrest⟩
          obtain rfl := Option.some.inj (hv.symm.trans hother)
          exact ⟨(getElem?_met hi).2 hforce, hi, hrest⟩

def requirement? (initial : String) (values : OrderedMap String SelectionValue)
    (conditions : List String) (e : String × Primitive) :
    Option (String × List (Option String)) :=
  (values.get? e.1).map fun value => (e.2.label, value.fill initial none conditions)

/-- Whether all requirements are met at a position; none if it is out of range for one. -/
def metAt? (filled : List (String × List (Option String))) (i : Nat) : Option Bool :=
  (filled.mapM fun e => e.2[i]?.map (· == some e.1)).map (·.all id)

/-- The classes of a compound with every look-up checked: none if an axis, a position among
labels or a position among classes is not there. -/
def compoundClassesByPosition? (initial : String) (values : OrderedMap String SelectionValue)
    (compound : CompiledCompound) : Option (List String) :=
  if compound.required.keys.all values.contains then do
    let conditions := compound.classNames.keys
    let filled ← compound.required.entries.mapM (requirement? initial values conditions)
    let holds ← (List.range conditions.length).mapM (metAt? filled)
    (onsetPositions holds).mapM fun i => compound.classNames.entries[i]?.map Prod.snd
  else some []

theorem mapM_eq_some {α β : Type} {f : α → Option β} {as : List α} {bs : List β}
    (h : List.Forall₂ (fun a b => f a = some b) as bs) : as.mapM f = some bs := by
  induction h with
  | nil => rfl
  | cons ha _ ih => simp [List.mapM_cons, ha, ih]

theorem metAt?_eq_some {initial : String} {values : OrderedMap String SelectionValue}
    {conditions : List String} {entries : List (String × Primitive)} {i : Nat}
    (hi : i < conditions.length)
    {filled : List (String × List (Option String))}
    (h : List.Forall₂ (fun e f => requirement? initial values conditions e = some f)
      entries filled) :
    ∃ flag, metAt? filled i = some flag ∧ (flag = true ↔
      ∀ e ∈ entries, ∃ value, values.get? e.1 = some value ∧
        value.InForceAt initial conditions i e.2.label) := by
  induction h with
  | nil => exact ⟨true, rfl, by simp⟩
  | @cons e f rest others he _ ih =>
      obtain ⟨flag, hflag, hrest⟩ := ih
      obtain ⟨value, hv, rfl⟩ := Option.map_eq_some_iff.1 he
      obtain ⟨flags, hflags, rfl⟩ := Option.map_eq_some_iff.1 hflag
      have hlt : i < (value.fill initial none conditions).length := by simpa using hi
      refine ⟨((value.fill initial none conditions)[i] == some e.2.label) && flags.all id, ?_, ?_⟩
      · simp [metAt?, List.mapM_cons, hflags, List.getElem?_eq_getElem hlt]
      · rw [Bool.and_eq_true, hrest, List.forall_mem_cons, beq_iff_eq]
        have hfill : (value.fill initial none conditions)[i]? = some (some e.2.label) ↔
            value.InForceAt initial conditions i e.2.label :=
          SelectionValue.fill_eq_some_iff hi
        rw [List.getElem?_eq_getElem hlt, Option.some.injEq] at hfill
        rw [hfill]
        simp [hv]

theorem exists_requirements {initial : String} {values : OrderedMap String SelectionValue}
    (conditions : List String) {entries : List (String × Primitive)}
    (h : ∀ e ∈ entries, ∃ value, values.get? e.1 = some value) :
    ∃ filled, List.Forall₂ (fun e f => requirement? initial values conditions e = some f)
      entries filled := by
  refine ⟨entries.map fun e =>
    (e.2.label, ((values.get? e.1).map (·.fill initial none conditions)).getD []), ?_⟩
  rw [List.forall₂_map_right_iff, List.forall₂_same]
  intro e he
  obtain ⟨value, hv⟩ := h e he
  simp [requirement?, hv]

theorem forall₂_metAt? {initial : String} {values : OrderedMap String SelectionValue}
    {conditions : List String} {entries : List (String × Primitive)}
    {filled : List (String × List (Option String))} {holds : List Bool}
    (hf : List.Forall₂ (fun e f => requirement? initial values conditions e = some f)
      entries filled)
    (hl : holds.length = conditions.length)
    (h : ∀ i, holds[i]? = some true ↔ i < conditions.length ∧
      ∀ e ∈ entries, ∃ value, values.get? e.1 = some value ∧
        value.InForceAt initial conditions i e.2.label) :
    List.Forall₂ (fun i flag => metAt? filled i = some flag)
      (List.range conditions.length) holds := by
  rw [List.forall₂_iff_get]
  refine ⟨by rw [List.length_range, hl], fun i hi hi' => ?_⟩
  have hlt : i < conditions.length := by rwa [List.length_range] at hi
  obtain ⟨flag, hflag, hiff⟩ := metAt?_eq_some hlt hf
  have hsame : flag = true ↔ holds[i] = true := by
    rw [hiff, ← Option.some.injEq, ← List.getElem?_eq_getElem hi', h]
    exact (and_iff_right hlt).symm
  simp only [List.get_eq_getElem, List.getElem_range]
  rw [hflag, Bool.eq_iff_iff.2 hsame]

/-- No look-up of the walk by positions fails, and it adds the same classes. -/
theorem compoundClassesByPosition?_eq (initial : String)
    (values : OrderedMap String SelectionValue) (compound : CompiledCompound) :
    compoundClassesByPosition? initial values compound =
      some (compoundClasses initial values compound) := by
  by_cases hall : compound.required.keys.all values.contains
  · have hvalues : ∀ e ∈ compound.required.entries, ∃ value, values.get? e.1 = some value := by
      intro e he
      have hc := List.all_eq_true.1 hall e.1 (List.mem_map_of_mem he)
      exact Option.isSome_iff_exists.1 hc
    obtain ⟨holds, hmet, hlength, hspec⟩ :=
      allMet?_spec initial compound.classNames.keys hvalues
    obtain ⟨filled, hfilled⟩ := exists_requirements compound.classNames.keys hvalues
    have hholds := forall₂_metAt? hfilled hlength hspec
    simp only [compoundClassesByPosition?, hall, if_true, mapM_eq_some hfilled,
      mapM_eq_some hholds, compoundClasses, hmet, Option.bind_eq_bind, Option.bind_some]
    refine mapM_eq_some ((forall₂_onsetPositions hlength).imp fun i className h => ?_)
    obtain ⟨condition, hc⟩ := h
    rw [hc]
    rfl
  · have hnone : ∃ e ∈ compound.required.entries, values.get? e.1 = none := by
      simpa [OrderedMap.keys, OrderedMap.contains] using hall
    simp [compoundClassesByPosition?, hall, compoundClasses, allMet?_eq_none hnone]

theorem compoundClasses_emits {r : CompiledRecipe} {selection : Selection}
    {compound : CompiledCompound}
    (h : ∀ axis ∈ compound.required.keys, (r.valueFor? selection axis).isSome) :
    r.Emits selection compound
      (compoundClasses r.initial (r.inForce selection) compound) := by
  have hvalues : ∀ e ∈ compound.required.entries,
      ∃ value, (r.inForce selection).get? e.1 = some value := by
    intro e he
    rw [get?_inForce]
    exact Option.isSome_iff_exists.1 (h e.1 (List.mem_map_of_mem he))
  obtain ⟨holds, hmet, hlength, hspec⟩ :=
    allMet?_spec r.initial compound.classNames.keys hvalues
  have hsatisfied : ∀ i, holds[i]? = some true ↔
      i < compound.classNames.size ∧ r.Satisfied selection compound i := by
    intro i
    rw [hspec]
    simp [Satisfied, get?_inForce, OrderedMap.keys, OrderedMap.size]
  refine ⟨onsetPositions holds, List.pairwise_findIdxs, fun i => ?_, ?_⟩
  · rw [mem_onsetPositions, hsatisfied, hsatisfied, BeginsAt, and_assoc]
    have hprevious : i < compound.classNames.size → i - 1 < compound.classNames.size := by
      omega
    tauto
  · rw [compoundClasses, hmet]
    exact forall₂_onsetPositions hlength

/-- What a compound adds to a resolved selection: the classes where runs begin if all its
axes have a value that counts, otherwise none; and no look-up on the way is out of range. -/
structure Contributes (r : CompiledRecipe) (selection : Selection)
    (compound : CompiledCompound) (classNames : List String) : Prop where
  emits : (∀ axis ∈ compound.required.keys, (r.valueFor? selection axis).isSome) →
    r.Emits selection compound classNames
  nothing : (∃ axis ∈ compound.required.keys, r.valueFor? selection axis = none) →
    classNames = []
  in_range : compoundClassesByPosition? r.initial (r.inForce selection) compound =
    some classNames

theorem compoundClasses_contributes (r : CompiledRecipe) (selection : Selection)
    (compound : CompiledCompound) :
    r.Contributes selection compound
      (compoundClasses r.initial (r.inForce selection) compound) where
  emits := compoundClasses_emits
  nothing := by
    rintro ⟨axis, haxis, hnone⟩
    obtain ⟨e, he, rfl⟩ := List.mem_map.1 haxis
    have hmissing : ∃ e ∈ compound.required.entries,
        (r.inForce selection).get? e.1 = none := ⟨e, he, by rw [get?_inForce, hnone]⟩
    rw [compoundClasses, allMet?_eq_none hmissing]
  in_range := compoundClassesByPosition?_eq _ _ _

/-- The classes of a resolved selection end in what its compounds contribute, compound by
compound; empty class names are dropped at last. -/
theorem resolve_className_compounds (r : CompiledRecipe) {selection : Selection}
    (hs : selection.isEmpty = false) :
    ∃ emitted : List (List String),
      (r.resolve (some selection)).className = " ".intercalate
        ((r.base :: r.tableClasses (r.inForce selection) ++
          (r.inlineInForce (r.inForce selection)).map (·.1.className) ++
          emitted.flatten).filter (· ≠ "")) ∧
      List.Forall₂ (r.Contributes selection) r.compounds emitted := by
  refine ⟨r.compounds.map (compoundClasses r.initial (r.inForce selection)), ?_, ?_⟩
  · simp only [resolve, hs, resolveInForce, List.flatMap_def, Bool.false_eq_true, if_false]
  · rw [List.forall₂_map_right_iff, List.forall₂_same]
    exact fun compound _ => r.compoundClasses_contributes selection compound

def bordered : CompiledRecipe where
  initial := "initial"
  conditions := .ofList [("initial", .always), ("md", .always), ("lg", .always)]
  base := "stack"
  regular := ∅
  responsive := ∅
  inline := ∅
  compounds := [⟨.ofList [("size", .text "small"), ("color", .text "blue")],
    .ofList [("initial", "b0"), ("md", "b1"), ("lg", "b2")]⟩]
  defaults := .ofList [("size", .text "small")]

/-- The color leaves the required one at the second condition and comes back at the third. -/
def brokenRun : Selection := .ofList [("color", some (.ofEntries
  [("initial", .text "blue"), ("md", .text "red"), ("lg", .text "blue")]))]

theorem resolve_className_compounds_brokenRun :
    brokenRun.isEmpty = false ∧ ∃ emitted : List (List String),
      (bordered.resolve (some brokenRun)).className = " ".intercalate
        ((bordered.base :: bordered.tableClasses (bordered.inForce brokenRun) ++
          (bordered.inlineInForce (bordered.inForce brokenRun)).map (·.1.className) ++
          emitted.flatten).filter (· ≠ "")) ∧
      List.Forall₂ (bordered.Contributes brokenRun) bordered.compounds emitted :=
  ⟨by decide, resolve_className_compounds bordered (by decide)⟩

example : (bordered.resolve (some brokenRun)).className = "stack b0 b2" := by decide

end StyleVariants.CompiledRecipe
