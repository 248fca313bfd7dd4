import StyleVariants.Proofs.CompactCompounds
import StyleVariants.Proofs.EquivalentSelections
import Mathlib.Data.List.Flatten

/-!
# Regular axes at the initial condition

The options of a regular axis have classes under the initial condition only, and so have the
compounds of regular axes. What a selection gives such an axis under another condition is not
seen there. A compound that mixes the axis with another one is walked along all conditions, with
whatever labels the selection gives. It alone can see more than the initial condition, and with
two conditions it does: there is always a selection that shows it.
-/
namespace StyleVariants

section Only
variable {κ α : Type} [DecidableEq κ]

def OrderedMap.only (m : OrderedMap κ α) (key : κ) : OrderedMap κ α where
  entries := m.entries.filter fun e => e.1 = key
  nodup_keys := (List.filter_sublist.map Prod.fst).nodup m.nodup_keys

theorem OrderedMap.get?_only (m : OrderedMap κ α) (key k : κ) :
    (m.only key).get? k = if k = key then m.get? k else none := by
  apply Option.ext
  intro value
  by_cases hk : k = key <;> simp [get?_eq_some_iff, only, hk]

end Only

namespace SelectionValue

/-- A value per condition without what it gives under other conditions. -/
def narrowed (initial : String) : SelectionValue → SelectionValue
  | single p => single p
  | perCondition values => perCondition (values.only initial)

theorem labelAt?_narrowed (value : SelectionValue) (initial condition : String) :
    (value.narrowed initial).labelAt? initial condition =
      if condition = initial then value.labelAt? initial condition else none := by
  cases value with
  | single p => by_cases hc : condition = initial <;> simp [narrowed, labelAt?, hc]
  | perCondition values =>
      by_cases hc : condition = initial <;>
        simp [narrowed, labelAt?, OrderedMap.get?_only, hc]

theorem given_narrowed (value : SelectionValue) (initial : String) :
    (value.narrowed initial).given initial =
      (value.given initial).filter fun e => e.1 = initial := by
  cases value with
  | single p => simp [narrowed, given]
  | perCondition values =>
      simp only [narrowed, given, OrderedMap.only, List.filterMap_filter, List.filter_filterMap]
      apply List.filterMap_congr
      rintro ⟨condition, choice⟩ _
      cases choice <;> simp [Option.filter]

end SelectionValue

namespace CompiledRecipe

/-- The selection without what it gives one axis under other conditions than the initial one. -/
def narrowed (r : CompiledRecipe) (selection : Selection) (axis : String) : Selection :=
  selection.map fun other choice =>
    if other = axis then choice.map (·.narrowed r.initial) else choice

variable {r : CompiledRecipe} {selection : Selection} {axis : String}

theorem isEmpty_narrowed (hs : selection.isEmpty = false) :
    (r.narrowed selection axis).isEmpty = false := by
  simpa [narrowed, OrderedMap.map, OrderedMap.isEmpty] using hs

theorem valueFor?_narrowed (r : CompiledRecipe) (selection : Selection) (axis other : String) :
    r.valueFor? (r.narrowed selection axis) other = (r.valueFor? selection other).map fun value =>
      if other = axis then value.narrowed r.initial else value := by
  have hdefault : ((r.defaults.get? other).map SelectionValue.single).map
      (SelectionValue.narrowed r.initial) = (r.defaults.get? other).map .single := by
    cases r.defaults.get? other <;> rfl
  by_cases haxis : other = axis
  · simp only [valueFor?, narrowed, OrderedMap.get?_map, haxis, if_true, Option.map_or]
    rw [← haxis, hdefault]
    rcases selection.get? other with _ | _ | value <;> rfl
  · simp [valueFor?, narrowed, haxis]

theorem axesInForce_narrowed (r : CompiledRecipe) (selection : Selection) (axis : String) :
    r.axesInForce (r.narrowed selection axis) = r.axesInForce selection := by
  have hsome : ∀ e : String × Option SelectionValue,
      (if e.1 = axis then e.2.map (·.narrowed r.initial) else e.2).isSome = e.2.isSome := by
    intro e
    split <;> simp
  simp only [axesInForce, narrowed, OrderedMap.map, List.filter_map, List.map_map,
    Function.comp_def, hsome]

/-- A compound that constrains the axis together with one that is not regular. -/
def Mixes (r : CompiledRecipe) (axis : String) (compound : CompiledCompound) : Prop :=
  axis ∈ compound.required.keys ∧ ∃ other ∈ compound.required.keys, other ∉ r.regular.keys

/-- An axis with classes of the initial condition only, also in the compounds that do not mix it
with others. -/
structure RegularAxis (r : CompiledRecipe) (axis : String) : Prop where
  initial_of_hasCell : ∀ {label condition className},
    r.HasCell axis label condition className → condition = r.initial
  not_inline : axis ∉ r.inline.keys
  initial_of_compound : ∀ compound ∈ r.compounds, axis ∈ compound.required.keys →
    ¬ r.Mixes axis compound → ∀ condition ∈ compound.classNames.keys, condition = r.initial

theorem RegularAxis.tableClasses_narrowed (h : r.RegularAxis axis) (selection : Selection) :
    r.tableClasses (r.inForce (r.narrowed selection axis)) =
      r.tableClasses (r.inForce selection) := by
  rw [tableClasses_inForce, tableClasses_inForce, axesInForce_narrowed]
  apply List.flatMap_congr
  intro other _
  rw [classesFor_eq, classesFor_eq, givenFor?, givenFor?, valueFor?_narrowed]
  cases r.valueFor? selection other with
  | none => rfl
  | some value =>
      by_cases haxis : other = axis
      · subst haxis
        simp only [Option.map_some, if_true, Option.getD_some, SelectionValue.given_narrowed,
          List.filterMap_filter]
        apply List.filterMap_congr
        intro e _
        -- an entry for another condition has no cell
        cases hcell : r.cellOf? other e.2 e.1 with
        | none => simp
        | some className => simp [h.initial_of_hasCell (cellOf?_eq_some_iff.1 hcell)]
      · simp [haxis]

theorem valueFor?_narrowed_of_ne {other : String} (hne : other ≠ axis) :
    r.valueFor? (r.narrowed selection axis) other = r.valueFor? selection other := by
  simp [valueFor?_narrowed, hne]

theorem RegularAxis.inlineClasses_narrowed (h : r.RegularAxis axis) (selection : Selection) :
    r.inlineClasses (r.narrowed selection axis) = r.inlineClasses selection := by
  unfold inlineClasses
  congr 1
  apply List.filter_congr
  intro e he
  have hne := OrderedMap.ne_of_not_mem_keys h.not_inline he
  rw [valueFor?_narrowed_of_ne hne]

theorem RegularAxis.written_narrowed (h : r.RegularAxis axis) (selection : Selection) :
    r.written (r.valueFor? (r.narrowed selection axis)) = r.written (r.valueFor? selection) := by
  apply List.filterMap_congr
  intro slot hslot
  obtain ⟨e, he, hmem⟩ := List.mem_flatMap.1 hslot
  obtain ⟨p, -, rfl⟩ := List.mem_map.1 hmem
  have hne := OrderedMap.ne_of_not_mem_keys h.not_inline he
  rw [labelIn?, labelIn?, valueFor?_narrowed_of_ne hne]

theorem contribution_narrowed_of_not_mem {compound : CompiledCompound}
    (h : axis ∉ compound.required.keys) :
    r.contribution (r.narrowed selection axis) compound = r.contribution selection compound := by
  unfold contribution compoundClasses
  rw [allMet?_congr]
  intro e he
  have hne := OrderedMap.ne_of_not_mem_keys h he
  rw [get?_inForce, get?_inForce, valueFor?_narrowed_of_ne hne]

theorem contribution_narrowed_of_initial {compound : CompiledCompound}
    (h : ∀ condition ∈ compound.classNames.keys, condition = r.initial) :
    r.contribution (r.narrowed selection axis) compound = r.contribution selection compound := by
  unfold contribution compoundClasses
  rw [allMet?_congr]
  intro e _
  rw [get?_inForce, get?_inForce, valueFor?_narrowed]
  cases r.valueFor? selection e.1 with
  | none => rfl
  | some value =>
      rw [Option.map_some, Option.map_some, Option.map_some, Option.some.injEq]
      apply SelectionValue.fill_congr
      intro condition hcondition
      obtain rfl := h condition hcondition
      split
      · rw [SelectionValue.labelAt?_narrowed, if_pos rfl]
      · rfl

theorem Emits.mem_iff {compound : CompiledCompound} {classNames : List String}
    (h : r.Emits selection compound classNames) {className : String} :
    className ∈ classNames ↔ ∃ i condition,
      compound.classNames.entries[i]? = some (condition, className) ∧
      r.BeginsAt selection compound i := by
  obtain ⟨positions, -, hpositions, hclasses⟩ := h
  obtain ⟨hlength, hget⟩ := List.forall₂_iff_get.1 hclasses
  constructor
  · intro hmem
    obtain ⟨k, hk, rfl⟩ := List.getElem_of_mem hmem
    have hk' : k < positions.length := hlength ▸ hk
    obtain ⟨condition, hentry⟩ := hget k hk' hk
    have hbegins := ((hpositions _).1 (List.getElem_mem hk')).2
    exact ⟨positions[k], condition, hentry, hbegins⟩
  · intro hshown
    obtain ⟨i, condition, hentry, hbegins⟩ := hshown
    have hi : i < compound.classNames.size := (List.getElem?_eq_some_iff.1 hentry).1
    obtain ⟨k, hk, rfl⟩ := List.getElem_of_mem ((hpositions i).2 ⟨hi, hbegins⟩)
    have hk' : k < classNames.length := hlength ▸ hk
    obtain ⟨condition', hentry'⟩ := hget k hk hk'
    have hname := (Prod.mk.inj (Option.some.inj (hentry.symm.trans hentry'))).2
    exact hname ▸ List.getElem_mem hk'

theorem mem_contribution_iff {compound : CompiledCompound} {className : String} :
    className ∈ r.contribution selection compound ↔ ∃ i condition,
      compound.classNames.entries[i]? = some (condition, className) ∧
      r.BeginsAt selection compound i := by
  have hadds := r.compoundClasses_contributes selection compound
  by_cases hvalues : ∀ axis ∈ compound.required.keys, (r.valueFor? selection axis).isSome
  · exact (hadds.emits hvalues).mem_iff
  · have hmissing : ∃ axis ∈ compound.required.keys, r.valueFor? selection axis = none := by
      simpa using hvalues
    have hnothing : r.contribution selection compound = [] := hadds.nothing hmissing
    rw [hnothing]
    constructor
    · intro hmem
      cases hmem
    · intro hshown
      obtain ⟨i, condition, -, hsatisfied, -⟩ := hshown
      obtain ⟨axis, haxis, hnone⟩ := hmissing
      obtain ⟨e, he, rfl⟩ := List.mem_map.1 haxis
      obtain ⟨value, hvalue, -⟩ := hsatisfied e he
      rw [hnone] at hvalue
      cases hvalue

def chosenAt (condition : String) (required : OrderedMap String Primitive) : Selection :=
  required.map fun _ p => some (.perCondition (.singleton condition (some p)))

theorem valueFor?_chosenAt {condition : String} {required : OrderedMap String Primitive}
    {e : String × Primitive} (he : e ∈ required.entries) :
    r.valueFor? (chosenAt condition required) e.1 =
      some (.perCondition (.singleton condition (some e.2))) := by
  simp [valueFor?, chosenAt, OrderedMap.get?_eq_some_iff.2 he]

theorem gives_singleton_iff {initial condition other label : String} {p : Primitive} :
    (SelectionValue.perCondition (.singleton condition (some p))).Gives initial other label ↔
      condition = other ∧ p.label = label := by
  rw [← SelectionValue.labelAt?_eq_some_iff]
  by_cases hc : condition = other <;> simp [SelectionValue.labelAt?, hc]

theorem beginsAt_chosenAt {compound : CompiledCompound} {condition : String} {i : Nat}
    (hi : compound.classNames.keys[i]? = some condition) (haxis : axis ∈ compound.required.keys) :
    r.BeginsAt (chosenAt condition compound.required) compound i := by
  constructor
  · intro e he
    refine ⟨_, valueFor?_chosenAt he, i, condition, Nat.le_refl i, hi,
      gives_singleton_iff.2 ⟨rfl, rfl⟩, ?_⟩
    intro k later other hlt hle
    omega
  · by_cases hzero : i = 0
    · exact .inl hzero
    · right
      intro hsatisfied
      obtain ⟨e, he, -⟩ := List.mem_map.1 haxis
      obtain ⟨value, hvalue, j, other, hj⟩ := hsatisfied e he
      rw [valueFor?_chosenAt he, Option.some.injEq] at hvalue
      subst hvalue
      obtain ⟨rfl, -⟩ := gives_singleton_iff.1 hj.gives
      have hsame : j = i := by
        obtain ⟨hlt, hget⟩ := List.getElem?_eq_some_iff.1 hj.condition_at
        obtain ⟨hlt', hget'⟩ := List.getElem?_eq_some_iff.1 hi
        exact (List.Nodup.getElem_inj_iff compound.classNames.nodup_keys).1 (hget.trans hget'.symm)
      have hle := hj.le
      omega

theorem contribution_narrowed_chosenAt {compound : CompiledCompound} {condition : String}
    {required : OrderedMap String Primitive} (hne : condition ≠ r.initial)
    (hrequired : axis ∈ required.keys) (haxis : axis ∈ compound.required.keys) :
    r.contribution (r.narrowed (chosenAt condition required) axis) compound = [] := by
  rw [List.eq_nil_iff_forall_not_mem]
  intro className hmem
  obtain ⟨i, other, -, hsatisfied, -⟩ := mem_contribution_iff.1 hmem
  obtain ⟨e, he, rfl⟩ := List.mem_map.1 haxis
  obtain ⟨f, hf, hkey⟩ := List.mem_map.1 hrequired
  obtain ⟨value, hvalue, j, given, hj⟩ := hsatisfied e he
  rw [valueFor?_narrowed, ← hkey, valueFor?_chosenAt hf, Option.map_some, if_pos rfl,
    Option.some.injEq] at hvalue
  subst hvalue
  have hlabel := SelectionValue.labelAt?_eq_some_iff.2 hj.gives
  rw [SelectionValue.labelAt?_narrowed] at hlabel
  split at hlabel
  · next hinitial =>
    obtain ⟨heq, -⟩ := gives_singleton_iff.1 (SelectionValue.labelAt?_eq_some_iff.1 hlabel)
    exact hne (heq.trans hinitial)
  · cases hlabel

theorem mem_contribution_chosenAt {compound : CompiledCompound} {condition className : String}
    (hclass : compound.classNames.get? condition = some className)
    (haxis : axis ∈ compound.required.keys) :
    className ∈ r.contribution (chosenAt condition compound.required) compound := by
  obtain ⟨i, hi⟩ := List.mem_iff_getElem?.1 (OrderedMap.get?_eq_some_iff.1 hclass)
  have hkey : compound.classNames.keys[i]? = some condition := by
    rw [OrderedMap.keys, List.getElem?_map, hi, Option.map_some]
  exact mem_contribution_iff.2 ⟨i, condition, hi, beginsAt_chosenAt hkey haxis⟩

/-- Narrowing such a selection makes no compound add anything new. -/
theorem contribution_narrowed_chosenAt_sublist {condition : String}
    {required : OrderedMap String Primitive} (hne : condition ≠ r.initial)
    (hrequired : axis ∈ required.keys) (compound : CompiledCompound) :
    (r.contribution (r.narrowed (chosenAt condition required) axis) compound).Sublist
      (r.contribution (chosenAt condition required) compound) := by
  by_cases haxis : axis ∈ compound.required.keys
  · rw [contribution_narrowed_chosenAt hne hrequired haxis]
    exact List.nil_sublist _
  · rw [contribution_narrowed_of_not_mem haxis]

/-- Removing what a selection gives the axis under other conditions than the initial one never
changes what it resolves to. -/
def ResolvesInitially (r : CompiledRecipe) (axis : String) : Prop :=
  ∀ selection values, selection.get? axis = some (some (.perCondition values)) →
    r.resolve (some (r.narrowed selection axis)) = r.resolve (some selection)

def room : List String → Nat
  | [] => 0
  | name :: rest => name.length + 1 + room rest

theorem room_append (names others : List String) :
    room (names ++ others) = room names + room others := by
  induction names with
  | nil => simp [room]
  | cons name rest ih =>
      simp only [List.cons_append, room, ih]
      omega

theorem room_le_of_sublist {names others : List String} (h : names.Sublist others) :
    room names ≤ room others := by
  induction h with
  | slnil => exact Nat.le_refl _
  | cons name _ ih =>
      simp only [room]
      omega
  | cons_cons name _ ih =>
      simp only [room]
      omega

theorem length_intercalate (name : String) (others : List String) :
    (" ".intercalate (name :: others)).length + 1 = room (name :: others) := by
  induction others generalizing name with
  | nil => simp [room]
  | cons other rest ih =>
      have hrest := ih other
      simp only [room, String.intercalate_cons_cons, String.length_append] at hrest ⊢
      have hblank : " ".length = 1 := rfl
      omega

/-- Names that take more room are joined to a longer text. -/
theorem intercalate_ne_of_room_lt {names others : List String} (hne : ∀ name ∈ others, name ≠ "")
    (h : room names < room others) : " ".intercalate names ≠ " ".intercalate others := by
  intro heq
  cases others with
  | nil => simp [room] at h
  | cons other rest =>
      have hlength := length_intercalate other rest
      cases names with
      | nil =>
          have hempty : (" ".intercalate (other :: rest)).length = 0 := by
            rw [← heq]
            rfl
          have hother : other.length ≠ 0 := by
            have := hne other List.mem_cons_self
            simpa using this
          simp only [room] at hlength
          omega
      | cons name names =>
          have hshort := length_intercalate name names
          rw [heq] at hshort
          omega

theorem room_flatMap_lt {compounds : List CompiledCompound} {compound : CompiledCompound}
    {few many : CompiledCompound → List String} {className : String}
    (hcompound : compound ∈ compounds) (hless : ∀ other, (few other).Sublist (many other))
    (hlost : few compound = []) (hshown : className ∈ many compound) (hnamed : className ≠ "") :
    room ((compounds.flatMap few).filter (· ≠ "")) <
      room ((compounds.flatMap many).filter (· ≠ "")) := by
  obtain ⟨before, after, rfl⟩ := List.append_of_mem hcompound
  have hbefore := room_le_of_sublist
    ((List.Sublist.flatMap_right before fun other _ => hless other).filter (· ≠ ""))
  have hafter := room_le_of_sublist
    ((List.Sublist.flatMap_right after fun other _ => hless other).filter (· ≠ ""))
  have hname : [className].Sublist ((many compound).filter (· ≠ "")) :=
    List.singleton_sublist.2 (List.mem_filter.2 ⟨hshown, by simpa using hnamed⟩)
  have hroom := room_le_of_sublist hname
  simp only [room] at hroom
  simp only [List.flatMap_append, List.flatMap_cons, hlost, List.nil_append, List.filter_append,
    room_append]
  omega

/-- A resolved selection and the narrowed one: the same custom properties and the same classes,
except for what is added by compounds that mix the axis with others. -/
structure AlikeButMixed (r : CompiledRecipe) (selection : Selection) (axis : String) : Prop where
  style : (r.resolve (some (r.narrowed selection axis))).style = (r.resolve (some selection)).style
  classes : ∃ front,
    (r.resolve (some selection)).className = " ".intercalate
      ((front ++ r.compounds.flatMap (r.contribution selection)).filter (· ≠ "")) ∧
    (r.resolve (some (r.narrowed selection axis))).className = " ".intercalate
      ((front ++ r.compounds.flatMap (r.contribution (r.narrowed selection axis))).filter
        (· ≠ ""))
  unmixed : ∀ compound ∈ r.compounds, ¬ r.Mixes axis compound →
    r.contribution (r.narrowed selection axis) compound = r.contribution selection compound

theorem RegularAxis.alikeButMixed (h : r.RegularAxis axis) (hs : selection.isEmpty = false) :
    r.AlikeButMixed selection axis where
  style := by
    rw [resolve_style_written hs, resolve_style_written (isEmpty_narrowed hs),
      h.written_narrowed]
  classes := by
    refine ⟨r.base :: r.tableClasses (r.inForce selection) ++ r.inlineClasses selection,
      resolve_className_parts hs, ?_⟩
    rw [resolve_className_parts (isEmpty_narrowed hs), h.tableClasses_narrowed,
      h.inlineClasses_narrowed]
    rfl
  unmixed := by
    intro compound hcompound hunmixed
    by_cases haxis : axis ∈ compound.required.keys
    · exact contribution_narrowed_of_initial (h.initial_of_compound compound hcompound haxis hunmixed)
    · exact contribution_narrowed_of_not_mem haxis

theorem RegularAxis.resolvesInitially (h : r.RegularAxis axis)
    (hcompounds : ∀ compound ∈ r.compounds, r.Mixes axis compound →
      ∀ condition ∈ compound.classNames.keys, condition = r.initial) :
    r.ResolvesInitially axis := by
  intro selection values hvalues
  have halike := h.alikeButMixed (OrderedMap.isEmpty_of_get? hvalues)
  obtain ⟨front, hclass, hnarrowed⟩ := halike.classes
  apply Resolution.ext_parts
  · have hsame : r.compounds.flatMap (r.contribution (r.narrowed selection axis)) =
        r.compounds.flatMap (r.contribution selection) := by
      apply List.flatMap_congr
      intro compound hcompound
      by_cases hmixes : r.Mixes axis compound
      · exact contribution_narrowed_of_initial (hcompounds compound hcompound hmixes)
      · exact halike.unmixed compound hcompound hmixes
    rw [hclass, hnarrowed, hsame]
  · exact halike.style

/-- A compound of the axis with a named class under another condition shows that condition. -/
theorem RegularAxis.not_resolvesInitially (h : r.RegularAxis axis) {compound : CompiledCompound}
    (hcompound : compound ∈ r.compounds) (haxis : axis ∈ compound.required.keys)
    {condition className : String}
    (hclass : compound.classNames.get? condition = some className)
    (hcondition : condition ≠ r.initial) (hnamed : className ≠ "") :
    ¬ r.ResolvesInitially axis := by
  intro hresolves
  let selection := chosenAt condition compound.required
  obtain ⟨p, hp⟩ := OrderedMap.mem_keys_iff.1 haxis
  have hvalues : selection.get? axis =
      some (some (.perCondition (.singleton condition (some p)))) := by
    simp [selection, chosenAt, hp]
  obtain ⟨front, hfull, hnarrowed⟩ := (h.alikeButMixed (OrderedMap.isEmpty_of_get? hvalues)).classes
  have hsame := congrArg Resolution.className (hresolves selection _ hvalues)
  rw [hfull, hnarrowed] at hsame
  have hroom := room_flatMap_lt hcompound
    (contribution_narrowed_chosenAt_sublist hcondition haxis)
    (contribution_narrowed_chosenAt hcondition haxis haxis)
    (mem_contribution_chosenAt hclass haxis) hnamed
  apply intercalate_ne_of_room_lt _ _ hsame
  · intro name hname
    simpa using (List.mem_filter.1 hname).2
  · rw [List.filter_append, List.filter_append, room_append, room_append]
    exact Nat.add_lt_add_left hroom _

end CompiledRecipe

namespace Blueprint
variable {σ : Type} {plan : Blueprint} {b : Backend σ} {answers : Answers Cell σ}

/-- A compiled compound has a class of the initial condition if its axes are all regular, and
otherwise one for every condition. -/
theorem keys_of_mem_compounds {cell : CompiledCompound}
    (h : cell ∈ (plan.filled b answers).compounds) : cell.classNames.keys =
      if ∀ other ∈ cell.required.keys, other ∈ plan.regular.keys then [plan.initial]
      else plan.conditions.keys := by
  obtain ⟨index, hindex⟩ := List.mem_iff_getElem?.1 h
  rw [compounds_filled] at hindex
  obtain ⟨compound, -, rfl⟩ := Option.map_eq_some_iff.1 hindex
  unfold compoundCell
  split
  · rfl
  · exact OrderedMap.keys_map _ _

theorem keys_regularTable : (plan.regularTable answers).keys = plan.regular.keys :=
  OrderedMap.keys_map _ _

theorem map_required_compounds :
    (plan.filled b answers).compounds.map CompiledCompound.required =
      plan.compounds.map CompoundRule.required := by
  have hrequired : (CompiledCompound.required ∘ fun e : CompoundRule × Nat =>
      plan.compoundCell answers e.2 e.1) = CompoundRule.required ∘ Prod.fst := rfl
  simp only [filled, List.map_map, hrequired]
  rw [← List.map_map, List.zipIdx_map_fst]

theorem Restates.regularAxis {r : Recipe} {family : RecipeDefaults} {axis : String}
    (h : plan.Restates r family) (haxis : axis ∈ r.regular.keys) :
    (plan.filled b answers).RegularAxis axis := by
  have hplan : axis ∈ plan.regular.keys := h.keys_regular ▸ haxis
  constructor
  · intro label condition className hcell
    cases hcell with
    | regular _ hclass =>
        obtain ⟨-, -, -, -, hinitial, -⟩ := hasClass_regularTable_iff.1 hclass
        exact hinitial
    | responsive _ hnot _ => exact (hnot (keys_regularTable ▸ hplan)).elim
  · intro hinline
    have hkeys : axis ∈ plan.inline.keys := by
      rwa [filled, OrderedMap.keys_map] at hinline
    have hdisjoint := (List.nodup_append.1 h.axes_nodup).2.2
    exact hdisjoint axis (List.mem_append_left _ hplan) axis hkeys rfl
  · intro compound hcompound haxis' hunmixed condition hcondition
    have hregular : ∀ other ∈ compound.required.keys, other ∈ plan.regular.keys := by
      intro other hother
      by_contra hnot
      exact hunmixed ⟨haxis', other, hother, fun hmem => hnot (keys_regularTable ▸ hmem)⟩
    rw [keys_of_mem_compounds hcompound, if_pos hregular] at hcondition
    exact List.mem_singleton.1 hcondition

end Blueprint

namespace Recipe

def Unmixed (r : Recipe) (axis : String) : Prop :=
  ∀ compound ∈ r.compounds, axis ∈ compound.required.keys →
    ∀ other ∈ compound.required.keys, other ∈ r.regular.keys

theorem unmixed_iff {σ : Type} {r : Recipe} {family : RecipeDefaults} {plan : Blueprint}
    (h : plan.Restates r family) (b : Backend σ) (answers : Answers Cell σ) (axis : String) :
    r.Unmixed axis ↔ ∀ compound ∈ (plan.filled b answers).compounds,
      ¬ (plan.filled b answers).Mixes axis compound := by
  have hkeys : r.regular.keys = (plan.filled b answers).regular.keys :=
    h.keys_regular.trans Blueprint.keys_regularTable.symm
  have hrequired : r.compounds.map Compound.required =
      (plan.filled b answers).compounds.map CompiledCompound.required := by
    rw [Blueprint.map_required_compounds, h.compounds, List.map_map]
    rfl
  let Apart (required : OrderedMap String Primitive) : Prop :=
    axis ∈ required.keys → ∀ other ∈ required.keys, other ∈ r.regular.keys
  have hleft : r.Unmixed axis ↔ ∀ required ∈ r.compounds.map Compound.required, Apart required := by
    simp only [Unmixed, Apart, List.forall_mem_map]
  rw [hleft, hrequired, List.forall_mem_map]
  simp only [Apart, hkeys, CompiledRecipe.Mixes, not_and, not_exists, not_not]

/-- What a selection gives a regular axis under other conditions than the initial one shows in
nothing but the compounds that mix the axis with others. So it never shows if there are no such
compounds or no such conditions, and otherwise, with names for all compounds, there is a
selection for which it does. -/
theorem resolvesInitially_iff {σ : Type} (b : Backend σ) (debugId : Option String) (r : Recipe)
    (family : RecipeDefaults) {s t : σ} {compiled : CompiledRecipe} {axis : String}
    (h : r.compile family b debugId s = (.ok compiled, t)) (haxis : axis ∈ r.regular.keys) :
    (∀ selection : Selection, selection.isEmpty = false →
      compiled.AlikeButMixed selection axis) ∧
    (r.Unmixed axis ∨ (∀ condition ∈ compiled.conditions.keys, condition = compiled.initial) →
      compiled.ResolvesInitially axis) ∧
    ((∀ compound ∈ compiled.compounds, ∀ e ∈ compound.classNames.entries, e.2 ≠ "") →
      compiled.ResolvesInitially axis →
      r.Unmixed axis ∨ ∀ condition ∈ compiled.conditions.keys, condition = compiled.initial) := by
  obtain ⟨plan, answers, hrestates, rfl, -⟩ := run_of_compile h
  have hregular : (plan.filled b answers).RegularAxis axis := hrestates.regularAxis haxis
  have hkeys : ∀ compound ∈ (plan.filled b answers).compounds,
      (plan.filled b answers).Mixes axis compound →
        compound.classNames.keys = plan.conditions.keys := by
    intro compound hcompound hmixes
    obtain ⟨-, other, hother, hnot⟩ := hmixes
    rw [Blueprint.keys_of_mem_compounds hcompound, if_neg]
    exact fun hall => hnot (Blueprint.keys_regularTable ▸ hall other hother)
  refine ⟨fun selection hs => hregular.alikeButMixed hs, fun hnone => ?_, fun hnamed hresolves => ?_⟩
  · apply hregular.resolvesInitially
    intro compound hcompound hmixes condition hcondition
    rcases hnone with hunmixed | honly
    · exact ((unmixed_iff hrestates b answers axis).1 hunmixed compound hcompound hmixes).elim
    · exact honly condition (hkeys compound hcompound hmixes ▸ hcondition)
  · by_contra hboth
    -- a compound that mixes the axis has a class of the other condition, which can be shown
    obtain ⟨hmixed, hmore⟩ := not_or.1 hboth
    rw [unmixed_iff hrestates b answers] at hmixed
    simp only [not_forall, not_not] at hmixed hmore
    obtain ⟨compound, hcompound, hmixes⟩ := hmixed
    obtain ⟨condition, hcondition, hother⟩ := hmore
    have hcell : condition ∈ compound.classNames.keys :=
      (hkeys compound hcompound hmixes).symm ▸ hcondition
    obtain ⟨className, hclass⟩ := OrderedMap.mem_keys_iff.1 hcell
    have hname := hnamed compound hcompound _ (OrderedMap.get?_eq_some_iff.1 hclass)
    exact hregular.not_resolvesInitially hcompound hmixes.1 hclass hother hname hresolves

theorem resolvesInitially_iff_framed :
    ∃ (compiled : CompiledRecipe) (t : Unit × Nat),
      framed.compile {} labelling none ((), 0) = (.ok compiled, t) ∧
      "size" ∈ framed.regular.keys ∧
      (∀ selection : Selection, selection.isEmpty = false →
        compiled.AlikeButMixed selection "size") ∧
      (framed.Unmixed "size" ∨
          (∀ condition ∈ compiled.conditions.keys, condition = compiled.initial) →
        compiled.ResolvesInitially "size") ∧
      ((∀ compound ∈ compiled.compounds, ∀ e ∈ compound.classNames.entries, e.2 ≠ "") →
        compiled.ResolvesInitially "size" → framed.Unmixed "size" ∨
          ∀ condition ∈ compiled.conditions.keys, condition = compiled.initial) :=
  ⟨_, _, rfl, by decide, resolvesInitially_iff labelling none framed {} rfl (by decide)⟩

def smallLater : Selection := .ofList
  [("size", some (.ofEntries [("initial", .text "large"), ("md", .text "small")])),
   ("color", some (.single (.text "red")))]

/-- The compound of the small size and the red color holds at the later condition, though the
size has no class there. Without the entry for that condition it holds nowhere. -/
theorem not_resolvesInitially_framed :
    ∃ (compiled : CompiledRecipe) (t : Unit × Nat),
      framed.compile {} labelling none ((), 0) = (.ok compiled, t) ∧
      "size" ∈ framed.regular.keys ∧
      (compiled.resolve (some smallLater)).className =
        "frame size_large initial_color_red _compound_size_small_color_red_md" ∧
      (compiled.resolve (some (compiled.narrowed smallLater "size"))).className =
        "frame size_large initial_color_red" ∧
      ¬ compiled.ResolvesInitially "size" := by
  obtain ⟨compiled, t, hcompile, hfull, hnarrowed⟩ :
      ∃ (compiled : CompiledRecipe) (t : Unit × Nat),
        framed.compile {} labelling none ((), 0) = (.ok compiled, t) ∧
        (compiled.resolve (some smallLater)).className =
          "frame size_large initial_color_red _compound_size_small_color_red_md" ∧
        (compiled.resolve (some (compiled.narrowed smallLater "size"))).className =
          "frame size_large initial_color_red" := ⟨_, _, rfl, by decide, by decide⟩
  refine ⟨compiled, t, hcompile, by decide, hfull, hnarrowed, ?_⟩
  intro hresolves
  have hvalues : smallLater.get? "size" = some (some (.perCondition (.ofList
      [("initial", some (.text "large")), ("md", some (.text "small"))]))) := rfl
  have hsame := congrArg Resolution.className (hresolves smallLater _ hvalues)
  rw [hfull, hnarrowed] at hsame
  exact absurd hsame (by decide)

end Recipe
end StyleVariants
