import StyleVariants.Proofs.CompiledClasses
import StyleVariants.Proofs.CompoundEmission

/-!
# What a selection resolves to

Three orders meet in a resolved selection. The axes stand in the order of their defaults
and then of the selection, the labels of one axis in the order of its value, the inline
axes and the compounds in the order of the compiled recipe. Each part is described here by
what a single place adds: an axis with its value, a label under a condition, a custom
property. The whole is what all places add, one after the other, and nothing else. This
holds of any tables, whether they were compiled or written by hand.
-/
namespace StyleVariants.CompiledRecipe

/-- The axes with a default in their order, then the other axes that the selection gives a
value, in its order. -/
def axesInForce (r : CompiledRecipe) (selection : Selection) : List String :=
  r.defaults.keys ++
    (selection.entries.filter fun e => e.2.isSome && e.1 ∉ r.defaults.keys).map Prod.fst

theorem keys_foldl_choose {entries : List (String × Option SelectionValue)}
    (hn : (entries.map Prod.fst).Nodup) (values : OrderedMap String SelectionValue) :
    (entries.foldl (fun values e =>
        match e.2 with
        | some value => values.insert e.1 value
        | none => values) values).keys =
      values.keys ++
        (entries.filter fun e => e.2.isSome && e.1 ∉ values.keys).map Prod.fst := by
  induction entries generalizing values with
  | nil => simp
  | cons e rest ih =>
      obtain ⟨axis, choice⟩ := e
      simp only [List.map_cons, List.nodup_cons] at hn
      cases choice with
      | none => simpa using ih hn.2 values
      | some value =>
          rw [List.foldl_cons, ih hn.2]
          by_cases haxis : axis ∈ values.keys
          · simp [OrderedMap.keys_insert_of_mem haxis, haxis]
          · have hrest : ∀ e ∈ rest, e.1 ≠ axis := by
              intro e he heq
              exact hn.1 (List.mem_map.2 ⟨e, he, heq⟩)
            have hfilter : rest.filter (fun e => e.2.isSome && e.1 ∉ values.keys ++ [axis]) =
                rest.filter fun e => e.2.isSome && e.1 ∉ values.keys := by
              apply List.filter_congr
              intro e he
              simp [hrest e he]
            rw [OrderedMap.keys_insert_of_not_mem haxis, hfilter]
            simp [haxis]

theorem keys_inForce (r : CompiledRecipe) (selection : Selection) :
    (r.inForce selection).keys = r.axesInForce selection := by
  refine (keys_foldl_choose selection.nodup_keys _).trans ?_
  rw [OrderedMap.keys_map, axesInForce]

inductive CellAdds (r : CompiledRecipe) (axis label condition : String) : List String → Prop
  | found {className : String} : r.HasCell axis label condition className →
      CellAdds r axis label condition [className]
  | missing : (∀ className, ¬ r.HasCell axis label condition className) →
      CellAdds r axis label condition []

/-- An entry of a value per condition adds its cell, a null nothing. -/
inductive EntryAdds (r : CompiledRecipe) (axis : String) :
    String × Option Primitive → List String → Prop
  | null {condition : String} : EntryAdds r axis (condition, none) []
  | given {condition : String} {value : Primitive} {classNames : List String} :
      r.CellAdds axis value.label condition classNames →
      EntryAdds r axis (condition, some value) classNames

/-- A single value adds its cell of the initial condition, a value per condition what its
entries add, in their order. -/
inductive AxisAdds (r : CompiledRecipe) (axis : String) : SelectionValue → List String → Prop
  | single {value : Primitive} {classNames : List String} :
      r.CellAdds axis value.label r.initial classNames →
      AxisAdds r axis (.single value) classNames
  | perCondition {values : OrderedMap String (Option Primitive)} {parts : List (List String)} :
      List.Forall₂ (r.EntryAdds axis) values.entries parts →
      AxisAdds r axis (.perCondition values) parts.flatten

theorem cellAdds_cellOf? (r : CompiledRecipe) (axis label condition : String) :
    r.CellAdds axis label condition (r.cellOf? axis label condition).toList := by
  cases h : r.cellOf? axis label condition with
  | some className => exact .found (cellOf?_eq_some_iff.1 h)
  | none =>
      apply CellAdds.missing
      intro className hcell
      rw [cellOf?_eq_some_iff.2 hcell] at h
      cases h

theorem axisAdds_axisClasses (r : CompiledRecipe) (axis : String) (value : SelectionValue) :
    r.AxisAdds axis value (r.axisClasses axis value) := by
  rw [axisClasses_eq_filterMap]
  cases value with
  | single value =>
      have hcell := r.cellAdds_cellOf? axis value.label r.initial
      apply AxisAdds.single
      cases h : r.cellOf? axis value.label r.initial <;>
        simpa [SelectionValue.given, h] using hcell
  | perCondition values =>
      let part (e : String × Option Primitive) : List String :=
        (e.2.bind fun value => r.cellOf? axis value.label e.1).toList
      have hparts : ((SelectionValue.perCondition values).given r.initial).filterMap
          (fun e => r.cellOf? axis e.2 e.1) = (values.entries.map part).flatten := by
        rw [SelectionValue.given, List.filterMap_filterMap, List.filterMap_eq_flatMap_toList,
          ← List.flatMap_def]
        simp only [part, Option.bind_map, Function.comp_def]
      rw [hparts]
      apply AxisAdds.perCondition
      rw [List.forall₂_map_right_iff, List.forall₂_same]
      intro e _
      obtain ⟨condition, choice⟩ := e
      cases choice with
      | none => exact .null
      | some value => exact .given (r.cellAdds_cellOf? axis value.label condition)

def Adds (r : CompiledRecipe) (selection : Selection) (axis : String)
    (classNames : List String) : Prop :=
  ∃ value, r.valueFor? selection axis = some value ∧ r.AxisAdds axis value classNames

theorem tableClasses_adds (r : CompiledRecipe) (selection : Selection) :
    ∃ tables, List.Forall₂ (r.Adds selection) (r.axesInForce selection) tables ∧
      r.tableClasses (r.inForce selection) = tables.flatten := by
  refine ⟨(r.inForce selection).entries.map fun e => r.axisClasses e.1 e.2, ?_, rfl⟩
  rw [← keys_inForce, OrderedMap.keys, List.forall₂_map_left_iff, List.forall₂_map_right_iff,
    List.forall₂_same]
  intro e he
  refine ⟨e.2, ?_, r.axisAdds_axisClasses e.1 e.2⟩
  rw [← get?_inForce]
  exact OrderedMap.get?_eq_some_iff.2 he

def inlineClasses (r : CompiledRecipe) (selection : Selection) : List String :=
  (r.inline.entries.filter fun e => (r.valueFor? selection e.1).isSome).map (·.2.className)

theorem map_inlineInForce (r : CompiledRecipe) (selection : Selection) :
    (r.inlineInForce (r.inForce selection)).map (·.1.className) = r.inlineClasses selection := by
  simp only [inlineInForce, inlineClasses, get?_inForce]
  induction r.inline.entries with
  | nil => rfl
  | cons e rest ih => cases h : r.valueFor? selection e.1 <;> simp [h, ih]

/-- A place for a custom property: of an inline axis, under one of its conditions. -/
structure InlineSlot where
  axis : String
  condition : String
  property : String

def inlineSlots (r : CompiledRecipe) : List InlineSlot :=
  r.inline.entries.flatMap fun e =>
    e.2.properties.entries.map fun p => ⟨e.1, p.1, p.2⟩

/-- The axis of a slot has a value with an explicit label at the condition of the slot. -/
def Explicit (r : CompiledRecipe) (value? : String → Option SelectionValue)
    (slot : InlineSlot) (label : String) : Prop :=
  ∃ value, value? slot.axis = some value ∧ value.Gives r.initial slot.condition label

/-- A slot writes the explicit label to its property, otherwise nothing. -/
inductive SlotWrites (r : CompiledRecipe) (value? : String → Option SelectionValue)
    (slot : InlineSlot) : List (String × String) → Prop
  | explicit {label : String} : r.Explicit value? slot label →
      SlotWrites r value? slot [(slot.property, label)]
  | unset : (∀ label, ¬ r.Explicit value? slot label) → SlotWrites r value? slot []

def labelIn? (r : CompiledRecipe) (value? : String → Option SelectionValue)
    (slot : InlineSlot) : Option String :=
  (value? slot.axis).bind fun value => value.labelAt? r.initial slot.condition

theorem labelIn?_eq_some_iff {r : CompiledRecipe} {value? : String → Option SelectionValue}
    {slot : InlineSlot} {label : String} :
    r.labelIn? value? slot = some label ↔ r.Explicit value? slot label := by
  simp only [labelIn?, Option.bind_eq_some_iff, SelectionValue.labelAt?_eq_some_iff, Explicit]

def written (r : CompiledRecipe) (value? : String → Option SelectionValue) :
    List (String × String) :=
  r.inlineSlots.filterMap fun slot => (r.labelIn? value? slot).map (slot.property, ·)

theorem mem_written {r : CompiledRecipe} {value? : String → Option SelectionValue}
    {entry : String × String} : entry ∈ r.written value? ↔
      ∃ slot ∈ r.inlineSlots, slot.property = entry.1 ∧ r.Explicit value? slot entry.2 := by
  simp only [written, List.mem_filterMap, Option.map_eq_some_iff, labelIn?_eq_some_iff]
  constructor
  · rintro ⟨slot, hslot, label, hlabel, rfl⟩
    exact ⟨slot, hslot, rfl, hlabel⟩
  · rintro ⟨slot, hslot, hproperty, hlabel⟩
    exact ⟨slot, hslot, entry.2, hlabel, Prod.ext hproperty rfl⟩

theorem flatMap_inlineStyle (r : CompiledRecipe) (values : OrderedMap String SelectionValue) :
    (r.inlineInForce values).flatMap (fun (axis, value) => inlineStyle r.initial axis value) =
      r.written values.get? := by
  simp only [inlineInForce, written, inlineSlots]
  induction r.inline.entries with
  | nil => rfl
  | cons e rest ih =>
      rw [List.flatMap_cons, List.filterMap_append, ← ih, List.filterMap_map]
      cases h : values.get? e.1 with
      | none => simp [h, labelIn?]
      | some value => simp [h, labelIn?, inlineStyle]

theorem written_slotWrites (r : CompiledRecipe) (value? : String → Option SelectionValue) :
    ∃ writes, List.Forall₂ (r.SlotWrites value?) r.inlineSlots writes ∧
      r.written value? = writes.flatten := by
  refine ⟨r.inlineSlots.map fun slot =>
    ((r.labelIn? value? slot).map (slot.property, ·)).toList, ?_, ?_⟩
  · rw [List.forall₂_map_right_iff, List.forall₂_same]
    intro slot _
    cases h : r.labelIn? value? slot with
    | some label => exact .explicit (labelIn?_eq_some_iff.1 h)
    | none =>
        apply SlotWrites.unset
        intro label hlabel
        rw [labelIn?_eq_some_iff.2 hlabel] at h
        cases h
  · rw [written, List.filterMap_eq_flatMap_toList, List.flatMap_def]

/-- A map holds what was written to it: every key at its first place, with the value that was
written last. -/
structure HoldsWritten (style : OrderedMap String String) (written : List (String × String)) :
    Prop where
  keys : style.keys = (written.map Prod.fst).eraseDups
  last : ∀ property label, style.get? property = some label ↔ ∃ before after,
    written = before ++ (property, label) :: after ∧ property ∉ after.map Prod.fst

theorem holdsWritten_ofList (written : List (String × String)) :
    HoldsWritten (.ofList written) written where
  keys := OrderedMap.keys_ofList written
  last _ _ := OrderedMap.get?_ofList_iff_last

/-- The values that count when a selection is resolved: with an absent or empty selection
none, not even a default. -/
def effective (r : CompiledRecipe) : Option Selection → OrderedMap String SelectionValue
  | none => ∅
  | some selection => if selection.isEmpty then ∅ else r.inForce selection

theorem resolve_style (r : CompiledRecipe) (selection : Option Selection) :
    (r.resolve selection).style = .ofList (r.written (r.effective selection).get?) := by
  have hnone : r.written (∅ : OrderedMap String SelectionValue).get? = [] := by
    simp [written, labelIn?]
  cases selection with
  | none => rw [effective, hnone]; rfl
  | some selection =>
      by_cases hempty : selection.isEmpty
      · simp only [resolve, effective, hempty, if_true, hnone]
        rfl
      · simp only [resolve, effective, hempty, resolveInForce, flatMap_inlineStyle,
          Bool.false_eq_true, if_false]

/-- A selection that is not empty resolves to the base, to what its axes add in the order in
which they are in force, to the classes of its inline axes and to what the compounds
contribute; the custom properties hold what the slots write, in order. -/
theorem resolve_adds_in_order (r : CompiledRecipe) {selection : Selection}
    (hs : selection.isEmpty = false) :
    ∃ (tables emitted : List (List String)) (writes : List (List (String × String))),
      List.Forall₂ (r.Adds selection) (r.axesInForce selection) tables ∧
      List.Forall₂ (r.Contributes selection) r.compounds emitted ∧
      List.Forall₂ (r.SlotWrites (r.valueFor? selection)) r.inlineSlots writes ∧
      (r.resolve (some selection)).className = " ".intercalate
        ((r.base :: tables.flatten ++ r.inlineClasses selection ++ emitted.flatten).filter
          (· ≠ "")) ∧
      HoldsWritten (r.resolve (some selection)).style writes.flatten := by
  obtain ⟨tables, hadds, htables⟩ := r.tableClasses_adds selection
  obtain ⟨writes, hwrites, hwritten⟩ := r.written_slotWrites (r.valueFor? selection)
  refine ⟨tables, r.compounds.map (compoundClasses r.initial (r.inForce selection)), writes,
    hadds, ?_, hwrites, ?_, ?_⟩
  · rw [List.forall₂_map_right_iff, List.forall₂_same]
    exact fun compound _ => r.compoundClasses_contributes selection compound
  · rw [resolve_className, addedClasses]
    simp only [hs, Bool.false_eq_true, if_false, htables, map_inlineInForce, List.flatMap_def,
      List.cons_append]
  · have hvalues : (r.effective (some selection)).get? = r.valueFor? selection := by
      funext axis
      rw [effective, hs]
      exact r.get?_inForce selection axis
    rw [resolve_style, hvalues, hwritten]
    exact holdsWritten_ofList writes.flatten

/-- Tables that no compilation gives: `size` stands in both of them, the empty label names an
option, and two inline axes share a property. -/
def patched : CompiledRecipe where
  initial := "initial"
  conditions := .ofList [("initial", .always), ("wide", .always)]
  base := "card"
  regular := .ofList [("size", .ofList [("small", .ofList [("initial", "s")])])]
  responsive := .ofList
    [("size", .ofList [("small", .ofList [("initial", "hidden")])]),
     ("color", .ofList [("red", .ofList [("initial", "r0"), ("wide", "r1")]),
       ("", .ofList [("initial", "unnamed")])])]
  inline := .ofList
    [("gap", ⟨"g", .ofList [("initial", "--x"), ("wide", "--y")]⟩),
     ("pad", ⟨"", .ofList [("initial", "--z"), ("wide", "--x")]⟩)]
  compounds := [⟨.ofList [("color", .text "red")], .ofList [("initial", "c0"), ("wide", "c1")]⟩]
  defaults := .ofList [("size", .text "small"), ("gap", .text "1px")]

def sparse : Selection := .ofList
  [("pad", some (.ofEntries [("wide", .text "2px")])),
   ("color", some (.perCondition (.ofList [("wide", some (.text "red")), ("initial", none),
     ("print", some (.text "red")), ("dark", some (.text ""))]))),
   ("size", none),
   ("gap", some (.single (.text "4px")))]

theorem resolve_adds_in_order_patched :
    sparse.isEmpty = false ∧
    ∃ (tables emitted : List (List String)) (writes : List (List (String × String))),
      List.Forall₂ (patched.Adds sparse) (patched.axesInForce sparse) tables ∧
      List.Forall₂ (patched.Contributes sparse) patched.compounds emitted ∧
      List.Forall₂ (patched.SlotWrites (patched.valueFor? sparse)) patched.inlineSlots writes ∧
      (patched.resolve (some sparse)).className = " ".intercalate
        ((patched.base :: tables.flatten ++ patched.inlineClasses sparse ++
          emitted.flatten).filter (· ≠ "")) ∧
      HoldsWritten (patched.resolve (some sparse)).style writes.flatten :=
  ⟨by decide, resolve_adds_in_order patched (by decide)⟩

example : patched.axesInForce sparse = ["size", "gap", "pad", "color"] := by decide

example : (patched.resolve (some sparse)).className = "card s r1 g c1" := by decide

example : (patched.resolve (some sparse)).style.entries = [("--x", "2px")] := by decide

end StyleVariants.CompiledRecipe
