import StyleVariants.Proofs.CompiledClasses
import StyleVariants.Proofs.RelatedPrograms

/-!
# Where the classes of a resolved selection come from

A resolved selection joins classes, each of which the compiled recipe holds in a place: its base,
a cell of an option, an inline axis, or a condition of a compound. Which places these are, and in
which order, does not depend on the names that stand there. The same holds of the custom
properties that are set.
-/
namespace StyleVariants
namespace CompiledRecipe

inductive Place where
  | base
  | option (axis label condition : String)
  | inline (axis : String)
  | compound (index : Nat) (condition : String)

def classAt? (r : CompiledRecipe) : Place → Option String
  | .base => some r.base
  | .option axis label condition => r.cellOf? axis label condition
  | .inline axis => (r.inline.get? axis).map CompiledInline.className
  | .compound index condition => r.compounds[index]?.bind (·.classNames.get? condition)

def axisSources (r : CompiledRecipe) (axis : String) (value : SelectionValue) :
    List (Place × String) :=
  (value.given r.initial).filterMap fun e =>
    (r.cellOf? axis e.2 e.1).map (.option axis e.2 e.1, ·)

def inlineSources (r : CompiledRecipe) (values : OrderedMap String SelectionValue) :
    List (Place × String) :=
  r.inline.entries.filterMap fun e =>
    (values.get? e.1).map fun _ => (.inline e.1, e.2.className)

def compoundSources (initial : String) (values : OrderedMap String SelectionValue)
    (e : CompiledCompound × Nat) : List (Place × String) :=
  match allMet? initial values e.1.classNames.keys e.1.required.entries with
  | none => []
  | some holds =>
      (e.1.classNames.entries.zip (onsets false holds)).filterMap fun (cell, begins) =>
        if begins then some (.compound e.2 cell.1, cell.2) else none

def sourcesInForce (r : CompiledRecipe) (values : OrderedMap String SelectionValue) :
    List (Place × String) :=
  values.entries.flatMap (fun e => r.axisSources e.1 e.2) ++ r.inlineSources values ++
    r.compounds.zipIdx.flatMap (compoundSources r.initial values)

def addedSources (r : CompiledRecipe) : Option Selection → List (Place × String)
  | none => []
  | some selection =>
      if selection.isEmpty then [] else r.sourcesInForce (r.inForce selection)

/-- The classes of a resolved selection in order, each with its place. Empty names are left
out. -/
def sources (r : CompiledRecipe) (selection : Option Selection) : List (Place × String) :=
  ((.base, r.base) :: r.addedSources selection).filter fun e => e.2 ≠ ""

theorem map_snd_axisSources (r : CompiledRecipe) (axis : String) (value : SelectionValue) :
    (r.axisSources axis value).map Prod.snd = r.axisClasses axis value := by
  rw [axisClasses_eq_filterMap, axisSources, List.map_filterMap]
  refine List.filterMap_congr fun e _ => ?_
  rw [Option.map_map]
  exact congrFun Option.map_id _

theorem map_snd_inlineSources (r : CompiledRecipe) (values : OrderedMap String SelectionValue) :
    (r.inlineSources values).map Prod.snd = (r.inlineInForce values).map (·.1.className) := by
  rw [inlineSources, inlineInForce, List.map_filterMap, List.map_filterMap]
  simp [Function.comp_def]

theorem map_snd_compoundSources (initial : String) (values : OrderedMap String SelectionValue)
    (e : CompiledCompound × Nat) :
    (compoundSources initial values e).map Prod.snd = compoundClasses initial values e.1 := by
  unfold compoundSources compoundClasses
  cases allMet? initial values e.1.classNames.keys e.1.required.entries with
  | none => rfl
  | some holds =>
      simp only [List.map_filterMap]
      refine List.filterMap_congr fun cell _ => ?_
      obtain ⟨cell, begins⟩ := cell
      cases begins <;> rfl

theorem map_snd_sourcesInForce (r : CompiledRecipe) (values : OrderedMap String SelectionValue) :
    (r.sourcesInForce values).map Prod.snd = r.tableClasses values ++
      (r.inlineInForce values).map (·.1.className) ++
      r.compounds.flatMap (compoundClasses r.initial values) := by
  have hcompounds : r.compounds.flatMap (compoundClasses r.initial values) =
      r.compounds.zipIdx.flatMap fun e => compoundClasses r.initial values e.1 := by
    rw [← List.flatMap_map Prod.fst, List.zipIdx_map_fst]
  simp only [sourcesInForce, List.map_append, List.map_flatMap, map_snd_axisSources,
    map_snd_inlineSources, map_snd_compoundSources, tableClasses, hcompounds]

theorem resolve_className_sources (r : CompiledRecipe) (selection : Option Selection) :
    (r.resolve selection).className = " ".intercalate ((r.sources selection).map Prod.snd) := by
  have hadded : (r.addedSources selection).map Prod.snd = r.addedClasses selection := by
    cases selection with
    | none => rfl
    | some selection =>
        rw [addedSources, addedClasses]
        split
        · rfl
        · exact r.map_snd_sourcesInForce _
  have hfilter : ∀ es : List (Place × String), (es.filter fun e => e.2 ≠ "").map Prod.snd =
      (es.map Prod.snd).filter (· ≠ "") := by
    intro es
    rw [List.filter_map]
    rfl
  rw [resolve_className, sources, hfilter, List.map_cons, hadded]

theorem classAt?_of_mem_sourcesInForce {r : CompiledRecipe}
    {values : OrderedMap String SelectionValue} {e : Place × String}
    (h : e ∈ r.sourcesInForce values) : r.classAt? e.1 = some e.2 := by
  rcases List.mem_append.1 h with h | hcompound
  · rcases List.mem_append.1 h with htable | hinline
    · obtain ⟨⟨axis, value⟩, -, hsource⟩ := List.mem_flatMap.1 htable
      obtain ⟨⟨condition, label⟩, -, hcell⟩ := List.mem_filterMap.1 hsource
      obtain ⟨className, hclass, rfl⟩ := Option.map_eq_some_iff.1 hcell
      exact hclass
    · obtain ⟨⟨axis, cell⟩, hentry, hcell⟩ := List.mem_filterMap.1 hinline
      obtain ⟨value, -, rfl⟩ := Option.map_eq_some_iff.1 hcell
      have hget : r.inline.get? axis = some cell := OrderedMap.get?_eq_some_iff.2 hentry
      rw [classAt?, hget, Option.map_some]
  · obtain ⟨⟨compound, index⟩, hcompound, hsource⟩ := List.mem_flatMap.1 hcompound
    have hindex := List.mk_mem_zipIdx_iff_getElem?.1 hcompound
    unfold compoundSources at hsource
    split at hsource
    · simp at hsource
    · obtain ⟨⟨cell, begins⟩, hzip, hcell⟩ := List.mem_filterMap.1 hsource
      have hentry := (List.of_mem_zip hzip).1
      cases begins with
      | false => cases hcell
      | true =>
          cases hcell
          have hget : compound.classNames.get? cell.1 = some cell.2 :=
            OrderedMap.get?_eq_some_iff.2 hentry
          simp [classAt?, hindex, hget]

theorem classAt?_of_mem_sources {r : CompiledRecipe} {selection : Option Selection}
    {e : Place × String} (h : e ∈ r.sources selection) : r.classAt? e.1 = some e.2 := by
  rcases List.mem_cons.1 (List.mem_filter.1 h).1 with rfl | hadded
  · rfl
  · cases selection with
    | none => cases hadded
    | some selection =>
        rw [addedSources] at hadded
        split at hadded
        · cases hadded
        · exact classAt?_of_mem_sourcesInForce hadded

def EquallyNamed (className other : String) : Prop := className = "" ↔ other = ""

/-- The same custom properties, and a class in both or in none. -/
def AlikeInline (cell other : CompiledInline) : Prop :=
  EquallyNamed cell.className other.className ∧ cell.properties = other.properties

def AlikeCompounds (cell other : CompiledCompound) : Prop :=
  cell.required = other.required ∧ cell.classNames.Related EquallyNamed other.classNames

/-- Two compiled recipes are the same but for the names of classes: the same maps with the same
keys in the same order, and the same custom properties. -/
structure SameButNames (r other : CompiledRecipe) : Prop where
  initial : r.initial = other.initial
  conditions : r.conditions = other.conditions
  defaults : r.defaults = other.defaults
  base : EquallyNamed r.base other.base
  regular : r.regular.Related (OrderedMap.Related (OrderedMap.Related EquallyNamed)) other.regular
  responsive :
    r.responsive.Related (OrderedMap.Related (OrderedMap.Related EquallyNamed)) other.responsive
  inline : r.inline.Related AlikeInline other.inline
  compounds : List.Forall₂ AlikeCompounds r.compounds other.compounds

namespace SameButNames
variable {r other : CompiledRecipe}

theorem inForce_eq (h : r.SameButNames other) (selection : Selection) :
    r.inForce selection = other.inForce selection := by
  rw [inForce, inForce, h.defaults]

theorem cellOf? (h : r.SameButNames other) (axis label condition : String) :
    Option.Rel EquallyNamed (r.cellOf? axis label condition)
      (other.cellOf? axis label condition) := by
  have hoptions : Option.Rel (OrderedMap.Related (OrderedMap.Related EquallyNamed))
      (r.options? axis) (other.options? axis) :=
    rel_or (h.regular.get? axis) (h.responsive.get? axis)
  refine rel_bind hoptions fun options options' hrelated => ?_
  unfold cell?
  split
  · exact .none
  · exact rel_bind (hrelated.get? label) fun _ _ hclasses => hclasses.get? condition

theorem axisSources_related (h : r.SameButNames other) (axis : String) (value : SelectionValue) :
    Entries.Related EquallyNamed (r.axisSources axis value) (other.axisSources axis value) := by
  rw [axisSources, axisSources, h.initial]
  refine List.rel_filterMap (R := (· = ·)) ?_ (List.forall₂_refl _)
  rintro e _ rfl
  exact rel_map (h.cellOf? axis e.2 e.1) fun _ _ hnames => ⟨rfl, hnames⟩

theorem inlineSources_related (h : r.SameButNames other)
    (values : OrderedMap String SelectionValue) :
    Entries.Related EquallyNamed (r.inlineSources values) (other.inlineSources values) := by
  refine List.rel_filterMap ?_ h.inline
  rintro ⟨axis, cell⟩ ⟨_, cell'⟩ ⟨rfl, hcell⟩
  dsimp only
  cases values.get? axis with
  | none => exact .none
  | some value => exact .some ⟨rfl, hcell.1⟩

theorem compoundSources_related {initial : String} {values : OrderedMap String SelectionValue}
    {e e' : CompiledCompound × Nat} (hcells : AlikeCompounds e.1 e'.1) (hindex : e.2 = e'.2) :
    Entries.Related EquallyNamed (compoundSources initial values e)
      (compoundSources initial values e') := by
  obtain ⟨hrequired, hnames⟩ := hcells
  rw [compoundSources, compoundSources, hrequired, hnames.keys_eq]
  cases allMet? initial values e'.1.classNames.keys e'.1.required.entries with
  | none => exact .nil
  | some holds =>
      refine List.rel_filterMap ?_ (Entries.Related.zip hnames (onsets false holds))
      rintro ⟨⟨condition, c⟩, begins⟩ ⟨⟨_, c'⟩, _⟩ ⟨⟨rfl, hcell⟩, rfl⟩
      cases begins with
      | false => exact .none
      | true => exact .some ⟨by rw [hindex], hcell⟩

theorem sourcesInForce_related (h : r.SameButNames other)
    (values : OrderedMap String SelectionValue) :
    Entries.Related EquallyNamed (r.sourcesInForce values) (other.sourcesInForce values) := by
  have htables : Entries.Related EquallyNamed
      (values.entries.flatMap fun e => r.axisSources e.1 e.2)
      (values.entries.flatMap fun e => other.axisSources e.1 e.2) := by
    refine List.rel_flatMap (R := (· = ·)) (List.forall₂_refl _) ?_
    rintro e _ rfl
    exact h.axisSources_related e.1 e.2
  have hcompounds : Entries.Related EquallyNamed
      (r.compounds.zipIdx.flatMap (compoundSources r.initial values))
      (other.compounds.zipIdx.flatMap (compoundSources other.initial values)) := by
    rw [h.initial]
    refine List.rel_flatMap (zipIdx_related h.compounds 0) ?_
    rintro e e' ⟨hcells, hindex⟩
    exact compoundSources_related hcells hindex
  exact List.rel_append (List.rel_append htables (h.inlineSources_related values)) hcompounds

/-- The classes of a selection come from the same places. -/
theorem sources_related (h : r.SameButNames other) (selection : Option Selection) :
    Entries.Related EquallyNamed (r.sources selection) (other.sources selection) := by
  have hadded : Entries.Related EquallyNamed (r.addedSources selection)
      (other.addedSources selection) := by
    cases selection with
    | none => exact .nil
    | some selection =>
        rw [addedSources, addedSources, h.inForce_eq]
        split
        · exact .nil
        · exact h.sourcesInForce_related _
  refine List.rel_filter ?_ (List.Forall₂.cons ⟨rfl, h.base⟩ hadded)
  rintro e e' ⟨-, hnames⟩
  simpa using not_congr hnames

theorem style_eq (h : r.SameButNames other) (selection : Option Selection) :
    (r.resolve selection).style = (other.resolve selection).style := by
  have hinForce : ∀ values, (r.resolveInForce values).style =
      (other.resolveInForce values).style := by
    intro values
    have hinline : List.Forall₂ (fun e e' => e.1.properties = e'.1.properties ∧ e.2 = e'.2)
        (r.inlineInForce values) (other.inlineInForce values) := by
      refine List.rel_filterMap ?_ h.inline
      rintro ⟨axis, cell⟩ ⟨_, cell'⟩ ⟨rfl, hcell⟩
      dsimp only
      cases values.get? axis with
      | none => exact .none
      | some value => exact .some ⟨hcell.2, rfl⟩
    have hentries : List.Forall₂ (· = ·)
        ((r.inlineInForce values).flatMap fun e => inlineStyle r.initial e.1 e.2)
        ((other.inlineInForce values).flatMap fun e => inlineStyle other.initial e.1 e.2) := by
      refine List.rel_flatMap hinline ?_
      rintro ⟨cell, value⟩ ⟨cell', _⟩ ⟨(hproperties : cell.properties = cell'.properties), rfl⟩
      simp only [inlineStyle, hproperties, h.initial]
      exact List.forall₂_refl _
    exact congrArg OrderedMap.ofList (List.forall₂_eq_eq_eq ▸ hentries)
  cases selection with
  | none => rfl
  | some selection =>
      rw [resolve, resolve, h.inForce_eq]
      split
      · rfl
      · exact hinForce _

end SameButNames
end CompiledRecipe
end StyleVariants
