import StyleVariants.Proofs.GivenLabels
import Mathlib.Data.List.Perm.Basic

/-!
# The order of a selection

The same choices can be made in any order: the axes of a selection can be permuted, and so can
the entries of each value per condition. Only the classes from tables follow that order. Inline
axes, their custom properties and compounds look axes and conditions up by name, so they come
out in the order of the compiled recipe whatever the caller's order is.
-/
namespace StyleVariants

theorem Entries.get?_of_perm {κ α : Type} [DecidableEq κ] {es fs : List (κ × α)}
    (hn : (es.map Prod.fst).Nodup) (h : es.Perm fs) (key : κ) : get? key es = get? key fs := by
  have hn' : (fs.map Prod.fst).Nodup := (h.map Prod.fst).nodup_iff.1 hn
  apply Option.ext
  intro value
  rw [get?_eq_some_iff hn, get?_eq_some_iff hn', h.mem_iff]

inductive SelectionValue.Reorders : SelectionValue → SelectionValue → Prop
  | single (value : Primitive) : Reorders (.single value) (.single value)
  | perCondition {values others : OrderedMap String (Option Primitive)} :
      values.entries.Perm others.entries → Reorders (.perCondition values) (.perCondition others)

theorem SelectionValue.Reorders.given_perm {v w : SelectionValue} (h : v.Reorders w)
    (initial : String) : (v.given initial).Perm (w.given initial) := by
  cases h with
  | single value => exact .refl _
  | perCondition h => exact h.filterMap _

def SameChoice (e f : String × Option SelectionValue) : Prop :=
  e.1 = f.1 ∧ Option.Rel SelectionValue.Reorders e.2 f.2

/-- The same axes in any order, each with the same choice. -/
def Selection.Reorders (s t : Selection) : Prop :=
  ∃ moved, s.entries.Perm moved ∧ List.Forall₂ SameChoice moved t.entries

theorem filter_of_sameChoice {es fs : List (String × Option SelectionValue)}
    (h : List.Forall₂ SameChoice es fs) (p : String → Bool) :
    (es.filter fun e => e.2.isSome && p e.1).map Prod.fst =
      (fs.filter fun f => f.2.isSome && p f.1).map Prod.fst := by
  induction h with
  | nil => rfl
  | @cons e f es fs hef _ ih =>
      obtain ⟨axis, choice⟩ := e
      obtain ⟨axis', choice'⟩ := f
      obtain ⟨rfl, hchoice⟩ := hef
      have hsome : choice.isSome = choice'.isSome := by cases hchoice <;> rfl
      rw [List.filter_cons, List.filter_cons, hsome]
      split
      · rw [List.map_cons, List.map_cons, ih]
      · exact ih

theorem get?_of_sameChoice {es fs : List (String × Option SelectionValue)}
    (h : List.Forall₂ SameChoice es fs) (axis : String) :
    Option.Rel SelectionValue.Reorders (Entries.get? axis es).join (Entries.get? axis fs).join := by
  induction h with
  | nil => exact .none
  | @cons e f es fs hef _ ih =>
      obtain ⟨hkey, hchoice⟩ := hef
      simp only [Entries.get?, hkey]
      split
      · exact hchoice
      · exact ih

namespace Selection.Reorders
variable {s t : Selection}

theorem isEmpty_eq (h : s.Reorders t) : s.isEmpty = t.isEmpty := by
  obtain ⟨moved, hperm, hsame⟩ := h
  have hlength : s.entries.length = t.entries.length := hperm.length_eq.trans hsame.length_eq
  rw [OrderedMap.isEmpty, OrderedMap.isEmpty, Bool.eq_iff_iff, List.isEmpty_iff_length_eq_zero,
    List.isEmpty_iff_length_eq_zero, hlength]

theorem axesInForce_perm (h : s.Reorders t) (r : CompiledRecipe) :
    (r.axesInForce s).Perm (r.axesInForce t) := by
  obtain ⟨moved, hperm, hsame⟩ := h
  unfold CompiledRecipe.axesInForce
  rw [← filter_of_sameChoice hsame fun axis => axis ∉ r.defaults.keys]
  exact ((hperm.filter _).map _).append_left _

/-- The values that count for an axis are the same up to the order of their entries. -/
theorem valueFor?_cases (h : s.Reorders t) (r : CompiledRecipe) (axis : String) :
    (r.valueFor? s axis = none ∧ r.valueFor? t axis = none) ∨
      ∃ v w, r.valueFor? s axis = some v ∧ r.valueFor? t axis = some w ∧ v.Reorders w := by
  obtain ⟨moved, hperm, hsame⟩ := h
  have hmoved : s.get? axis = Entries.get? axis moved :=
    Entries.get?_of_perm s.nodup_keys hperm axis
  have hchoice : Option.Rel SelectionValue.Reorders (s.get? axis).join (t.get? axis).join := by
    rw [hmoved]
    exact get?_of_sameChoice hsame axis
  unfold CompiledRecipe.valueFor?
  generalize (s.get? axis).join = own at hchoice ⊢
  generalize (t.get? axis).join = other at hchoice ⊢
  cases hchoice with
  | @some v w hvalue => exact .inr ⟨v, w, rfl, rfl, hvalue⟩
  | none =>
      cases r.defaults.get? axis with
      | none => exact .inl ⟨rfl, rfl⟩
      | some p => exact .inr ⟨.single p, .single p, rfl, rfl, .single p⟩

theorem sameLabels (h : s.Reorders t) (r : CompiledRecipe) : r.SameLabels s t := by
  intro axis _
  unfold CompiledRecipe.labelsFor?
  rcases h.valueFor?_cases r axis with ⟨hs, ht⟩ | ⟨v, w, hs, ht, hvalue⟩
  · rw [hs, ht]
  · have hlabels : v.labelAt? r.initial = w.labelAt? r.initial :=
      SelectionValue.labelAt?_eq_of_given fun e => (hvalue.given_perm r.initial).mem_iff
    rw [hs, ht, Option.map_some, Option.map_some, hlabels]

theorem classesFor_perm (h : s.Reorders t) (r : CompiledRecipe) (axis : String) :
    (r.classesFor s axis).Perm (r.classesFor t axis) := by
  rw [CompiledRecipe.classesFor_eq, CompiledRecipe.classesFor_eq]
  apply List.Perm.filterMap
  unfold CompiledRecipe.givenFor?
  rcases h.valueFor?_cases r axis with ⟨hs, ht⟩ | ⟨v, w, hs, ht, hvalue⟩
  · rw [hs, ht]
  · rw [hs, ht]
    exact hvalue.given_perm r.initial

theorem tableClasses_perm (h : s.Reorders t) (r : CompiledRecipe) :
    (r.tableClasses (r.inForce s)).Perm (r.tableClasses (r.inForce t)) := by
  rw [CompiledRecipe.tableClasses_inForce, CompiledRecipe.tableClasses_inForce]
  exact (h.axesInForce_perm r).flatMap fun axis _ => h.classesFor_perm r axis

end Selection.Reorders

namespace CompiledRecipe

/-- Two orders of one selection resolve to the same custom properties in the same order and to
the same base, the same classes from tables up to their order, and the same classes of inline
axes and compounds in the same order. -/
theorem resolve_of_reorders (r : CompiledRecipe) {s t : Selection} (h : s.Reorders t)
    (hs : s.isEmpty = false) :
    ∃ tables tables' emitted : List (List String),
      List.Forall₂ (r.Adds s) (r.axesInForce s) tables ∧
      List.Forall₂ (r.Adds t) (r.axesInForce t) tables' ∧
      tables.flatten.Perm tables'.flatten ∧
      r.inlineClasses s = r.inlineClasses t ∧
      List.Forall₂ (r.Contributes s) r.compounds emitted ∧
      List.Forall₂ (r.Contributes t) r.compounds emitted ∧
      (r.resolve (some s)).className = " ".intercalate
        ((r.base :: tables.flatten ++ r.inlineClasses s ++ emitted.flatten).filter (· ≠ "")) ∧
      (r.resolve (some t)).className = " ".intercalate
        ((r.base :: tables'.flatten ++ r.inlineClasses t ++ emitted.flatten).filter (· ≠ "")) ∧
      (r.resolve (some s)).style = (r.resolve (some t)).style := by
  have ht : t.isEmpty = false := h.isEmpty_eq ▸ hs
  have hlabels := h.sameLabels r
  obtain ⟨tables, hadds, htables⟩ := r.tableClasses_adds s
  obtain ⟨tables', hadds', htables'⟩ := r.tableClasses_adds t
  -- compounds look up labels by axis and condition, so they add the same for both orders
  let emitted := r.compounds.map (compoundClasses r.initial (r.inForce s))
  have hsame : emitted = r.compounds.map (compoundClasses r.initial (r.inForce t)) := by
    apply List.map_congr_left
    intro compound hcompound
    exact hlabels.compoundClasses_eq hcompound
  have hcontributes : ∀ selection, List.Forall₂ (r.Contributes selection) r.compounds
      (r.compounds.map (compoundClasses r.initial (r.inForce selection))) := by
    intro selection
    rw [List.forall₂_map_right_iff, List.forall₂_same]
    exact fun compound _ => r.compoundClasses_contributes selection compound
  refine ⟨tables, tables', emitted, hadds, hadds', ?_, hlabels.inlineClasses_eq,
    hcontributes s, hsame ▸ hcontributes t, ?_, ?_, ?_⟩
  · rw [← htables, ← htables']
    exact h.tableClasses_perm r
  · rw [resolve_className_parts hs, htables, List.flatMap_def]
  · rw [resolve_className_parts ht, htables', List.flatMap_def, hsame]
  · rw [resolve_style_written hs, resolve_style_written ht, hlabels.written_eq]

def striped : CompiledRecipe where
  initial := "initial"
  conditions := .ofList [("initial", .always), ("wide", .always)]
  base := "flag"
  regular := ∅
  responsive := .ofList
    [("color", .ofList [("red", .ofList [("initial", "r0"), ("wide", "r1")]),
       ("blue", .ofList [("initial", "b0"), ("wide", "b1")])]),
     ("size", .ofList [("small", .ofList [("initial", "s0"), ("wide", "s1")])])]
  inline := .ofList [("gap", ⟨"g", .ofList [("initial", "--x"), ("wide", "--y")]⟩)]
  compounds := [⟨.ofList [("color", .text "red"), ("size", .text "small")],
    .ofList [("initial", "c0"), ("wide", "c1")]⟩]
  defaults := ∅

def gapFirst : Selection := .ofList
  [("gap", some (.ofEntries [("wide", .text "2px"), ("initial", .text "1px")])),
   ("size", some (.single (.text "small"))),
   ("color", some (.ofEntries [("wide", .text "red"), ("initial", .text "blue")]))]

def colorFirst : Selection := .ofList
  [("color", some (.ofEntries [("initial", .text "blue"), ("wide", .text "red")])),
   ("gap", some (.ofEntries [("initial", .text "1px"), ("wide", .text "2px")])),
   ("size", some (.single (.text "small")))]

theorem reorders_colorFirst : gapFirst.Reorders colorFirst := by
  refine ⟨gapFirst.entries.drop 2 ++ gapFirst.entries.take 2, ?_, ?_⟩
  · exact @List.perm_append_comm _ (gapFirst.entries.take 2) (gapFirst.entries.drop 2)
  · exact .cons ⟨rfl, .some (.perCondition (.swap _ _ _))⟩
      (.cons ⟨rfl, .some (.perCondition (.swap _ _ _))⟩
        (.cons ⟨rfl, .some (.single _)⟩ .nil))

theorem resolve_of_reorders_colorFirst :
    gapFirst.Reorders colorFirst ∧ gapFirst.isEmpty = false ∧
    ∃ tables tables' emitted : List (List String),
      List.Forall₂ (striped.Adds gapFirst) (striped.axesInForce gapFirst) tables ∧
      List.Forall₂ (striped.Adds colorFirst) (striped.axesInForce colorFirst) tables' ∧
      tables.flatten.Perm tables'.flatten ∧
      striped.inlineClasses gapFirst = striped.inlineClasses colorFirst ∧
      List.Forall₂ (striped.Contributes gapFirst) striped.compounds emitted ∧
      List.Forall₂ (striped.Contributes colorFirst) striped.compounds emitted ∧
      (striped.resolve (some gapFirst)).className = " ".intercalate
        ((striped.base :: tables.flatten ++ striped.inlineClasses gapFirst ++
          emitted.flatten).filter (· ≠ "")) ∧
      (striped.resolve (some colorFirst)).className = " ".intercalate
        ((striped.base :: tables'.flatten ++ striped.inlineClasses colorFirst ++
          emitted.flatten).filter (· ≠ "")) ∧
      (striped.resolve (some gapFirst)).style = (striped.resolve (some colorFirst)).style :=
  ⟨reorders_colorFirst, by decide,
    resolve_of_reorders striped reorders_colorFirst (by decide)⟩

example : (striped.resolve (some gapFirst)).className = "flag s0 r1 b0 g c1" := by decide

example : (striped.resolve (some colorFirst)).className = "flag b0 r1 s0 g c1" := by decide

end CompiledRecipe
end StyleVariants
