import StyleVariants.Proofs.GivenLabels
import Mathlib.Logic.Relation

/-!
# Selections that resolve alike

A choice can be written down in several ways. A value can be given by its text, a single value
as the value of the initial condition alone; a null, an unset axis and an axis that no table
names can be left out. One such step changes neither the labels that are given to the axes of
the tables nor the order of their classes, so any number of steps, there and back, leaves the
resolved selection as it is. On the way a selection may even become empty.
-/
namespace StyleVariants

/-- One way to write a value differently. -/
inductive SelectionValue.Rewrites (initial : String) : SelectionValue → SelectionValue → Prop
  | text (value : Primitive) : Rewrites initial (.single value) (.single (.text value.label))
  | textUnder {values others : OrderedMap String (Option Primitive)}
      {before after : List (String × Option Primitive)} {condition : String}
      {value : Primitive} : values.entries = before ++ (condition, some value) :: after →
      others.entries = before ++ (condition, some (.text value.label)) :: after →
      Rewrites initial (.perCondition values) (.perCondition others)
  | spread (value : Primitive) :
      Rewrites initial (.single value) (.perCondition (.singleton initial (some value)))
  | dropNull {values others : OrderedMap String (Option Primitive)}
      {before after : List (String × Option Primitive)} {condition : String} :
      values.entries = before ++ (condition, none) :: after →
      others.entries = before ++ after →
      Rewrites initial (.perCondition values) (.perCondition others)

theorem SelectionValue.Rewrites.given_eq {initial : String} {v w : SelectionValue}
    (h : v.Rewrites initial w) : v.given initial = w.given initial := by
  cases h with
  | text value => rfl
  | textUnder hvalues hothers => simp [given, hvalues, hothers, Primitive.label]
  | spread value => rfl
  | dropNull hvalues hothers => simp [given, hvalues, hothers]

theorem Resolution.ext_parts {a b : Resolution} (hclass : a.className = b.className)
    (hstyle : a.style = b.style) : a = b := by
  cases a
  cases b
  cases hclass
  cases hstyle
  rfl

namespace CompiledRecipe

/-- One way to write a selection differently: another form of one value, an unset axis left
out, or an axis that no table names left out. -/
inductive Rewrites (r : CompiledRecipe) : Selection → Selection → Prop
  | value {s t : Selection} {before after : List (String × Option SelectionValue)}
      {axis : String} {v w : SelectionValue} :
      s.entries = before ++ (axis, some v) :: after →
      t.entries = before ++ (axis, some w) :: after →
      v.Rewrites r.initial w → Rewrites r s t
  | dropUnset {s t : Selection} {before after : List (String × Option SelectionValue)}
      {axis : String} : s.entries = before ++ (axis, none) :: after →
      t.entries = before ++ after → Rewrites r s t
  | dropUnnamed {s t : Selection} {before after : List (String × Option SelectionValue)}
      {axis : String} {choice : Option SelectionValue} :
      s.entries = before ++ (axis, choice) :: after →
      t.entries = before ++ after → ¬ r.Names axis → Rewrites r s t

variable {r : CompiledRecipe} {s t : Selection}

theorem classesFor_of_not_names {axis : String} (h : ¬ r.Names axis) (selection : Selection) :
    r.classesFor selection axis = [] := by
  unfold classesFor
  cases r.valueFor? selection axis with
  | none => rfl
  | some value => exact axisClasses_of_not_names h value

/-- What a selection itself chooses for an axis decides the labels given to it. -/
theorem givenFor?_congr {axis : String}
    (h : (s.get? axis).join.map (·.given r.initial) = (t.get? axis).join.map (·.given r.initial)) :
    r.givenFor? s axis = r.givenFor? t axis := by
  simp only [givenFor?, valueFor?, Option.map_or, h]

/-- An entry matters to no other axis. -/
theorem get?_of_split {before after : List (String × Option SelectionValue)} {axis other : String}
    {choice : Option SelectionValue} (hs : s.entries = before ++ (axis, choice) :: after)
    (hne : other ≠ axis) : s.get? other = Entries.get? other (before ++ after) := by
  simp only [OrderedMap.get?, hs, Entries.get?_append, Entries.get?, if_neg hne.symm]

theorem get?_of_split_self {before after : List (String × Option SelectionValue)} {axis : String}
    {choice : Option SelectionValue} (hs : s.entries = before ++ (axis, choice) :: after) :
    s.get? axis = some choice := by
  apply OrderedMap.get?_eq_some_iff.2
  simp [hs]

theorem get?_eq_none_of_split {before after : List (String × Option SelectionValue)} {axis : String}
    {choice : Option SelectionValue} (hs : s.entries = before ++ (axis, choice) :: after)
    (ht : t.entries = before ++ after) : t.get? axis = none := by
  have hn := s.nodup_keys
  rw [hs, List.map_append, List.map_cons, List.nodup_middle, List.nodup_cons] at hn
  apply Entries.get?_eq_none_iff.2
  rw [ht, List.map_append]
  exact hn.1

structure ReadAlike (r : CompiledRecipe) (s t : Selection) : Prop where
  tables : r.tableClasses (r.inForce s) = r.tableClasses (r.inForce t)
  labels : r.SameLabels s t

theorem ReadAlike.resolve_eq (h : r.ReadAlike s t) (hs : s.isEmpty = false)
    (ht : t.isEmpty = false) : r.resolve (some s) = r.resolve (some t) := by
  have hcompounds : r.compounds.flatMap (compoundClasses r.initial (r.inForce s)) =
      r.compounds.flatMap (compoundClasses r.initial (r.inForce t)) := by
    apply List.flatMap_congr
    intro compound hcompound
    exact h.labels.compoundClasses_eq hcompound
  apply Resolution.ext_parts
  · rw [resolve_className_parts hs, resolve_className_parts ht, h.tables,
      h.labels.inlineClasses_eq, hcompounds]
  · rw [resolve_style_written hs, resolve_style_written ht, h.labels.written_eq]

theorem readAlike_of_given (haxes : r.axesInForce s = r.axesInForce t)
    (hgiven : ∀ axis, r.givenFor? s axis = r.givenFor? t axis) : r.ReadAlike s t where
  tables := by
    rw [tableClasses_inForce, tableClasses_inForce, haxes]
    apply List.flatMap_congr
    intro axis _
    rw [classesFor_eq, classesFor_eq, hgiven]
  labels := sameLabels_of_given fun axis _ => hgiven axis

theorem readAlike_of_dropUnnamed {before after : List (String × Option SelectionValue)}
    {axis : String} {choice : Option SelectionValue}
    (hs : s.entries = before ++ (axis, choice) :: after) (ht : t.entries = before ++ after)
    (haxis : ¬ r.Names axis) : r.ReadAlike s t := by
  have hgiven : ∀ other, other ≠ axis → r.givenFor? s other = r.givenFor? t other := by
    intro other hne
    apply givenFor?_congr
    rw [get?_of_split hs hne, OrderedMap.get?, ht]
  have hclasses : r.classesFor s = r.classesFor t := by
    funext other
    by_cases hne : other = axis
    · rw [hne, classesFor_of_not_names haxis, classesFor_of_not_names haxis]
    · rw [classesFor_eq, classesFor_eq, hgiven other hne]
  refine ⟨?_, sameLabels_of_given fun other hother => hgiven other fun heq => haxis (heq ▸ hother)⟩
  rw [tableClasses_inForce, tableClasses_inForce, hclasses, axesInForce, axesInForce, hs, ht]
  simp only [List.filter_append, List.map_append, List.flatMap_append, List.filter_cons]
  -- whether or not the axis is in force, it adds no class
  split
  · rw [List.map_cons, List.flatMap_cons, classesFor_of_not_names haxis, List.nil_append]
  · rfl

theorem Rewrites.readAlike (h : r.Rewrites s t) : r.ReadAlike s t := by
  cases h with
  | @value before after axis v w hs ht hvalue =>
      apply readAlike_of_given
      · simp only [axesInForce, hs, ht, List.filter_append, List.filter_cons, Option.isSome_some]
        split <;> simp
      · intro other
        apply givenFor?_congr
        by_cases hne : other = axis
        · rw [hne, get?_of_split_self hs, get?_of_split_self ht]
          simp [hvalue.given_eq]
        · rw [get?_of_split hs hne, get?_of_split ht hne]
  | @dropUnset before after axis hs ht =>
      apply readAlike_of_given
      · simp [axesInForce, hs, ht]
      · intro other
        apply givenFor?_congr
        by_cases hne : other = axis
        · rw [hne, get?_of_split_self hs, get?_eq_none_of_split hs ht]
          rfl
        · rw [get?_of_split hs hne, OrderedMap.get?, ht]
  | dropUnnamed hs ht haxis => exact readAlike_of_dropUnnamed hs ht haxis

theorem readAlike_of_eqvGen (h : Relation.EqvGen r.Rewrites s t) : r.ReadAlike s t := by
  induction h with
  | rel s t hstep => exact hstep.readAlike
  | refl s => exact ⟨rfl, fun _ _ => rfl⟩
  | symm s t _ ih => exact ⟨ih.tables.symm, fun axis haxis => (ih.labels axis haxis).symm⟩
  | trans s t u _ _ ih ih' =>
      exact ⟨ih.tables.trans ih'.tables,
        fun axis haxis => (ih.labels axis haxis).trans (ih'.labels axis haxis)⟩

/-- Selections that can be rewritten into each other resolve to the same class names in the
same order and to the same custom properties in the same order. -/
theorem resolve_eq_of_rewrites (r : CompiledRecipe) {s t : Selection}
    (h : Relation.EqvGen r.Rewrites s t) (hs : s.isEmpty = false) (ht : t.isEmpty = false) :
    r.resolve (some s) = r.resolve (some t) :=
  (readAlike_of_eqvGen h).resolve_eq hs ht

def switched : CompiledRecipe where
  initial := "initial"
  conditions := .ofList [("initial", .always), ("wide", .always)]
  base := "card"
  regular := .ofList [("open", .ofList [("true", .ofList [("initial", "on")])])]
  responsive := .ofList [("cols", .ofList [("2", .ofList [("initial", "c2"), ("wide", "w2")])])]
  inline := .ofList [("open", ⟨"shown", .ofList [("initial", "--open"), ("wide", "--late")]⟩)]
  compounds := [⟨.ofList [("open", .bool true), ("cols", .text "2")],
    .ofList [("initial", "b0"), ("wide", "b1")]⟩]
  defaults := .ofList [("cols", .text "1")]

def chosen (opened cols : SelectionValue) (rest : List (String × Option SelectionValue)) :
    Selection := .ofList (("open", some opened) :: ("cols", some cols) :: rest)

/-- A boolean, a number behind a null, an unset axis and an axis that no table names. -/
def spelledOut : Selection :=
  chosen (.single (.bool true))
    (.perCondition (.ofList [("initial", none), ("wide", some (.number (.int 2 (by decide))))]))
    [("flag", none), ("tone", some (.single (.text "dark")))]

def condensed : Selection :=
  chosen (.perCondition (.singleton "initial" (some (.text "true"))))
    (.perCondition (.ofList [("wide", some (.text "2"))])) []

theorem eqvGen_condensed : Relation.EqvGen switched.Rewrites spelledOut condensed := by
  let two : Primitive := .number (.int 2 (by decide))
  let gap : SelectionValue := .perCondition (.ofList [("initial", none), ("wide", some two)])
  let plain : SelectionValue := .perCondition (.ofList [("wide", some two)])
  let texts : SelectionValue := .perCondition (.ofList [("wide", some (.text "2"))])
  let yes : SelectionValue := .single (.text "true")
  let spread : SelectionValue := .perCondition (.singleton "initial" (some (.text "true")))
  let tone : String × Option SelectionValue := ("tone", some (.single (.text "dark")))
  have hunnamed : ¬ switched.Names "tone" := by
    intro h
    cases h with
    | regular h => exact absurd h (by decide)
    | responsive h => exact absurd h (by decide)
    | inline h => exact absurd h (by decide)
    | compound hc h =>
        obtain rfl := List.mem_singleton.1 hc
        exact absurd h (by decide)
  have hnull : gap.Rewrites "initial" plain :=
    @SelectionValue.Rewrites.dropNull _ _ _ [] [("wide", some two)] "initial" rfl rfl
  have hnumber : plain.Rewrites "initial" texts :=
    @SelectionValue.Rewrites.textUnder _ _ _ [] [] "wide" two rfl rfl
  have h₁ : switched.Rewrites spelledOut (chosen yes gap [("flag", none), tone]) :=
    @Rewrites.value _ _ _ [] _ "open" _ _ rfl rfl (.text (.bool true))
  have h₂ : switched.Rewrites (chosen yes gap [("flag", none), tone])
      (chosen spread gap [("flag", none), tone]) :=
    @Rewrites.value _ _ _ [] _ "open" _ _ rfl rfl (.spread (.text "true"))
  have h₃ : switched.Rewrites (chosen spread gap [("flag", none), tone])
      (chosen spread plain [("flag", none), tone]) :=
    @Rewrites.value _ _ _ [("open", some spread)] _ "cols" _ _ rfl rfl hnull
  have h₄ : switched.Rewrites (chosen spread plain [("flag", none), tone])
      (chosen spread texts [("flag", none), tone]) :=
    @Rewrites.value _ _ _ [("open", some spread)] _ "cols" _ _ rfl rfl hnumber
  have h₅ : switched.Rewrites (chosen spread texts [("flag", none), tone])
      (chosen spread texts [tone]) :=
    @Rewrites.dropUnset _ _ _ [("open", some spread), ("cols", some texts)] [tone] "flag" rfl rfl
  have h₆ : switched.Rewrites (chosen spread texts [tone]) condensed :=
    @Rewrites.dropUnnamed _ _ _ [("open", some spread), ("cols", some texts)] [] "tone" _ rfl rfl
      hunnamed
  exact .trans _ _ _ (.trans _ _ _ (.rel _ _ h₁) (.rel _ _ h₂))
    (.trans _ _ _ (.trans _ _ _ (.rel _ _ h₃) (.rel _ _ h₄))
      (.trans _ _ _ (.rel _ _ h₅) (.rel _ _ h₆)))

theorem resolve_eq_of_rewrites_condensed :
    Relation.EqvGen switched.Rewrites spelledOut condensed ∧ spelledOut.isEmpty = false ∧
      condensed.isEmpty = false ∧
      switched.resolve (some spelledOut) = switched.resolve (some condensed) :=
  ⟨eqvGen_condensed, by decide, by decide,
    resolve_eq_of_rewrites switched eqvGen_condensed (by decide) (by decide)⟩

example : (switched.resolve (some condensed)).className = "card w2 on shown b1" := by decide

end CompiledRecipe
end StyleVariants
