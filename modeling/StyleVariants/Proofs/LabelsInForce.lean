import StyleVariants.CompiledRecipe.Resolve
import StyleVariants.OrderedMap.Lemmas

/-!
# Labels in force

Along a list of conditions a label stays in force until another one is given. This
module says so without a scan: the label in force at a position is the one given last
at that position or before it. `fill` computes exactly this, for single values, for
values per condition with gaps and nulls, and for conditions in any order. The values
that a selection puts in force are described axis by axis.
-/
namespace StyleVariants

namespace SelectionValue

/-- A single value is given under the initial condition, a value per condition wherever
it has an entry that is not null. -/
inductive Gives (initial : String) : SelectionValue → String → String → Prop
  | single (value : Primitive) : Gives initial (.single value) initial value.label
  | entry {values : OrderedMap String (Option Primitive)} {condition : String}
      {value : Primitive} : values.get? condition = some (some value) →
      Gives initial (.perCondition values) condition value.label

theorem labelAt?_eq_some_iff {value : SelectionValue} {initial condition label : String} :
    value.labelAt? initial condition = some label ↔ value.Gives initial condition label := by
  constructor
  · intro h
    cases value with
    | single p =>
        by_cases hc : condition = initial
        · subst hc
          simp only [labelAt?, if_true, Option.some.injEq] at h
          exact h ▸ .single p
        · simp [labelAt?, hc] at h
    | perCondition values =>
        obtain ⟨entry, he, hl⟩ := Option.bind_eq_some_iff.1 h
        obtain ⟨p, rfl, rfl⟩ := Option.map_eq_some_iff.1 hl
        exact .entry he
  · intro h
    cases h with
    | single p => simp [labelAt?]
    | entry he => simp [labelAt?, he]

theorem labelAt?_eq_none_iff {value : SelectionValue} {initial condition : String} :
    value.labelAt? initial condition = none ↔
      ∀ label, ¬ value.Gives initial condition label := by
  simp only [Option.eq_none_iff_forall_ne_some, ← labelAt?_eq_some_iff, ne_eq]

theorem mem_given_iff {value : SelectionValue} {initial condition label : String} :
    (condition, label) ∈ value.given initial ↔ value.Gives initial condition label := by
  rw [← labelAt?_eq_some_iff]
  cases value with
  | single p =>
      simp only [given, List.mem_singleton, Prod.mk.injEq, labelAt?]
      by_cases hc : condition = initial <;> simp [hc, eq_comm]
  | perCondition values =>
      simp only [given, List.mem_filterMap, labelAt?, Option.bind_eq_some_iff]
      constructor
      · rintro ⟨e, he, hlabel⟩
        obtain ⟨p, hp, heq⟩ := Option.map_eq_some_iff.1 hlabel
        obtain ⟨rfl, rfl⟩ := Prod.mk.inj heq
        exact ⟨some p, OrderedMap.get?_eq_some_iff.2 (hp ▸ he), rfl⟩
      · rintro ⟨entry, he, hlabel⟩
        refine ⟨(condition, entry), OrderedMap.get?_eq_some_iff.1 he, ?_⟩
        obtain ⟨p, rfl, rfl⟩ := Option.map_eq_some_iff.1 hlabel
        rfl

/-- Among the conditions up to position `i`, the last one with a label stands at position
`j`. -/
structure LatestGiven (value : SelectionValue) (initial : String) (conditions : List String)
    (i j : Nat) (condition label : String) : Prop where
  le : j ≤ i
  condition_at : conditions[j]? = some condition
  gives : value.Gives initial condition label
  not_later : ∀ k later other, j < k → k ≤ i → conditions[k]? = some later →
    ¬ value.Gives initial later other

/-- A label is in force at a position if it is the latest one given. -/
def InForceAt (value : SelectionValue) (initial : String) (conditions : List String)
    (i : Nat) (label : String) : Prop :=
  ∃ j condition, value.LatestGiven initial conditions i j condition label

def lastGiven? (value : SelectionValue) (initial : String) (conditions : List String) :
    Option String :=
  conditions.reverse.findSome? (value.labelAt? initial)

@[simp] theorem lastGiven?_nil (value : SelectionValue) (initial : String) :
    value.lastGiven? initial [] = none := rfl

theorem lastGiven?_cons (value : SelectionValue) (initial condition : String)
    (rest : List String) :
    value.lastGiven? initial (condition :: rest) =
      (value.lastGiven? initial rest).or (value.labelAt? initial condition) := by
  simp [lastGiven?, List.findSome?_append]

@[simp] theorem length_fill (value : SelectionValue) (initial : String)
    (carried : Option String) (conditions : List String) :
    (value.fill initial carried conditions).length = conditions.length := by
  induction conditions generalizing carried with
  | nil => rfl
  | cons condition rest ih => simp [fill, ih]

/-- The scan with a carried label finds the last label given, and the carried one where
none is. -/
theorem getElem?_fill (value : SelectionValue) (initial : String) (carried : Option String)
    {conditions : List String} {i : Nat} (hi : i < conditions.length) :
    (value.fill initial carried conditions)[i]? =
      some ((value.lastGiven? initial (conditions.take (i + 1))).or carried) := by
  induction conditions generalizing carried i with
  | nil => simp at hi
  | cons condition rest ih =>
      cases i with
      | zero => simp [fill, lastGiven?_cons]
      | succ i =>
          have hr : i < rest.length := by simpa using hi
          rw [fill, List.getElem?_cons_succ, ih _ hr, List.take_succ_cons, lastGiven?_cons,
            Option.or_assoc]

theorem Gives.label_unique {value : SelectionValue} {initial condition label other : String}
    (h : value.Gives initial condition label) (h' : value.Gives initial condition other) :
    label = other :=
  Option.some.inj ((labelAt?_eq_some_iff.2 h).symm.trans (labelAt?_eq_some_iff.2 h'))

theorem LatestGiven.position_unique {value : SelectionValue} {initial : String}
    {conditions : List String} {i j k : Nat} {condition other label label' : String}
    (h : value.LatestGiven initial conditions i j condition label)
    (h' : value.LatestGiven initial conditions i k other label') : j = k := by
  rcases Nat.lt_trichotomy j k with hlt | heq | hgt
  · exact (h.not_later k other label' hlt h'.le h'.condition_at h'.gives).elim
  · exact heq
  · exact (h'.not_later j condition label hgt h.le h.condition_at h.gives).elim

theorem InForceAt.label_unique {value : SelectionValue} {initial : String}
    {conditions : List String} {i : Nat} {label other : String}
    (h : value.InForceAt initial conditions i label)
    (h' : value.InForceAt initial conditions i other) : label = other := by
  obtain ⟨j, condition, hj⟩ := h
  obtain ⟨k, condition', hk⟩ := h'
  obtain rfl := hj.position_unique hk
  obtain rfl := Option.some.inj (hj.condition_at.symm.trans hk.condition_at)
  exact hj.gives.label_unique hk.gives

/-- The last label of a front of the list was given where nothing follows it. -/
theorem inForceAt_of_lastGiven? {value : SelectionValue} {initial : String}
    {conditions : List String} {i : Nat} {label : String}
    (h : value.lastGiven? initial (conditions.take (i + 1)) = some label) :
    value.InForceAt initial conditions i label := by
  obtain ⟨after, condition, before, hsplit, hlabel, hafter⟩ := List.findSome?_eq_some_iff.1 h
  have hfront : conditions.take (i + 1) = before.reverse ++ condition :: after.reverse := by
    simpa using congrArg List.reverse hsplit
  have hlength : before.length < i + 1 := by
    have hl := congrArg List.length hfront
    simp only [List.length_take, List.length_append, List.length_cons, List.length_reverse] at hl
    omega
  have hget : ∀ k < i + 1, conditions[k]? = (before.reverse ++ condition :: after.reverse)[k]? := by
    intro k hk
    rw [← hfront, List.getElem?_take_of_lt hk]
  refine ⟨before.length, condition, by omega, ?_, labelAt?_eq_some_iff.1 hlabel, ?_⟩
  · rw [hget _ hlength]
    simp
  · intro k later other hjk hki hk
    rw [hget k (by omega), List.getElem?_append_right (by rw [List.length_reverse]; omega)] at hk
    obtain ⟨m, hm⟩ : ∃ m, k - before.reverse.length = m + 1 :=
      ⟨k - before.length - 1, by rw [List.length_reverse]; omega⟩
    rw [hm, List.getElem?_cons_succ] at hk
    have hmem : later ∈ after := List.mem_reverse.1 (List.mem_of_getElem? hk)
    exact labelAt?_eq_none_iff.1 (hafter later hmem) other

theorem exists_lastGiven? {value : SelectionValue} {initial condition label : String}
    {conditions : List String} {i j : Nat} (hj : j ≤ i) (hc : conditions[j]? = some condition)
    (hg : value.Gives initial condition label) :
    ∃ other, value.lastGiven? initial (conditions.take (i + 1)) = some other := by
  have hmem : condition ∈ (conditions.take (i + 1)).reverse := by
    rw [List.mem_reverse]
    refine List.mem_of_getElem? (i := j) ?_
    rw [List.getElem?_take_of_lt (by omega), hc]
  cases hl : value.lastGiven? initial (conditions.take (i + 1)) with
  | some other => exact ⟨other, rfl⟩
  | none =>
      have hnone := List.findSome?_eq_none_iff.1 hl condition hmem
      exact (labelAt?_eq_none_iff.1 hnone label hg).elim

theorem lastGiven?_take_iff {value : SelectionValue} {initial : String}
    {conditions : List String} {i : Nat} {label : String} :
    value.lastGiven? initial (conditions.take (i + 1)) = some label ↔
      value.InForceAt initial conditions i label := by
  refine ⟨inForceAt_of_lastGiven?, fun h => ?_⟩
  obtain ⟨j, condition, hj⟩ := h
  obtain ⟨other, hl⟩ := exists_lastGiven? hj.le hj.condition_at hj.gives
  rw [hl, (inForceAt_of_lastGiven? hl).label_unique ⟨j, condition, hj⟩]

theorem fill_eq_some_iff {value : SelectionValue} {initial : String}
    {conditions : List String} {i : Nat} (hi : i < conditions.length) {label : String} :
    (value.fill initial none conditions)[i]? = some (some label) ↔
      value.InForceAt initial conditions i label := by
  rw [getElem?_fill value initial none hi, Option.or_none, Option.some.injEq,
    lastGiven?_take_iff]

end SelectionValue

namespace CompiledRecipe

/-- The value that counts for an axis: what the selection gives it, or else its default. -/
def valueFor? (r : CompiledRecipe) (selection : Selection) (axis : String) :
    Option SelectionValue :=
  (selection.get? axis).join.or ((r.defaults.get? axis).map .single)

theorem get?_foldl_choose {entries : List (String × Option SelectionValue)}
    (hn : (entries.map Prod.fst).Nodup) (values : OrderedMap String SelectionValue)
    (axis : String) :
    (entries.foldl (fun values e =>
        match e.2 with
        | some value => values.insert e.1 value
        | none => values) values).get? axis =
      (Entries.get? axis entries).join.or (values.get? axis) := by
  induction entries generalizing values with
  | nil => rfl
  | cons e rest ih =>
      obtain ⟨key, choice⟩ := e
      simp only [List.map_cons, List.nodup_cons] at hn
      rw [List.foldl_cons, ih hn.2]
      by_cases hk : key = axis
      · subst hk
        have hrest : Entries.get? key rest = none := Entries.get?_eq_none_iff.2 hn.1
        cases choice <;> simp [Entries.get?, hrest]
      · cases choice with
        | none => simp [Entries.get?, hk]
        | some value => simp [Entries.get?, hk, OrderedMap.get?_insert_of_ne (Ne.symm hk)]

theorem get?_inForce (r : CompiledRecipe) (selection : Selection) (axis : String) :
    (r.inForce selection).get? axis = r.valueFor? selection axis := by
  refine (get?_foldl_choose selection.nodup_keys _ axis).trans ?_
  rw [OrderedMap.get?_map]
  rfl

theorem resolve_of_chosen (r : CompiledRecipe) {selection : Selection} {axis : String}
    {value : SelectionValue} (h : selection.get? axis = some (some value)) :
    r.resolve (some selection) = r.resolveInForce (r.inForce selection) ∧
      (r.inForce selection).get? axis = some value := by
  have hempty := OrderedMap.isEmpty_of_get? h
  refine ⟨by simp [resolve, hempty], ?_⟩
  rw [get?_inForce, valueFor?, h]
  rfl

end CompiledRecipe
end StyleVariants
