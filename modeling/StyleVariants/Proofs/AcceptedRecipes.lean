import StyleVariants.Recipe.Blueprint
import StyleVariants.OrderedMap.Lemmas
import Mathlib.Data.List.Basic

/-!
# What an accepted recipe says

The blueprint of an accepted recipe says what the recipe says, with conditions and initial
condition settled: its styles are the rules that the recipe declares, in the same places
and in the same order. No axis of it belongs to two groups.
-/
namespace StyleVariants

section Traversal
variable {ε κ α β : Type}

theorem eq_ok_of_bind {x : Except ε α} {f : α → Except ε β} {b : β} (h : x >>= f = .ok b) :
    ∃ a, x = .ok a ∧ f a = .ok b := by
  cases x with
  | error error => cases h
  | ok a => exact ⟨a, rfl, h⟩

theorem Entries.eq_map_of_mapM {f : κ → α → Except ε β} {g : β → α}
    (hf : ∀ k a b, f k a = .ok b → a = g b) {es : List (κ × α)}
    {bs : {bs : List (κ × β) // bs.map Prod.fst = es.map Prod.fst}}
    (h : Entries.mapM f es = .ok bs) : es = bs.1.map fun e => (e.1, g e.2) := by
  induction es with
  | nil =>
      cases h
      rfl
  | cons e rest ih =>
      obtain ⟨k, a⟩ := e
      obtain ⟨b, hb, h⟩ := eq_ok_of_bind h
      obtain ⟨others, hrest, h⟩ := eq_ok_of_bind h
      cases h
      rw [List.map_cons, ← ih hrest, ← hf k a b hb]

theorem OrderedMap.eq_map_of_mapM {f : κ → α → Except ε β} {g : β → α}
    (hf : ∀ k a b, f k a = .ok b → a = g b) {m : OrderedMap κ α} {n : OrderedMap κ β}
    (h : m.mapM f = .ok n) : m = n.map fun _ b => g b := by
  obtain ⟨bs, hbs, h⟩ := eq_ok_of_bind h
  cases h
  exact ext_entries (Entries.eq_map_of_mapM hf hbs)

end Traversal

theorem Style.eq_rule_of_ruleAt {style : Style} {location : String} {rule : StyleRule}
    (h : style.ruleAt location = .ok rule) : style = .rule rule := by
  cases style with
  | rule r =>
      cases h
      rfl
  | reference className => simp [ruleAt, asRule?] at h
  | references classNames => simp [ruleAt, asRule?] at h

def ruleStyles (axes : Axes StyleRule) : Axes Style :=
  axes.map fun _ options => options.map fun _ rule => .rule rule

namespace Recipe

theorem eq_ruleStyles_of_groupRules {group : String} {axes : Axes Style}
    {rules : Axes StyleRule} (h : groupRules group axes = .ok rules) :
    axes = ruleStyles rules := by
  let restore (options : OrderedMap String StyleRule) : OrderedMap String Style :=
    options.map fun _ rule => .rule rule
  refine OrderedMap.eq_map_of_mapM (g := restore) (fun axis options rules hoptions => ?_) h
  exact OrderedMap.eq_map_of_mapM (fun _ _ _ hstyle => Style.eq_rule_of_ruleAt hstyle) hoptions

theorem eq_map_of_compoundRules {index : Nat} {compounds : List Compound}
    {rules : List CompoundRule} (h : compoundRules index compounds = .ok rules) :
    compounds = rules.map fun c => ⟨c.required, .rule c.rule⟩ := by
  induction compounds generalizing index rules with
  | nil =>
      cases h
      rfl
  | cons compound rest ih =>
      obtain ⟨rule, hr, h⟩ := eq_ok_of_bind h
      obtain ⟨others, hrest, h⟩ := eq_ok_of_bind h
      cases h
      rw [List.map_cons, ← ih hrest, ← Style.eq_rule_of_ruleAt hr]

/-- No axis occurs twice, or among those seen before, iff there is no overlap to report. -/
theorem firstOverlap?_eq_none_iff {seen axes : List (String × String)} :
    firstOverlap? seen axes = none ↔
      (axes.map Prod.fst).Nodup ∧ ∀ axis ∈ axes.map Prod.fst, axis ∉ seen.map Prod.fst := by
  induction axes generalizing seen with
  | nil => simp [firstOverlap?]
  | cons e rest ih =>
      obtain ⟨axis, group⟩ := e
      cases hseen : Entries.get? axis seen with
      | some first =>
          have hmem : axis ∈ seen.map Prod.fst :=
            List.mem_map_of_mem (f := Prod.fst) (Entries.mem_of_get? hseen)
          simp only [firstOverlap?, hseen, reduceCtorEq, false_iff, not_and]
          exact fun _ hnot => hnot axis (by simp) hmem
      | none =>
          have hnew := Entries.get?_eq_none_iff.1 hseen
          simp only [firstOverlap?, hseen, ih, List.map_cons, List.nodup_cons,
            List.forall_mem_cons]
          simp only [List.mem_cons, not_or]
          constructor
          · rintro ⟨hn, hrest⟩
            exact ⟨⟨fun hm => (hrest axis hm).1 rfl, hn⟩, hnew, fun a ha => (hrest a ha).2⟩
          · rintro ⟨⟨haxis, hn⟩, -, hrest⟩
            exact ⟨hn, fun a ha => ⟨fun he => haxis (he ▸ ha), hrest a ha⟩⟩

end Recipe

/-- A blueprint that says what a recipe of a family says. -/
structure Blueprint.Restates (plan : Blueprint) (r : Recipe) (family : RecipeDefaults) :
    Prop where
  initial : plan.initial = Recipe.settleInitial r.initial family.initial
  conditions : plan.conditions = r.conditions.getD family.conditions
  base : plan.base = .ofStyle r.base
  regular : r.regular = ruleStyles plan.regular
  responsive : r.responsive = ruleStyles plan.responsive
  inline : r.inline = plan.inline
  compounds : r.compounds = plan.compounds.map fun c => ⟨c.required, .rule c.rule⟩
  defaults : r.defaults = plan.defaults
  axes_nodup : (plan.regular.keys ++ plan.responsive.keys ++ plan.inline.keys).Nodup

theorem Recipe.axes_nodup_of_blueprint {r : Recipe} {family : RecipeDefaults}
    {plan : Blueprint} (h : r.blueprint family = .ok plan) :
    (r.regular.keys ++ r.responsive.keys ++ r.inline.keys).Nodup := by
  unfold Recipe.blueprint at h
  cases hoverlap : firstOverlap? [] r.axes with
  | some error => simp [hoverlap] at h
  | none =>
      have hn := (firstOverlap?_eq_none_iff.1 hoverlap).1
      simpa [axes, Function.comp_def] using hn

theorem Recipe.restates_of_blueprint {r : Recipe} {family : RecipeDefaults} {plan : Blueprint}
    (h : r.blueprint family = .ok plan) : plan.Restates r family := by
  have hn := r.axes_nodup_of_blueprint h
  unfold Recipe.blueprint at h
  cases hoverlap : firstOverlap? [] r.axes with
  | some error => simp [hoverlap] at h
  | none =>
      simp only [hoverlap] at h
      obtain ⟨regular, hregular, h⟩ := eq_ok_of_bind h
      obtain ⟨responsive, hresponsive, h⟩ := eq_ok_of_bind h
      obtain ⟨compounds, hcompounds, h⟩ := eq_ok_of_bind h
      cases h
      have hr := eq_ruleStyles_of_groupRules hregular
      have hs := eq_ruleStyles_of_groupRules hresponsive
      have hkeys : r.regular.keys = regular.keys ∧ r.responsive.keys = responsive.keys := by
        rw [hr, hs]
        simp [ruleStyles]
      exact {
        initial := rfl
        conditions := rfl
        base := rfl
        regular := hr
        responsive := hs
        inline := rfl
        compounds := eq_map_of_compoundRules hcompounds
        defaults := rfl
        axes_nodup := by rw [← hkeys.1, ← hkeys.2]; exact hn }

namespace Blueprint.Restates
variable {plan : Blueprint} {r : Recipe} {family : RecipeDefaults} {axis : String}

theorem keys_regular (h : plan.Restates r family) : r.regular.keys = plan.regular.keys := by
  rw [h.regular, ruleStyles, OrderedMap.keys_map]

theorem exists_responsive (h : plan.Restates r family) {options : OrderedMap String Style}
    (haxis : r.responsive.get? axis = some options) :
    ∃ rules, plan.responsive.get? axis = some rules ∧ rules.keys = options.keys := by
  rw [h.responsive, ruleStyles, OrderedMap.get?_map] at haxis
  obtain ⟨rules, hrules, rfl⟩ := Option.map_eq_some_iff.1 haxis
  exact ⟨rules, hrules, (OrderedMap.keys_map _ rules).symm⟩

theorem get?_regular_eq_none (h : plan.Restates r family) {rules : OrderedMap String StyleRule}
    (haxis : plan.responsive.get? axis = some rules) : plan.regular.get? axis = none := by
  have hresponsive : axis ∈ plan.responsive.keys := OrderedMap.mem_keys_iff.2 ⟨rules, haxis⟩
  have hdisjoint := (List.nodup_append.1 (List.nodup_append.1 h.axes_nodup).1).2.2
  cases hget : plan.regular.get? axis with
  | none => rfl
  | some table =>
      have hmem : axis ∈ plan.regular.keys := OrderedMap.mem_keys_iff.2 ⟨table, hget⟩
      exact (hdisjoint axis hmem axis hresponsive rfl).elim

end Blueprint.Restates
end StyleVariants
