import StyleVariants.OrderedMap.Lemmas
import StyleVariants.StyleRule.Nest

/-!
# What the operations of style rules do

A declaration is found under its property and leaves all others as they are.
-/
namespace StyleVariants.StyleRule

theorem ext_entries {r s : StyleRule} (h : r.entries = s.entries) : r = s := by
  cases r
  cases s
  simp_all

theorem get?_eq_some_iff {r : StyleRule} {property : String} {value : StyleValue} :
    r.get? property = some value ↔ Entries.get? property r.entries = some value.tree := by
  rw [get?, Option.pmap_eq_some_iff]
  constructor
  · rintro ⟨t, h, ht, rfl⟩
    simpa using ht
  · intro ht
    exact ⟨value.tree, value.tree_distinct, ht, by simp⟩

@[simp] theorem get?_set_self (r : StyleRule) (property : String) (value : StyleValue) :
    (r.set property value).get? property = some value :=
  get?_eq_some_iff.2 (Entries.get?_insert_self property value.tree r.entries)

theorem get?_set_of_ne {property p : String} (h : p ≠ property) (r : StyleRule)
    (value : StyleValue) : (r.set property value).get? p = r.get? p :=
  Option.ext fun v => by
    rw [get?_eq_some_iff, get?_eq_some_iff, set, Entries.get?_insert_of_ne h]

@[simp] theorem block_setBlock_self (r : StyleRule) (name : String) (inner : StyleRule) :
    (r.setBlock name inner).block name = inner := by
  simp [block, setBlock, StyleValue.asBlock?]

theorem block_setBlock_of_ne {name n : String} (h : n ≠ name) (r inner : StyleRule) :
    (r.setBlock name inner).block n = r.block n := by
  rw [block, setBlock, get?_set_of_ne h, block]

@[simp] theorem empty_setAll (r : StyleRule) : (∅ : StyleRule).setAll r = r :=
  ext_entries (Entries.insertAll_of_nodup r.distinct.1)

theorem entries_foldl_set (declarations : List (String × StyleValue)) (r : StyleRule) :
    (declarations.foldl (fun rule e => rule.set e.1 e.2) r).entries =
      Entries.insertAll r.entries (declarations.map fun e => (e.1, e.2.tree)) := by
  induction declarations generalizing r with
  | nil => rfl
  | cons e declarations ih => exact ih (r.set e.1 e.2)

theorem map_tree_toList (r : StyleRule) : r.toList.map (fun e => (e.1, e.2.tree)) = r.entries := by
  simp [toList, List.map_pmap]

@[simp] theorem ofList_toList (r : StyleRule) : ofList r.toList = r := by
  refine ext_entries ?_
  rw [ofList, entries_foldl_set, map_tree_toList]
  exact Entries.insertAll_of_nodup r.distinct.1

@[simp] theorem under_always (r : StyleRule) : r.under .always = r := empty_setAll r

end StyleVariants.StyleRule
