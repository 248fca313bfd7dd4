import StyleVariants.Condition
import StyleVariants.OrderedMap.Lemmas
import StyleVariants.StyleRule.Basic

/-!
# The levels of a rule

A rule has a level of its own, and one for every rule that is nested in it under a block key of a
kind and a predicate, at any depth. Blocks under other keys and plain values in place of a nested
rule have none. All levels are listed, each with the predicates on the way: exactly what is found
by looking these up one after the other, each once, and every level before those nested in it.
-/
namespace StyleVariants

namespace ConditionKind

def ofBlockName? (name : String) : Option ConditionKind := all.find? (·.blockName == name)

theorem ofBlockName?_eq_some_iff {key : String} {kind : ConditionKind} :
    ofBlockName? key = some kind ↔ kind.blockName = key := by
  constructor
  · intro h
    simpa using List.find?_some h
  · rintro rfl
    cases kind <;> decide

end ConditionKind

/-- The declarations and blocks of a nested rule, with the predicates on the way to it, the
outermost first. -/
structure RuleLevel where
  predicates : List (ConditionKind × String)
  entries : List (String × StyleTree)

namespace RuleLevel

def under (kind : ConditionKind) (predicate : String) (level : RuleLevel) : RuleLevel where
  predicates := (kind, predicate) :: level.predicates
  entries := level.entries

def plain (level : RuleLevel) : List (String × String) :=
  level.entries.filterMap fun e => e.2.plainText?.map (e.1, ·)

/-- A level is not met after one that is nested in it, nor twice. -/
def NotWithin (earlier later : RuleLevel) : Prop := ¬ later.predicates <+: earlier.predicates

end RuleLevel

namespace StyleTree

mutual

/-- The levels of a nested rule: its own, then those of its blocks. A plain value has none. -/
def levels : StyleTree → List RuleLevel
  | .block entries => ⟨[], entries⟩ :: levelsIn entries
  | _ => []

def levelsIn : List (String × StyleTree) → List RuleLevel
  | [] => []
  | (key, .block inner) :: entries =>
      (match ConditionKind.ofBlockName? key with
      | some kind => levelsUnder kind inner
      | none => []) ++ levelsIn entries
  | _ :: entries => levelsIn entries

def levelsUnder (kind : ConditionKind) : List (String × StyleTree) → List RuleLevel
  | [] => []
  | (predicate, nested) :: entries =>
      nested.levels.map (·.under kind predicate) ++ levelsUnder kind entries

end

def entries? : StyleTree → Option (List (String × StyleTree))
  | .block entries => some entries
  | _ => none

def child? (t : StyleTree) (key : String) : Option StyleTree :=
  t.entries?.bind (Entries.get? key)

/-- The declarations and blocks to which predicates lead. -/
def levelAt? (t : StyleTree) : List (ConditionKind × String) → Option (List (String × StyleTree))
  | [] => t.entries?
  | (kind, predicate) :: rest => do
      let block ← t.child? kind.blockName
      let nested ← block.child? predicate
      nested.levelAt? rest

end StyleTree

namespace StyleTree

theorem mem_levelsUnder {kind : ConditionKind} {entries : List (String × StyleTree)}
    {level : RuleLevel} : level ∈ levelsUnder kind entries ↔
      ∃ predicate nested, (predicate, nested) ∈ entries ∧
        ∃ inner ∈ nested.levels, inner.under kind predicate = level := by
  induction entries with
  | nil => simp [levelsUnder]
  | cons e entries ih =>
      obtain ⟨predicate, nested⟩ := e
      simp [levelsUnder, ih, or_and_right, exists_or, and_assoc]

theorem mem_levelsIn {entries : List (String × StyleTree)} {level : RuleLevel} :
    level ∈ levelsIn entries ↔
      ∃ kind inner, (kind.blockName, .block inner) ∈ entries ∧ level ∈ levelsUnder kind inner := by
  induction entries with
  | nil => simp [levelsIn]
  | cons e entries ih =>
      obtain ⟨key, t⟩ := e
      cases t with
      | number n => simp [levelsIn, ih]
      | text s => simp [levelsIn, ih]
      | block inner =>
          simp only [levelsIn, List.mem_append, ih, List.mem_cons, Prod.mk.injEq, block.injEq,
            or_and_right, exists_or, ← ConditionKind.ofBlockName?_eq_some_iff]
          cases ConditionKind.ofBlockName? key with
          | none => simp
          | some kind => simp only [Option.some.injEq, and_assoc, exists_and_left,
              exists_eq_left, exists_eq_left']

theorem mem_levels_block {entries : List (String × StyleTree)} {level : RuleLevel} :
    level ∈ (block entries).levels ↔ level = ⟨[], entries⟩ ∨
      ∃ kind inner, (kind.blockName, .block inner) ∈ entries ∧
        ∃ predicate nested, (predicate, nested) ∈ inner ∧
          ∃ below ∈ nested.levels, below.under kind predicate = level := by
  simp only [levels, List.mem_cons, mem_levelsIn, mem_levelsUnder]

theorem child?_eq_some_iff {t nested : StyleTree} (ht : t.Distinct) {key : String} :
    t.child? key = some nested ↔ ∃ entries, t = .block entries ∧ (key, nested) ∈ entries := by
  cases t with
  | number n => simp [child?, entries?]
  | text s => simp [child?, entries?]
  | block entries => simp [child?, entries?, Entries.get?_eq_some_iff ht.1]

theorem distinct_of_mem {entries : List (String × StyleTree)} (h : (block entries).Distinct)
    {key : String} {t : StyleTree} (ht : (key, t) ∈ entries) : t.Distinct :=
  eachDistinct_iff.1 h.2 _ ht

theorem levelAt?_cons_eq_some_iff {t : StyleTree} {kind : ConditionKind} {predicate : String}
    {rest : List (ConditionKind × String)} {entries : List (String × StyleTree)} :
    t.levelAt? ((kind, predicate) :: rest) = some entries ↔
      ∃ block, t.child? kind.blockName = some block ∧
        ∃ nested, block.child? predicate = some nested ∧ nested.levelAt? rest = some entries := by
  simp only [levelAt?, Option.bind_eq_bind, Option.bind_eq_some_iff]

theorem mem_levels_iff {t : StyleTree} (ht : t.Distinct) {level : RuleLevel} :
    level ∈ t.levels ↔ t.levelAt? level.predicates = some level.entries := by
  obtain ⟨predicates, entries⟩ := level
  -- each predicate leads through a block to a rule that is distinct like the one around it
  induction predicates generalizing t with
  | nil =>
      cases t with
      | number n => simp [levels, levelAt?, entries?]
      | text s => simp [levels, levelAt?, entries?]
      | block es => simp [mem_levels_block, levelAt?, entries?, RuleLevel.under, eq_comm (a := es)]
  | cons first rest ih =>
      obtain ⟨kind, predicate⟩ := first
      rw [levelAt?_cons_eq_some_iff]
      constructor
      · intro h
        cases t with
        | number n => simp [levels] at h
        | text s => simp [levels] at h
        | block es =>
            rcases mem_levels_block.1 h with heq | ⟨_, inner, hinner, _, nested, hnested, below,
              hbelow, hlevel⟩
            · cases heq
            · cases hlevel
              have hblock : (block inner).Distinct := distinct_of_mem ht hinner
              have hrule : nested.Distinct := distinct_of_mem hblock hnested
              exact ⟨block inner, (child?_eq_some_iff ht).2 ⟨es, rfl, hinner⟩, nested,
                (child?_eq_some_iff hblock).2 ⟨inner, rfl, hnested⟩, (ih hrule).1 hbelow⟩
      · rintro ⟨b, hb, nested, hn, hlevel⟩
        obtain ⟨es, rfl, hmem⟩ := (child?_eq_some_iff ht).1 hb
        have hblock : b.Distinct := distinct_of_mem ht hmem
        obtain ⟨inner, rfl, hnested⟩ := (child?_eq_some_iff hblock).1 hn
        have hbelow := (ih (distinct_of_mem hblock hnested)).2 hlevel
        exact mem_levels_block.2 (.inr ⟨kind, inner, hmem, predicate, nested, hnested, _, hbelow, rfl⟩)

theorem distinct_of_levelAt? {t : StyleTree} (ht : t.Distinct)
    {predicates : List (ConditionKind × String)} {entries : List (String × StyleTree)}
    (h : t.levelAt? predicates = some entries) : (block entries).Distinct := by
  induction predicates generalizing t with
  | nil =>
      cases t with
      | number n => cases h
      | text s => cases h
      | block es =>
          obtain rfl := Option.some.inj h
          exact ht
  | cons first rest ih =>
      obtain ⟨b, hb, nested, hn, hlevel⟩ := levelAt?_cons_eq_some_iff.1 h
      obtain ⟨es, rfl, hmem⟩ := (child?_eq_some_iff ht).1 hb
      have hblock : b.Distinct := distinct_of_mem ht hmem
      obtain ⟨inner, rfl, hnested⟩ := (child?_eq_some_iff hblock).1 hn
      exact ih (distinct_of_mem hblock hnested) hlevel

theorem notWithin_under {kind other : ConditionKind} {predicate predicate' : String}
    {earlier later : RuleLevel} (h : (other, predicate') ≠ (kind, predicate)) :
    (earlier.under kind predicate).NotWithin (later.under other predicate') := by
  rintro ⟨rest, hrest⟩
  exact h (List.cons.inj hrest).1

theorem notWithin_under_same {kind : ConditionKind} {predicate : String}
    {earlier later : RuleLevel} (h : earlier.NotWithin later) :
    (earlier.under kind predicate).NotWithin (later.under kind predicate) :=
  fun hprefix => h (List.cons_prefix_cons.1 hprefix).2

mutual

/-- Every level stands before those nested in it, and no level is listed twice. -/
theorem pairwise_levels : (t : StyleTree) → t.Distinct → t.levels.Pairwise RuleLevel.NotWithin
  | .number _, _ => .nil
  | .text _, _ => .nil
  | .block entries, h => by
      rw [levels, List.pairwise_cons]
      refine ⟨?_, pairwise_levelsIn entries h.1 h.2⟩
      intro level hlevel
      obtain ⟨kind, inner, -, hunder⟩ := mem_levelsIn.1 hlevel
      obtain ⟨predicate, nested, -, below, -, rfl⟩ := mem_levelsUnder.1 hunder
      rintro ⟨rest, hrest⟩
      cases hrest

theorem pairwise_levelsIn : (entries : List (String × StyleTree)) →
    (entries.map Prod.fst).Nodup → EachDistinct entries →
    (levelsIn entries).Pairwise RuleLevel.NotWithin
  | [], _, _ => .nil
  | (_, .number _) :: entries, hn, h => pairwise_levelsIn entries (List.nodup_cons.1 hn).2 h.2
  | (_, .text _) :: entries, hn, h => pairwise_levelsIn entries (List.nodup_cons.1 hn).2 h.2
  | (key, .block inner) :: entries, hn, h => by
      rw [List.map_cons, List.nodup_cons] at hn
      rw [levelsIn]
      cases hkey : ConditionKind.ofBlockName? key with
      | none => exact pairwise_levelsIn entries hn.2 h.2
      | some kind =>
          obtain rfl := ConditionKind.ofBlockName?_eq_some_iff.1 hkey
          rw [List.pairwise_append]
          refine ⟨pairwise_levelsUnder kind inner h.1.1 h.1.2, pairwise_levelsIn entries hn.2 h.2, ?_⟩
          -- two blocks of one level are of different kinds
          intro earlier hearlier later hlater
          obtain ⟨predicate, _, -, _, -, rfl⟩ := mem_levelsUnder.1 hearlier
          obtain ⟨other, block, hmem, hunder⟩ := mem_levelsIn.1 hlater
          obtain ⟨predicate', _, -, _, -, rfl⟩ := mem_levelsUnder.1 hunder
          apply notWithin_under
          intro heq
          obtain rfl := (Prod.mk.inj heq).1
          exact hn.1 (List.mem_map.2 ⟨_, hmem, rfl⟩)

theorem pairwise_levelsUnder (kind : ConditionKind) : (entries : List (String × StyleTree)) →
    (entries.map Prod.fst).Nodup → EachDistinct entries →
    (levelsUnder kind entries).Pairwise RuleLevel.NotWithin
  | [], _, _ => .nil
  | (predicate, nested) :: entries, hn, h => by
      rw [List.map_cons, List.nodup_cons] at hn
      rw [levelsUnder, List.pairwise_append]
      refine ⟨?_, pairwise_levelsUnder kind entries hn.2 h.2, ?_⟩
      · rw [List.pairwise_map]
        exact (pairwise_levels nested h.1).imp notWithin_under_same
      · intro earlier hearlier later hlater
        obtain ⟨_, -, rfl⟩ := List.mem_map.1 hearlier
        obtain ⟨predicate', _, hmem, _, -, rfl⟩ := mem_levelsUnder.1 hlater
        apply notWithin_under
        intro heq
        obtain rfl := (Prod.mk.inj heq).2
        exact hn.1 (List.mem_map.2 ⟨_, hmem, rfl⟩)

end

end StyleTree

namespace StyleRule

/-- The levels of a rule, its own being the first. -/
def levels (rule : StyleRule) : List RuleLevel := rule.tree.levels

/-- All levels of a rule, each before those nested in it and each once, with each of its
properties once. -/
structure ListsLevels (rule : StyleRule) (levels : List RuleLevel) : Prop where
  mem_iff : ∀ level, level ∈ levels ↔ rule.tree.levelAt? level.predicates = some level.entries
  notWithin : levels.Pairwise RuleLevel.NotWithin
  nodup : ∀ level ∈ levels, (level.entries.map Prod.fst).Nodup

theorem listsLevels (rule : StyleRule) : rule.ListsLevels rule.levels where
  mem_iff _ := StyleTree.mem_levels_iff rule.distinct
  notWithin := StyleTree.pairwise_levels rule.tree rule.distinct
  nodup _ hlevel :=
    (StyleTree.distinct_of_levelAt? rule.distinct
      ((StyleTree.mem_levels_iff rule.distinct).1 hlevel)).1

end StyleRule
end StyleVariants
