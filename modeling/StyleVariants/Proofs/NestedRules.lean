import StyleVariants.StyleRule.Lemmas
import Mathlib.Data.List.Infix

/-!
# What a rule says after another one is put under a condition

The blocks of a condition form a path of keys: a block name, a predicate, a block name, and so
on. What a rule says is read off path by path, as the plain value at the end of each. Putting a
rule under a condition replaces all that was said below the path of the condition, clears the
way there, and leaves everything else as it was. So nothing is lost exactly if the new rule
speaks wherever the old one spoke below that path.
-/
namespace StyleVariants

/-- The keys on the way to the rules under the condition, the outermost first. -/
def Condition.keys (c : Condition) : List String := c.path.flatMap fun e => [e.1, e.2]

namespace StyleRule

def plainAt? (rule : StyleRule) : List String → Option StyleValue
  | [] => none
  | [property] => (rule.get? property).filter fun value => value.asBlock?.isNone
  | key :: next :: path => (rule.block key).plainAt? (next :: path)

def replaceAt (rule inner : StyleRule) : List String → StyleRule
  | [] => inner
  | key :: keys => rule.setBlock key ((rule.block key).replaceAt inner keys)

theorem addAt_eq_replaceAt (rule inner : StyleRule) {path : List (String × String)}
    (hp : path ≠ []) :
    rule.addAt inner path = rule.replaceAt inner (path.flatMap fun e => [e.1, e.2]) := by
  induction path generalizing rule with
  | nil => exact (hp rfl).elim
  | cons e path ih =>
      obtain ⟨name, predicate⟩ := e
      cases path with
      | nil => rfl
      | cons next path =>
          rw [addAt, ih _ (List.cons_ne_nil next path)]
          rfl

theorem addUnder_eq_replaceAt (rule inner : StyleRule) {c : Condition}
    (hc : c.isAlways = false) : rule.addUnder c inner = rule.replaceAt inner c.keys := by
  have hpath : c.path ≠ [] := by
    intro hpath
    rw [Condition.isAlways_iff.2 hpath] at hc
    cases hc
  exact addAt_eq_replaceAt rule inner hpath

theorem plainAt?_setBlock_self (rule inner : StyleRule) (key : String) (path : List String) :
    (rule.setBlock key inner).plainAt? (key :: path) = inner.plainAt? path := by
  cases path with
  | nil => simp [plainAt?, setBlock, StyleValue.asBlock?]
  | cons next path => rw [plainAt?, block_setBlock_self]

theorem plainAt?_setBlock_of_ne {key k : String} (h : k ≠ key) (rule inner : StyleRule)
    (path : List String) :
    (rule.setBlock key inner).plainAt? (k :: path) = rule.plainAt? (k :: path) := by
  cases path with
  | nil => rw [plainAt?, plainAt?, setBlock, get?_set_of_ne h]
  | cons next path => rw [plainAt?, plainAt?, block_setBlock_of_ne h]

theorem plainAt?_replaceAt_below (rule inner : StyleRule) (keys path : List String) :
    (rule.replaceAt inner keys).plainAt? (keys ++ path) = inner.plainAt? path := by
  induction keys generalizing rule with
  | nil => rfl
  | cons key keys ih => rw [replaceAt, List.cons_append, plainAt?_setBlock_self, ih]

theorem plainAt?_replaceAt_on_way (rule inner : StyleRule) {keys path : List String}
    (h : path <+: keys) : (rule.replaceAt inner keys).plainAt? path = none := by
  induction path generalizing rule keys with
  | nil => rfl
  | cons key path ih =>
      obtain ⟨rest, rfl⟩ := h
      rw [List.cons_append, replaceAt, plainAt?_setBlock_self]
      exact ih _ (List.prefix_append path rest)

theorem plainAt?_replaceAt_aside (rule inner : StyleRule) {keys path : List String}
    (h : ¬ keys <+: path) (h' : ¬ path <+: keys) :
    (rule.replaceAt inner keys).plainAt? path = rule.plainAt? path := by
  induction keys generalizing rule path with
  | nil => exact (h (List.nil_prefix)).elim
  | cons key keys ih =>
      cases path with
      | nil => rfl
      | cons k path =>
          by_cases hk : k = key
          · subst hk
            simp only [List.cons_prefix_cons, true_and] at h h'
            rw [replaceAt, plainAt?_setBlock_self, ih _ h h']
            -- a path that is not on the way is not empty
            cases path with
            | nil => exact (h' List.nil_prefix).elim
            | cons next path => rfl
          · rw [replaceAt, plainAt?_setBlock_of_ne hk]

def Says (rule : StyleRule) (path : List String) (value : StyleValue) : Prop :=
  rule.plainAt? path = some value

/-- A plain declaration of a rule, below the path of a condition. -/
def SaysUnder (rule : StyleRule) (c : Condition) (path : List String) (value : StyleValue) :
    Prop :=
  ∃ rest, path = c.keys ++ rest ∧ rule.Says rest value

/-- What is declared once a rule is put under a condition: below its path what that rule
declares, on the way there nothing, and elsewhere what was declared before. -/
structure PutUnder (before after inner : StyleRule) (c : Condition) : Prop where
  below : ∀ path, after.plainAt? (c.keys ++ path) = inner.plainAt? path
  on_way : ∀ path, path <+: c.keys → after.plainAt? path = none
  aside : ∀ path, ¬ c.keys <+: path → ¬ path <+: c.keys →
    after.plainAt? path = before.plainAt? path

/-- What was said off the way to a condition is still said there, unless the rule that was put
under the condition says something at that very path. -/
def KeepsAll (said : List String → StyleValue → Prop) (after inner : StyleRule)
    (c : Condition) : Prop :=
  ∀ path value, said path value → ¬ path <+: c.keys →
    after.Says path value ∨ ∃ other, inner.SaysUnder c path other

/-- Wherever something was said below the path of a condition, the rule says something. -/
def Covers (inner : StyleRule) (c : Condition) (said : List String → StyleValue → Prop) : Prop :=
  ∀ path value, said path value → c.keys <+: path → path ≠ c.keys →
    ∃ other, inner.SaysUnder c path other

theorem putUnder_addUnder (rule inner : StyleRule) {c : Condition} (hc : c.isAlways = false) :
    PutUnder rule (rule.addUnder c inner) inner c := by
  rw [addUnder_eq_replaceAt rule inner hc]
  exact ⟨plainAt?_replaceAt_below rule inner c.keys,
    fun _ => plainAt?_replaceAt_on_way rule inner,
    fun _ => plainAt?_replaceAt_aside rule inner⟩

namespace PutUnder
variable {before after inner : StyleRule} {c : Condition}

theorem says_of_saysUnder (h : PutUnder before after inner c) {path : List String}
    {value : StyleValue} (hv : inner.SaysUnder c path value) : after.Says path value := by
  obtain ⟨rest, rfl, hrest⟩ := hv
  rw [Says, h.below]
  exact hrest

theorem saysUnder_of_says (h : PutUnder before after inner c) {path : List String}
    {value : StyleValue} (hbelow : c.keys <+: path) (hv : after.Says path value) :
    inner.SaysUnder c path value := by
  obtain ⟨rest, rfl⟩ := hbelow
  refine ⟨rest, rfl, ?_⟩
  rw [Says, ← h.below]
  exact hv

theorem keepsAll_iff (h : PutUnder before after inner c)
    {said : List String → StyleValue → Prop}
    (hsaid : ∀ path value, said path value → before.Says path value) :
    KeepsAll said after inner c ↔ inner.Covers c said := by
  constructor
  · intro hkeeps path value hv hbelow hne
    have hoff : ¬ path <+: c.keys := by
      intro hway
      exact hne (hway.eq_of_length_le hbelow.length_le)
    rcases hkeeps path value hv hoff with hkept | hcovered
    · exact ⟨value, h.saysUnder_of_says hbelow hkept⟩
    · exact hcovered
  · intro hcovers path value hv hoff
    by_cases hbelow : c.keys <+: path
    · have hne : path ≠ c.keys := by
        rintro rfl
        exact hoff List.prefix_rfl
      exact .inr (hcovers path value hv hbelow hne)
    · left
      rw [Says, h.aside path hbelow hoff]
      exact hsaid path value hv

end PutUnder

/-- Putting a rule under a condition keeps all that was said iff the rule covers what was said
below the path of the condition. So of two rules put under two conditions in turn the second is
there, and the first is kept iff the second covers it. -/
theorem addUnder_keepsAll_iff (rule inner : StyleRule) {c : Condition}
    (hc : c.isAlways = false) :
    PutUnder rule (rule.addUnder c inner) inner c ∧
    (KeepsAll rule.Says (rule.addUnder c inner) inner c ↔ inner.Covers c rule.Says) ∧
    ∀ (later : StyleRule) (c' : Condition), c'.isAlways = false →
      (∀ path value, later.SaysUnder c' path value →
        ((rule.addUnder c inner).addUnder c' later).Says path value) ∧
      (KeepsAll (inner.SaysUnder c) ((rule.addUnder c inner).addUnder c' later) later c' ↔
        later.Covers c' (inner.SaysUnder c)) := by
  have hput := putUnder_addUnder rule inner hc
  refine ⟨hput, hput.keepsAll_iff fun _ _ hv => hv, fun later c' hc' => ?_⟩
  have hlater := putUnder_addUnder (rule.addUnder c inner) later hc'
  constructor
  · intro path value hv
    exact hlater.says_of_saysUnder hv
  · exact hlater.keepsAll_iff fun _ _ hv => hput.says_of_saysUnder hv

def printed : Condition := Condition.always.insert .media "print"

def hovered : Condition := printed.insert .selector "&:hover"

def reddened : StyleRule := (∅ : StyleRule).set "color" (.text "red")

def unspaced : StyleRule := (∅ : StyleRule).set "margin" (.text "0")

/-- The rule for paper comes first, and both are there at the end. -/
theorem addUnder_keepsAll_iff_hovered :
    printed.isAlways = false ∧ hovered.isAlways = false ∧
    PutUnder ∅ ((∅ : StyleRule).addUnder printed unspaced) unspaced printed ∧
    (KeepsAll (∅ : StyleRule).Says ((∅ : StyleRule).addUnder printed unspaced) unspaced printed ↔
      unspaced.Covers printed (∅ : StyleRule).Says) ∧
    (∀ path value, reddened.SaysUnder hovered path value →
      (((∅ : StyleRule).addUnder printed unspaced).addUnder hovered reddened).Says path value) ∧
    (KeepsAll (unspaced.SaysUnder printed)
        (((∅ : StyleRule).addUnder printed unspaced).addUnder hovered reddened) reddened hovered ↔
      reddened.Covers hovered (unspaced.SaysUnder printed)) := by
  have hfirst : printed.isAlways = false := rfl
  have hsecond : hovered.isAlways = false := rfl
  obtain ⟨hput, hkeeps, hturn⟩ := addUnder_keepsAll_iff ∅ unspaced hfirst
  exact ⟨hfirst, hsecond, hput, hkeeps, hturn reddened hovered hsecond⟩

/-- The rule for paper comes second and takes the place of the other one, so it does not keep
what was said. -/
theorem not_keepsAll_hovered :
    ¬ KeepsAll ((∅ : StyleRule).addUnder hovered reddened).Says
      (((∅ : StyleRule).addUnder hovered reddened).addUnder printed unspaced) unspaced printed := by
  intro hkeeps
  let path := ["@media", "print", "selectors", "&:hover", "color"]
  have hoff : ¬ path <+: printed.keys := by decide
  rcases hkeeps path (.text "red") rfl hoff with hkept | ⟨other, rest, hrest, hother⟩
  · cases hkept
  · have hkeys : path = printed.keys ++ ["selectors", "&:hover", "color"] := rfl
    have heq : rest = ["selectors", "&:hover", "color"] :=
      List.append_cancel_left (hrest.symm.trans hkeys)
    rw [heq] at hother
    cases hother

end StyleRule
end StyleVariants
