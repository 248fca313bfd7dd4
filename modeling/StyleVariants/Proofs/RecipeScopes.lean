import StyleVariants.CustomProperty.Registry
import StyleVariants.Digest.Blake3
import StyleVariants.Proofs.PropertyRuns

/-!
# Scopes of recipes

A registry of properties hashes its scope, a hint and an index, joined by colons. Neither a
hint that is fit for a name nor an index has a colon, so a hashed text tells the scope of its
registry. The scope of a recipe is made in the same way, of file scope, debug id and digits
that stand for the recipe. But file scope and debug id are taken as they come: what stands
between two colons can belong to either of them, and then two recipes have one scope.
-/
namespace StyleVariants

/-- Two pairs of texts that are told apart only by which side of the colon a part of them is
on. -/
def Shifted (front back front' back' : String) : Prop :=
  ∃ between, (front = front' ++ ":" ++ between ∧ back' = between ++ ":" ++ back) ∨
    (front' = front ++ ":" ++ between ∧ back = between ++ ":" ++ back')

theorem Shifted.of_toList {front back front' back' : String} {rest : List Char}
    (hfront : front'.toList = front.toList ++ rest)
    (hback : ':' :: back.toList = rest ++ ':' :: back'.toList) :
    (front = front' ∧ back = back') ∨ Shifted front back front' back' := by
  cases rest with
  | nil =>
      left
      rw [List.append_nil] at hfront
      rw [List.nil_append, List.cons.injEq] at hback
      exact ⟨String.toList_injective hfront.symm, String.toList_injective hback.2⟩
  | cons c rest =>
      right
      obtain ⟨rfl, hrest⟩ := List.cons.inj hback
      refine ⟨String.ofList rest, .inr ⟨?_, ?_⟩⟩ <;> apply String.toList_injective
      · simp [hfront]
      · simpa using hrest

theorem Shifted.symm {front back front' back' : String} (h : Shifted front back front' back') :
    Shifted front' back' front back := by
  obtain ⟨between, h | h⟩ := h
  · exact ⟨between, .inr h⟩
  · exact ⟨between, .inl h⟩

theorem append_colon_eq_iff {front back front' back' : String} :
    front ++ ":" ++ back = front' ++ ":" ++ back' ↔
      (front = front' ∧ back = back') ∨ Shifted front back front' back' := by
  constructor
  · intro h
    have hlist := congrArg String.toList h
    simp only [String.toList_append, List.append_assoc] at hlist
    rcases List.append_eq_append_iff.1 hlist with ⟨rest, hfront, hback⟩ | ⟨rest, hfront, hback⟩
    · exact Shifted.of_toList hfront hback
    · rcases Shifted.of_toList hfront hback with ⟨rfl, rfl⟩ | hshifted
      · exact .inl ⟨rfl, rfl⟩
      · exact .inr hshifted.symm
  · rintro (⟨rfl, rfl⟩ | ⟨between, ⟨rfl, rfl⟩ | ⟨rfl, rfl⟩⟩)
    · rfl
    · simp only [String.append_assoc]
    · simp only [String.append_assoc]

theorem eq_of_append_colon {front back front' back' : String} (hb : ':' ∉ back.toList)
    (hb' : ':' ∉ back'.toList) (h : front ++ ":" ++ back = front' ++ ":" ++ back') :
    front = front' ∧ back = back' := by
  rcases append_colon_eq_iff.1 h with hsame | ⟨between, ⟨-, rfl⟩ | ⟨-, rfl⟩⟩
  · exact hsame
  · exact (hb' (by simp)).elim
  · exact (hb (by simp)).elim

theorem colon_not_mem_hashDigits {digest : String → String}
    (hdigest : ∀ text, Hexadecimal (digest text)) (input : String) (count : Nat) :
    ':' ∉ (ClassName.hashDigits digest input count).toList := by
  intro hmem
  exact absurd (ClassName.isHexDigit_of_mem_hashDigits (hdigest input) hmem) (by decide)

theorem colon_not_mem_index (index : Nat) : ':' ∉ (toString index).toList := by
  intro hmem
  rw [Nat.toString_eq_ofList_toDigits, String.toList_ofList] at hmem
  have hdigit := Nat.isDigit_of_mem_toDigits (by decide) (by decide) hmem
  exact absurd hdigit (by decide)

namespace PropertyRegistry

theorem colon_not_mem_settleHint (hint : String) : ':' ∉ (settleHint hint).toList := by
  by_cases hempty : ClassName.sanitize hint = ""
  · simp only [settleHint, if_pos hempty]
    decide
  · simp only [settleHint, if_neg hempty]
    intro hmem
    exact absurd (ClassName.isNameChar_of_mem_sanitize hmem) (by decide)

/-- A hashed text tells the scope of its registry. -/
theorem scope_eq_of_hashInput {scope scope' hint hint' : String} {index index' : Nat}
    (h : hashInput scope (settleHint hint) index = hashInput scope' (settleHint hint') index') :
    scope = scope' := by
  have hfront := (eq_of_append_colon (colon_not_mem_index index) (colon_not_mem_index index') h).1
  exact (eq_of_append_colon (colon_not_mem_settleHint hint)
    (colon_not_mem_settleHint hint') hfront).1

/-- The indices at which the search for a new name arrives: it goes on from an index if the
name there is taken. -/
inductive Probes (digest : String → String) (registry : PropertyRegistry) (hint : String) :
    Nat → Prop
  | first : Probes digest registry hint registry.names.length
  | next {index : Nat} : Probes digest registry hint index →
      candidate digest registry.scope hint index ∈ registry.names →
      Probes digest registry hint (index + 1)

/-- A registry hashes a text at some call, whatever it was asked for before. -/
def Hashes (digest : String → String) (registry : PropertyRegistry) (text : String) : Prop :=
  ∃ steps later hint index, (allocator digest).Run registry steps later ∧
    later.Probes digest (settleHint hint) index ∧
    text = hashInput later.scope (settleHint hint) index

theorem customProperty_scope {digest : String → String} {p q : PropertyRegistry}
    {hint answer : String} (h : customProperty digest hint p = (answer, q)) :
    q.scope = p.scope := by
  unfold customProperty at h
  split at h
  · obtain ⟨-, rfl⟩ := Prod.mk.inj h
    rfl
  · obtain ⟨-, rfl⟩ := Prod.mk.inj h
    rfl

theorem run_scope {digest : String → String} {p q : PropertyRegistry}
    {steps : List (String × String × PropertyRegistry)}
    (h : (allocator digest).Run p steps q) : q.scope = p.scope := by
  induction h with
  | done p => rfl
  | step hstep _ ih => exact ih.trans (customProperty_scope hstep)

theorem hashes_first (digest : String → String) (registry : PropertyRegistry) (hint : String) :
    registry.Hashes digest
      (hashInput registry.scope (settleHint hint) registry.names.length) :=
  ⟨[], registry, hint, registry.names.length, .done registry, .first, rfl⟩

theorem Hashes.scope_eq {digest : String → String} {p q : PropertyRegistry} {text : String}
    (h : p.Hashes digest text) (h' : q.Hashes digest text) : p.scope = q.scope := by
  obtain ⟨steps, later, hint, index, hrun, -, rfl⟩ := h
  obtain ⟨steps', later', hint', index', hrun', -, heq⟩ := h'
  rw [← run_scope hrun, ← run_scope hrun']
  exact scope_eq_of_hashInput heq

theorem ofRecipe_eq_iff {digest : String → String} (hdigest : ∀ text, Hexadecimal (digest text))
    {fileScope fileScope' : String} {debugId debugId' : Option String} {r r' : Recipe} :
    ofRecipe digest fileScope debugId r = ofRecipe digest fileScope' debugId' r' ↔
      ClassName.hashDigits digest r.text 8 = ClassName.hashDigits digest r'.text 8 ∧
      ((fileScope = fileScope' ∧ debugId.getD "" = debugId'.getD "") ∨
        Shifted fileScope (debugId.getD "") fileScope' (debugId'.getD "")) := by
  rw [ofRecipe, ofRecipe, PropertyRegistry.mk.injEq, ← append_colon_eq_iff]
  constructor
  · rintro ⟨hscope, -⟩
    obtain ⟨hfront, hdigits⟩ := eq_of_append_colon
      (colon_not_mem_hashDigits hdigest r.text 8) (colon_not_mem_hashDigits hdigest r'.text 8) hscope
    exact ⟨hdigits, hfront⟩
  · rintro ⟨hdigits, hfront⟩
    rw [hfront, hdigits]
    exact ⟨rfl, rfl⟩

/-- The registries of two recipes never hash a common text, unless they are one and the same.
They are the same for recipes that the digits do not tell apart if file scopes and debug ids
agree, or if a part of one file scope stands at the front of the other debug id. -/
theorem ofRecipe_share_text_iff (digest : String → String)
    (hdigest : ∀ text, Hexadecimal (digest text)) (fileScope fileScope' : String)
    (debugId debugId' : Option String) (r r' : Recipe) :
    let registry := ofRecipe digest fileScope debugId r
    let other := ofRecipe digest fileScope' debugId' r'
    ((∃ text, registry.Hashes digest text ∧ other.Hashes digest text) ↔ registry = other) ∧
    (registry = other ↔
      ClassName.hashDigits digest r.text 8 = ClassName.hashDigits digest r'.text 8 ∧
      ((fileScope = fileScope' ∧ debugId.getD "" = debugId'.getD "") ∨
        Shifted fileScope (debugId.getD "") fileScope' (debugId'.getD ""))) := by
  intro registry other
  refine ⟨⟨?_, ?_⟩, ofRecipe_eq_iff hdigest⟩
  · rintro ⟨text, htext, htext'⟩
    have hscope : registry.scope = other.scope := htext.scope_eq htext'
    exact congrArg (PropertyRegistry.mk · []) hscope
  · intro heq
    rw [heq]
    exact ⟨_, other.hashes_first digest "", other.hashes_first digest ""⟩

def gapRecipe : Recipe where
  inline := .ofList [("gap", { property := "gap" })]

/-- The recipe `c` of the file `a:b` and the recipe `b:c` of the file `a`. -/
theorem ofRecipe_share_text_iff_gap :
    let registry := ofRecipe Blake3.hexDigest "a:b" (some "c") gapRecipe
    let other := ofRecipe Blake3.hexDigest "a" (some "b:c") gapRecipe
    (∀ text, Hexadecimal (Blake3.hexDigest text)) ∧
    ((∃ text, registry.Hashes Blake3.hexDigest text ∧ other.Hashes Blake3.hexDigest text) ↔
      registry = other) ∧
    (registry = other ↔
      ClassName.hashDigits Blake3.hexDigest gapRecipe.text 8 =
        ClassName.hashDigits Blake3.hexDigest gapRecipe.text 8 ∧
      (("a:b" = "a" ∧ (some "c").getD "" = (some "b:c").getD "") ∨
        Shifted "a:b" ((some "c").getD "") "a" ((some "b:c").getD ""))) :=
  ⟨Blake3.hexadecimal_hexDigest, ofRecipe_share_text_iff Blake3.hexDigest
    Blake3.hexadecimal_hexDigest "a:b" "a" (some "c") (some "b:c") gapRecipe gapRecipe⟩

/-- The two differ in file scope and debug id, and hash the same texts. -/
theorem not_hashes_apart :
    ¬ ∀ (fileScope fileScope' : String) (debugId debugId' : Option String) (r r' : Recipe),
      fileScope ≠ fileScope' ∨ debugId.getD "" ≠ debugId'.getD "" →
      ∀ text, (ofRecipe Blake3.hexDigest fileScope debugId r).Hashes Blake3.hexDigest text →
        ¬ (ofRecipe Blake3.hexDigest fileScope' debugId' r').Hashes Blake3.hexDigest text := by
  intro hapart
  have hshifted : Shifted "a:b" "c" "a" "b:c" := ⟨"b", .inl ⟨by decide, by decide⟩⟩
  have hsame : ofRecipe Blake3.hexDigest "a:b" (some "c") gapRecipe =
      ofRecipe Blake3.hexDigest "a" (some "b:c") gapRecipe :=
    (ofRecipe_eq_iff Blake3.hexadecimal_hexDigest).2 ⟨rfl, .inr hshifted⟩
  have hfirst := hashes_first Blake3.hexDigest
    (ofRecipe Blake3.hexDigest "a:b" (some "c") gapRecipe) "gap-initial"
  have hother := hapart "a:b" "a" (some "c") (some "b:c") gapRecipe gapRecipe
    (.inl (by decide)) _ hfirst
  rw [← hsame] at hother
  exact hother hfirst

end PropertyRegistry
end StyleVariants
