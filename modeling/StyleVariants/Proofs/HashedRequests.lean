import StyleVariants.ClassName.Naming
import StyleVariants.Proofs.DocumentTexts
import StyleVariants.Proofs.NumberTexts

/-!
# Requests told by their hash input

The text that a class is named from by its hash holds the scope, the label and the document of the
rule, a line break between them. The document shows where it ends and which rule it is of, and it
never has a line break of its own: so the last line break of the text stands in front of the rule,
and a label with line breaks and braces cannot pass for another request.
-/
namespace StyleVariants

theorem Quoted.append_inj {s t : String} {rest rest' : List Char}
    (h : Quoted.chars s.toList ++ rest = Quoted.chars t.toList ++ rest') :
    s = t ∧ rest = rest' := by
  have hbody : s.toList.flatMap escape ++ '"' :: rest = t.toList.flatMap escape ++ '"' :: rest' := by
    simpa [Quoted.chars] using h
  have hread := read?_flatMap_escape s rest
  rw [hbody, read?_flatMap_escape] at hread
  obtain ⟨htext, hrest⟩ := Prod.mk.inj (Option.some.inj hread)
  exact ⟨(Option.some.inj htext).symm, hrest.symm⟩

theorem Number.append_inj {n m : Number} {rest rest' : List Char} (hr : Numeral.Ends rest)
    (hr' : Numeral.Ends rest') (h : n.chars ++ rest = m.chars ++ rest') : n = m ∧ rest = rest' := by
  obtain ⟨a, ha⟩ := n.exists_read?_chars
  obtain ⟨b, hb⟩ := m.exists_read?_chars
  have hread := Numeral.read?_append ha hr
  rw [h, Numeral.read?_append hb hr'] at hread
  obtain ⟨-, hrest⟩ := Prod.mk.inj (Option.some.inj hread)
  obtain rfl : rest' = rest := hrest
  exact ⟨chars_injective (List.append_cancel_right h), rfl⟩

theorem Number.chars_append_ne (n : Number) {c : Char} (hminus : c ≠ '-')
    (hdigit : c.isDigit = false) (rest cs : List Char) : n.chars ++ rest ≠ c :: cs := by
  obtain ⟨m, hm⟩ := n.exists_read?_chars
  obtain ⟨d, tail, hd, hfirst⟩ := Numeral.exists_head_of_read? hm
  intro h
  rw [hd, List.cons_append] at h
  obtain ⟨rfl, -⟩ := List.cons.inj h
  rcases hfirst with rfl | hfirst
  · exact hminus rfl
  · rw [hfirst] at hdigit
    cases hdigit

namespace StyleTree
open Json

theorem exists_chars_block (es : List (String × StyleTree)) :
    ∃ tail, (block es).toJson.chars = '\x7b' :: tail := by
  cases es with
  | nil => exact ⟨_, rfl⟩
  | cons e es => exact ⟨_, rfl⟩

/-- An empty block is closed at once, so two blocks with one text are both empty or both not. -/
theorem membersTail_of_block {es fs : List (String × StyleTree)} {rest rest' : List Char}
    (h : (block es).toJson.chars ++ rest = (block fs).toJson.chars ++ rest') :
    membersTail (toMembers es) ++ rest = membersTail (toMembers fs) ++ rest' := by
  cases es with
  | nil =>
      cases fs with
      | nil => exact (List.cons.inj h).2
      | cons f fs => exact absurd (List.cons.inj (List.cons.inj h).2).1 (by decide)
  | cons e es =>
      cases fs with
      | nil => exact absurd (List.cons.inj (List.cons.inj h).2).1 (by decide)
      | cons f fs => exact congrArg (',' :: ·) (List.cons.inj h).2

theorem chars_text_append_ne_block (s : String) (es : List (String × StyleTree))
    (rest rest' : List Char) :
    (text s).toJson.chars ++ rest ≠ (block es).toJson.chars ++ rest' := by
  intro h
  obtain ⟨tail, htail⟩ := exists_chars_block es
  rw [htail] at h
  exact absurd (List.cons.inj h).1 (by decide)

theorem chars_number_append_ne_text (n : Number) (s : String) (rest rest' : List Char) :
    (number n).toJson.chars ++ rest ≠ (text s).toJson.chars ++ rest' :=
  n.chars_append_ne (by decide) rfl rest _

theorem chars_number_append_ne_block (n : Number) (es : List (String × StyleTree))
    (rest rest' : List Char) :
    (number n).toJson.chars ++ rest ≠ (block es).toJson.chars ++ rest' := by
  obtain ⟨tail, htail⟩ := exists_chars_block es
  rw [htail]
  exact n.chars_append_ne (by decide) rfl rest (tail ++ rest')

-- The induction follows the tree. A part shows where it ends whatever stands behind it, so what is
-- left of two texts that start with it is the same, and the next parts can be compared.
mutual

/-- A document shows which tree it is of, and where it ends. -/
theorem append_inj : (t u : StyleTree) → {rest rest' : List Char} → Numeral.Ends rest →
    Numeral.Ends rest' → t.toJson.chars ++ rest = u.toJson.chars ++ rest' → t = u ∧ rest = rest'
  | .number n, .number m, rest, rest', hr, hr', h => by
      obtain ⟨rfl, hrest⟩ := Number.append_inj hr hr' h
      exact ⟨rfl, hrest⟩
  | .text s, .text t, rest, rest', _, _, h => by
      obtain ⟨rfl, hrest⟩ := Quoted.append_inj h
      exact ⟨rfl, hrest⟩
  | .block es, .block fs, rest, rest', _, _, h => by
      obtain ⟨rfl, hrest⟩ := membersTail_append_inj es fs (membersTail_of_block h)
      exact ⟨rfl, hrest⟩
  | .number n, .text t, rest, rest', _, _, h => (chars_number_append_ne_text n t _ _ h).elim
  | .text s, .number m, rest, rest', _, _, h => (chars_number_append_ne_text m s _ _ h.symm).elim
  | .number n, .block fs, _, _, _, _, h => (chars_number_append_ne_block n fs _ _ h).elim
  | .block es, .number m, _, _, _, _, h => (chars_number_append_ne_block m es _ _ h.symm).elim
  | .text s, .block fs, _, _, _, _, h => (chars_text_append_ne_block s fs _ _ h).elim
  | .block es, .text t, _, _, _, _, h => (chars_text_append_ne_block t es _ _ h.symm).elim

theorem membersTail_append_inj : (es fs : List (String × StyleTree)) → {rest rest' : List Char} →
    membersTail (toMembers es) ++ rest = membersTail (toMembers fs) ++ rest' →
      es = fs ∧ rest = rest'
  | [], [], rest, rest', h => ⟨rfl, (List.cons.inj h).2⟩
  | (k, t) :: es, (l, u) :: fs, rest, rest', h => by
      simp only [toMembers, membersTail, List.cons_append, List.append_assoc] at h
      obtain ⟨rfl, hvalue⟩ := Quoted.append_inj (List.cons.inj h).2
      obtain ⟨rfl, hmembers⟩ := append_inj t u (ends_membersTail (toMembers es) rest)
        (ends_membersTail (toMembers fs) rest') (List.cons.inj hvalue).2
      obtain ⟨rfl, hrest⟩ := membersTail_append_inj es fs hmembers
      exact ⟨rfl, hrest⟩
  | [], _ :: _, _, _, h => absurd (List.cons.inj h).1 (by decide)
  | _ :: _, [], _, _, h => absurd (List.cons.inj h).1 (by decide)

end

end StyleTree

theorem StyleRule.text_injective : Function.Injective StyleRule.text := by
  intro rule rule' h
  have hchars : rule.toJson.chars ++ [] = rule'.toJson.chars ++ [] :=
    congrArg (· ++ []) (String.ofList_injective h)
  obtain ⟨htree, -⟩ := StyleTree.append_inj rule.tree rule'.tree Numeral.ends_nil
    Numeral.ends_nil hchars
  cases rule
  cases rule'
  simp_all [StyleRule.tree]

theorem le_toNat_of_isNumberChar {c : Char} (h : isNumberChar c = true) : 32 ≤ c.toNat := by
  have hcodes : ∀ n < 32, isNumberChar (Char.ofNat n) = false := by decide
  refine Nat.le_of_not_lt fun hlt => ?_
  have hcode := hcodes c.toNat hlt
  rw [Char.ofNat_toNat, h] at hcode
  cases hcode

theorem Quoted.le_toNat_of_mem_escape (c : Char) : ∀ d ∈ escape c, 32 ≤ d.toNat := by
  have hhex : ∀ n < 16, 32 ≤ (hexDigit n).toNat := by decide
  fun_cases escape c with
  | case8 _ _ _ _ _ _ _ hcontrol =>
      have hhigh := hhex (c.toNat / 16) (by omega)
      have hlow := hhex (c.toNat % 16) (by omega)
      simp [hhigh, hlow]
  | case9 _ _ _ _ _ _ _ hplain => simpa using hplain
  | _ => simp

theorem Quoted.le_toNat_of_mem_chars {s : List Char} {c : Char} (h : c ∈ chars s) :
    32 ≤ c.toNat := by
  simp only [chars, List.mem_cons, List.mem_append, List.mem_flatMap, List.not_mem_nil,
    or_false] at h
  rcases h with rfl | ⟨d, -, hd⟩ | rfl
  · decide
  · exact le_toNat_of_mem_escape d c hd
  · decide

namespace StyleTree
open Json

mutual

theorem le_toNat_of_mem_chars : (t : StyleTree) → {c : Char} → c ∈ t.toJson.chars → 32 ≤ c.toNat
  | .number _, _, h => le_toNat_of_isNumberChar (Number.isNumberChar_of_mem_chars h)
  | .text _, _, h => Quoted.le_toNat_of_mem_chars h
  | .block es, c, h => by
      have hmember : c = '\x7b' ∨ c ∈ membersTail (toMembers es) := by
        cases es with
        | nil => simpa [toJson, toMembers, Json.chars, membersTail] using h
        | cons e es =>
            simp only [toJson, toMembers, Json.chars, membersTail, List.mem_cons] at h ⊢
            tauto
      rcases hmember with rfl | hmember
      · decide
      · exact le_toNat_of_mem_membersTail es hmember

theorem le_toNat_of_mem_membersTail : (es : List (String × StyleTree)) → {c : Char} →
    c ∈ membersTail (toMembers es) → 32 ≤ c.toNat
  | [], c, h => by
      obtain rfl := List.mem_singleton.1 h
      decide
  | (k, t) :: es, c, h => by
      simp only [toMembers, membersTail, List.mem_cons, List.mem_append] at h
      rcases h with rfl | hkey | rfl | hvalue | hmembers
      · decide
      · exact Quoted.le_toNat_of_mem_chars hkey
      · decide
      · exact le_toNat_of_mem_chars t hvalue
      · exact le_toNat_of_mem_membersTail es hmembers

end

end StyleTree

theorem StyleRule.newline_notMem_text (rule : StyleRule) : '\n' ∉ rule.text.toList := by
  intro h
  rw [text, Json.text, String.toList_ofList] at h
  exact absurd (StyleTree.le_toNat_of_mem_chars rule.tree h) (by decide)

/-- The last of a kind of characters splits a text in one way. -/
theorem eq_of_append_last {xs xs' ys ys' : List Char} {c : Char} (hy : c ∉ ys) (hy' : c ∉ ys')
    (h : xs ++ c :: ys = xs' ++ c :: ys') : xs = xs' ∧ ys = ys' := by
  rcases List.append_eq_append_iff.1 h with ⟨between, hxs, hys⟩ | ⟨between, hxs, hys⟩
  · cases between with
    | nil => simp_all
    | cons d between =>
        rw [(List.cons.inj hys).2] at hy
        simp at hy
  · cases between with
    | nil => simp_all
    | cons d between =>
        rw [(List.cons.inj hys).2] at hy'
        simp at hy'

namespace ClassName
variable {scope : String} {label label' : Option String} {rule rule' : StyleRule}

theorem label_eq_of_hashInput_eq (h : hashInput scope label rule = hashInput scope label' rule') :
    label.getD "" = label'.getD "" ∧ rule = rule' := by
  have hchars : (label.getD "").toList ++ '\n' :: rule.text.toList =
      (label'.getD "").toList ++ '\n' :: rule'.text.toList := by
    have hbreak : "\n".toList = ['\n'] := rfl
    have hlist := congrArg String.toList h
    simp only [hashInput, String.toList_append, List.append_assoc, hbreak] at hlist
    exact (List.cons.inj (List.append_cancel_left hlist)).2
  obtain ⟨hlabel, hrule⟩ := eq_of_append_last rule.newline_notMem_text rule'.newline_notMem_text
    hchars
  exact ⟨String.toList_injective hlabel, StyleRule.text_injective (String.toList_injective hrule)⟩

/-- Requests with different hash inputs are named apart by some hash. -/
theorem forall_generate_eq_iff :
    (∀ digest, generate digest .hash scope label rule = generate digest .hash scope label' rule') ↔
      hashInput scope label rule = hashInput scope label' rule' := by
  constructor
  · intro h
    by_contra hne
    let digest (input : String) : String :=
      if input = hashInput scope label rule then "0" else "1"
    have hname := (String.append_right_inj (scope ++ "__")).1 (h digest)
    have hfirst : digest (hashInput scope label rule) = "0" := if_pos rfl
    have hsecond : digest (hashInput scope label' rule') = "1" := if_neg (Ne.symm hne)
    rw [hashDigits, hashDigits, hfirst, hsecond] at hname
    exact absurd hname (by decide)
  · intro h digest
    rw [generate, generate, hashed, hashed, h]

/-- Within a scope, two requests are hashed from one text iff their labels are equal, an absent one
counting as empty, and their rules are, in the order of the declarations at every depth; and iff no
hash names them apart. -/
theorem hashInput_eq_iff (scope : String) (label label' : Option String) (rule rule' : StyleRule) :
    (hashInput scope label rule = hashInput scope label' rule' ↔
      label.getD "" = label'.getD "" ∧ rule = rule') ∧
    ((∀ digest, generate digest .hash scope label rule =
        generate digest .hash scope label' rule') ↔
      label.getD "" = label'.getD "" ∧ rule = rule') := by
  have hinput : hashInput scope label rule = hashInput scope label' rule' ↔
      label.getD "" = label'.getD "" ∧ rule = rule' := by
    constructor
    · exact label_eq_of_hashInput_eq
    · rintro ⟨hlabel, rfl⟩
      rw [hashInput, hashInput, hlabel]
  exact ⟨hinput, forall_generate_eq_iff.trans hinput⟩

end ClassName
end StyleVariants
