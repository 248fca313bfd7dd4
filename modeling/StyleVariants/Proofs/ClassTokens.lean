import StyleVariants.Digest.Blake3
import StyleVariants.Proofs.NamesAside
import StyleVariants.Proofs.SettledNames
import Mathlib.Tactic.MkIffOfInductiveProp

/-!
# Classes as tokens

A class is one token if it has no characters but letters, digits, hyphens and underscores and
does not begin with a digit. Then it can stand behind a dot, and classes that are joined by
blanks can be told apart again. Labels, digits of hashes and appended numbers never stand in the
way, because they are sanitized or plain from the start and come behind the scope, or, in camel
case, behind an underscore if need be. The scope is another matter: hashed names take it as it is,
and readable ones may begin with a digit of it.
-/
namespace StyleVariants

namespace ClassName

def NameChars (text : String) : Prop := ∀ c ∈ text.toList, isNameChar c = true

instance (text : String) : Decidable (NameChars text) :=
  List.decidableBAll (isNameChar · = true) text.toList

def BeginsWithDigit (text : String) : Prop := text.toList.head?.any Char.isDigit = true

instance (text : String) : Decidable (BeginsWithDigit text) :=
  inferInstanceAs (Decidable (_ = true))

/-- One class of a style sheet, as it stands. -/
@[mk_iff]
structure IsToken (name : String) : Prop where
  ne_empty : name ≠ ""
  nameChars : NameChars name
  head : ¬ BeginsWithDigit name

@[simp] theorem nameChars_append {front rest : String} :
    NameChars (front ++ rest) ↔ NameChars front ∧ NameChars rest := by
  simp [NameChars, or_imp, forall_and]

@[simp] theorem beginsWithDigit_append {front rest : String} :
    BeginsWithDigit (front ++ rest) ↔
      BeginsWithDigit front ∨ (front = "" ∧ BeginsWithDigit rest) := by
  unfold BeginsWithDigit
  rw [String.toList_append]
  by_cases hempty : front = ""
  · simp [hempty]
  · have hlist : front.toList ≠ [] := by simpa using hempty
    obtain ⟨c, cs, hcons⟩ := List.exists_cons_of_ne_nil hlist
    simp [hcons, hempty]

/-- What is appended to a token can only spoil its characters. -/
theorem isToken_append_iff {front rest : String} (h : front ≠ "") :
    IsToken (front ++ rest) ↔ IsToken front ∧ NameChars rest := by
  simp only [isToken_iff, nameChars_append, beginsWithDigit_append, h, false_and, or_false]
  have hne : front ++ rest ≠ "" := by simp [h]
  tauto

theorem nameChars_sanitize (text : String) : NameChars (sanitize text) :=
  fun _ hc => isNameChar_of_mem_sanitize hc

theorem isNameChar_of_isDigit {c : Char} (h : c.isDigit = true) : isNameChar c = true := by
  simp [isNameChar, Char.isAlphanum, h]

theorem isNameChar_of_isHexDigit {c : Char} (h : isHexDigit c = true) : isNameChar c = true := by
  have hascii := forall_ascii (p := fun c => isHexDigit c = true → isNameChar c = true) (by decide)
  have hrange := h
  simp only [isHexDigit, Bool.or_eq_true, Bool.and_eq_true, decide_eq_true_eq] at hrange
  rcases hrange with hdigit | ⟨-, hf⟩
  · exact isNameChar_of_isDigit hdigit
  · have hbound : c.toNat ≤ 102 := UInt32.le_iff_toNat_le.1 hf
    exact hascii c (by omega) h

theorem nameChars_hashDigits {digest : String → String}
    (hdigest : ∀ text, Hexadecimal (digest text)) (input : String) (count : Nat) :
    NameChars (hashDigits digest input count) :=
  fun _ hc => isNameChar_of_isHexDigit (isHexDigit_of_mem_hashDigits (hdigest input) hc)

theorem nameChars_toString (n : Nat) : NameChars (toString n) := by
  intro c hc
  rw [Nat.toString_eq_ofList_toDigits, String.toList_ofList] at hc
  exact isNameChar_of_isDigit (Nat.isDigit_of_mem_toDigits (by decide) (by decide) hc)

theorem beginsWithDigit_sanitize {text : String} :
    BeginsWithDigit (sanitize text) ↔ BeginsWithDigit text := by
  unfold BeginsWithDigit
  rw [sanitize, String.toList_ofList, List.head?_map]
  cases text.toList.head? with
  | none => simp
  | some c =>
      by_cases hc : isNameChar c = true
      · simp [hc]
      · have hdigit : ¬ c.isDigit = true := fun hdigit => hc (isNameChar_of_isDigit hdigit)
        simp [hc, hdigit]

variable {digest : String → String}

theorem nameChars_shorten (hdigest : ∀ text, Hexadecimal (digest text)) {name separator : String}
    (hname : NameChars name) (hseparator : NameChars separator) :
    NameChars (shorten digest name separator) := by
  unfold shorten
  split
  · exact hname
  · have hfront : NameChars (String.ofList (name.toList.take 24)) := by
      intro c hc
      rw [String.toList_ofList] at hc
      exact hname c (List.mem_of_mem_take hc)
    rw [nameChars_append, nameChars_append]
    exact ⟨⟨hfront, hseparator⟩, nameChars_hashDigits hdigest name 6⟩

theorem beginsWithDigit_shorten {name separator : String} :
    BeginsWithDigit (shorten digest name separator) ↔ BeginsWithDigit name := by
  unfold shorten
  split
  · rfl
  · next hlong =>
    have hne : name.toList ≠ [] := by
      intro hnil
      obtain rfl : name = "" := by simpa using hnil
      exact hlong (by decide)
    have htake : String.ofList (name.toList.take 24) ≠ "" := by simpa using hne
    rw [String.append_assoc, beginsWithDigit_append]
    simp only [htake, false_and, or_false]
    simp [BeginsWithDigit, List.head?_take]

/-- Capitals are ASCII, so nothing but small letters of ASCII has another one. -/
theorem isNameChar_toUpper (c : Char) : isNameChar c.toUpper = isNameChar c := by
  have hascii := forall_ascii (p := fun c => isNameChar c.toUpper = isNameChar c) (by decide)
  by_cases hc : c.toNat < 128
  · exact hascii c hc
  · have hlower : ¬ ('a'.val ≤ c.val ∧ c.val ≤ 'z'.val) := by
      rintro ⟨-, hz⟩
      have hbound : c.toNat ≤ 122 := UInt32.le_iff_toNat_le.1 hz
      omega
    have hsame : c.toUpper = c := dif_neg hlower
    rw [hsame]

theorem nameChars_joinWords {started capital : Bool} {cs : List Char}
    (h : ∀ c ∈ cs, isNameChar c = true) :
    ∀ c ∈ joinWords started capital cs, isNameChar c = true := by
  induction cs generalizing started capital with
  | nil => simp [joinWords]
  | cons c cs ih =>
      rw [List.forall_mem_cons] at h
      rw [joinWords]
      split
      · exact ih h.2
      · rw [List.forall_mem_cons]
        refine ⟨?_, ih h.2⟩
        split
        · rw [isNameChar_toUpper]
          exact h.1
        · exact h.1

theorem nameChars_camel (label : String) : NameChars (camel label) := by
  have hwords : ∀ c ∈ joinWords false false (sanitize label).toList, isNameChar c = true :=
    nameChars_joinWords (nameChars_sanitize label)
  unfold camel
  split
  · simp [NameChars]
  · next c cs hcons =>
    rw [hcons] at hwords
    intro d hd
    rw [String.toList_ofList] at hd
    split at hd
    · rcases List.mem_cons.1 hd with rfl | hd
      · decide
      · exact hwords d hd
    · exact hwords d hd

theorem not_beginsWithDigit_camel (label : String) : ¬ BeginsWithDigit (camel label) := by
  unfold camel BeginsWithDigit
  split
  · simp
  · next c cs _ =>
    rw [String.toList_ofList]
    split
    · simp
    · next hdigit => simpa using hdigit

/-- What a mode asks of the scope: that it can stand at the front of a name. -/
def SuitsMode (scope : String) : NamingMode → Prop
  | .hash => NameChars scope ∧ ¬ BeginsWithDigit scope
  | .readable => ¬ BeginsWithDigit scope
  | .camelCase => True

instance (scope : String) : (mode : NamingMode) → Decidable (SuitsMode scope mode)
  | .hash => inferInstanceAs (Decidable (NameChars scope ∧ ¬ BeginsWithDigit scope))
  | .readable => inferInstanceAs (Decidable (¬ BeginsWithDigit scope))
  | .camelCase => inferInstanceAs (Decidable True)

variable (hdigest : ∀ text, Hexadecimal (digest text))
include hdigest

theorem isToken_hashed_iff (scope : String) (label : Option String) (rule : StyleRule) :
    IsToken (hashed digest scope label rule) ↔ SuitsMode scope .hash := by
  have hne : hashed digest scope label rule ≠ "" := generate_ne_empty .hash scope label rule
  have hline : NameChars "__" ∧ ¬ BeginsWithDigit "__" := by decide
  have hdigits := nameChars_hashDigits hdigest (hashInput scope label rule) 8
  rw [isToken_iff, and_iff_right hne, hashed]
  simp [SuitsMode, hline, hdigits]

theorem isToken_readable_iff (scope : String) (label : Option String) :
    IsToken (readable digest scope label) ↔ SuitsMode scope .readable := by
  obtain ⟨text, htext⟩ : ∃ text, readable digest scope label =
      shorten digest (sanitize scope ++ "__" ++ sanitize text) "_" := ⟨_, rfl⟩
  have hne : sanitize scope ++ "__" ++ sanitize text ≠ "" := by simp
  have hline : NameChars "__" ∧ ¬ BeginsWithDigit "__" := by decide
  have hchars : NameChars (sanitize scope ++ "__" ++ sanitize text) := by
    simp [nameChars_sanitize, hline]
  rw [htext, isToken_iff, and_iff_right (shorten_ne_empty hne "_"),
    and_iff_right (nameChars_shorten hdigest hchars (by decide)), beginsWithDigit_shorten]
  simp [beginsWithDigit_sanitize, hline, SuitsMode]

theorem isToken_camelCase (label : Option String) : IsToken (camelCase digest label) := by
  simp only [camelCase]
  split
  · exact ⟨by decide, by decide, by decide⟩
  · next hne =>
    refine ⟨shorten_ne_empty hne "", ?_, ?_⟩
    · exact nameChars_shorten hdigest (nameChars_camel _) (by decide)
    · rw [beginsWithDigit_shorten]
      exact not_beginsWithDigit_camel _

theorem isToken_generate_iff (mode : NamingMode) (scope : String) (label : Option String)
    (rule : StyleRule) :
    IsToken (generate digest mode scope label rule) ↔ SuitsMode scope mode := by
  cases mode with
  | hash => exact isToken_hashed_iff hdigest scope label rule
  | readable => exact isToken_readable_iff hdigest scope label
  | camelCase => exact iff_of_true (isToken_camelCase hdigest label) trivial

end ClassName

/-- Tokens that are joined by blanks can be told apart. -/
theorem splitOn_intercalate_tokens {classNames : List String} (hne : classNames ≠ [])
    (h : ∀ c ∈ classNames, ClassName.IsToken c) :
    (" ".intercalate classNames).toList.splitOn ' ' = classNames.map String.toList := by
  rw [String.toList_intercalate]
  apply List.splitOn_intercalate
  · intro cs hcs hblank
    obtain ⟨c, hc, rfl⟩ := List.mem_map.1 hcs
    exact absurd ((h c hc).nameChars ' ' hblank) (by decide)
  · simpa using hne

namespace ClassRegistry
open ClassName

theorem isToken_candidate_iff {base : String} (hbase : base ≠ "") (n : Nat) :
    IsToken (candidate base n) ↔ IsToken base := by
  cases n with
  | zero => rfl
  | succ n =>
      have hnumber : NameChars ("_" ++ toString (n + 1)) :=
        nameChars_append.2 ⟨by decide, nameChars_toString (n + 1)⟩
      rw [candidate, String.append_assoc, isToken_append_iff hbase, and_iff_left hnumber]

theorem isToken_className_iff {digest : String → String}
    (hdigest : ∀ text, Hexadecimal (digest text)) {s t : ClassRegistry} {named : NamedRule}
    (h : className digest named.rule named.label s = (named.className, t)) :
    IsToken named.className ↔ SuitsMode s.options.scope s.options.mode := by
  obtain ⟨n, -, -, hname⟩ := (className_settles h).stops
  have hbase : baseName digest s named.label named.rule ≠ "" := generate_ne_empty _ _ _ _
  rw [hname, isToken_candidate_iff hbase]
  exact isToken_generate_iff hdigest _ _ _ _

/-- Whatever a registry is asked for, a class that it answers is a token exactly if its scope suits
its mode. If it does, answered classes that are joined by blanks can be told apart. -/
theorem answers_tokens_iff (digest : String → String)
    (hdigest : ∀ text, Hexadecimal (digest text)) {s t : ClassRegistry} {calls : List NamedRule}
    (h : ClassNamer.Run (className digest) s calls t) :
    (∀ named ∈ calls,
      IsToken named.className ↔ SuitsMode s.options.scope s.options.mode) ∧
    (SuitsMode s.options.scope s.options.mode → ∀ chosen, chosen ≠ [] →
      chosen ⊆ calls.map NamedRule.className →
      (" ".intercalate chosen).toList.splitOn ' ' = chosen.map String.toList) := by
  have htokens : ∀ named ∈ calls,
      IsToken named.className ↔ SuitsMode s.options.scope s.options.mode := by
    intro named hn
    obtain ⟨before, after, rfl⟩ := List.append_of_mem hn
    obtain ⟨u, v, hbefore, hstep, -⟩ := run_split h
    rw [← run_options hbefore]
    exact isToken_className_iff hdigest hstep
  refine ⟨htokens, fun hsuits chosen hne hchosen => ?_⟩
  apply splitOn_intercalate_tokens hne
  intro c hc
  obtain ⟨named, hn, rfl⟩ := List.mem_map.1 (hchosen hc)
  exact (htokens named hn).2 hsuits

def redText : StyleRule := .ofList [("color", .text "red")]

def tones : ClassRegistry where
  options := { mode := .readable, scope := "my file" }

def redTone : NamedRule := ⟨redText, some "red tone", "my_file__red_tone"⟩

theorem answers_tokens_iff_tones :
    (∀ text, Hexadecimal (Blake3.hexDigest text)) ∧
    ClassNamer.Run (className Blake3.hexDigest) tones [redTone]
      { tones with rules := .singleton "my_file__red_tone" redText } ∧
    SuitsMode tones.options.scope tones.options.mode ∧
    (∀ named ∈ [redTone],
      IsToken named.className ↔ SuitsMode tones.options.scope tones.options.mode) ∧
    (" ".intercalate [redTone.className]).toList.splitOn ' ' = [redTone.className.toList] := by
  have hrun : ClassNamer.Run (className Blake3.hexDigest) tones [redTone]
      { tones with rules := .singleton "my_file__red_tone" redText } := .step rfl (.done _)
  have hsuits : SuitsMode tones.options.scope tones.options.mode := by decide
  obtain ⟨htokens, hsplit⟩ := answers_tokens_iff Blake3.hexDigest Blake3.hexadecimal_hexDigest hrun
  exact ⟨Blake3.hexadecimal_hexDigest, hrun, hsuits, htokens,
    hsplit hsuits [redTone.className] (by simp) (by simp)⟩

/-- A hashed name takes the blank of a scope as it is. -/
theorem not_answers_tokens :
    ¬ ∀ (options : NamingOptions) (calls : List NamedRule) (t : ClassRegistry),
      ClassNamer.Run (className Blake3.hexDigest) { options } calls t →
      ∀ named ∈ calls, IsToken named.className := by
  intro h
  let spaced : ClassRegistry := { options := { mode := .hash, scope := "my file" } }
  let answer := className Blake3.hexDigest redText (some "tone") spaced
  let named : NamedRule := ⟨redText, some "tone", answer.1⟩
  have hanswer : className Blake3.hexDigest named.rule named.label spaced =
      (named.className, answer.2) := rfl
  have htoken := h spaced.options [named] answer.2 (.step hanswer (.done _)) named (by simp)
  have hsuits := (isToken_className_iff Blake3.hexadecimal_hexDigest hanswer).1 htoken
  have hblank : ¬ SuitsMode spaced.options.scope spaced.options.mode := by decide
  exact hblank hsuits

end ClassRegistry
end StyleVariants
