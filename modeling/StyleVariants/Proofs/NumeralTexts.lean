import StyleVariants.Json.Reader
import StyleVariants.Json.Writer
import Mathlib.Data.List.TakeWhile

/-!
# Numerals in a text

The longest numeral at the start of a text does not depend on what stands behind it, as long
as a numeral could not go on there. Every number is written without blanks, and an integer is
read back from its text. Reading takes a quick way and may miss a double by its last place,
so for doubles to be read back is a property of the number.
-/
namespace StyleVariants

namespace Numeral

/-- No numeral can go on with what stands here. -/
def Ends (rest : List Char) : Prop :=
  ∀ c ∈ rest.head?, c.isDigit = false ∧ c ≠ '.' ∧ c ≠ 'e' ∧ c ≠ 'E'

theorem ends_nil : Ends [] := by simp [Ends]

variable {rest : List Char}

theorem digits_append (cs : List Char) (hr : Ends rest) :
    digits (cs ++ rest) = ((digits cs).1, (digits cs).2 ++ rest) := by
  induction cs with
  | nil =>
      cases rest with
      | nil => rfl
      | cons c rest => simp [digits, (hr c rfl).1]
  | cons c cs ih =>
      obtain ⟨hdigits, hrest⟩ := Prod.mk.inj ih
      by_cases hc : c.isDigit
      · simp only [digits, List.cons_append, List.takeWhile_cons_of_pos hc,
          List.dropWhile_cons_of_pos hc, List.map_cons]
        rw [hdigits, hrest]
        rfl
      · simp [digits, hc]

theorem whole?_append {cs left : List Char} {ds : List Nat} (h : whole? cs = some (ds, left))
    (hr : Ends rest) : whole? (cs ++ rest) = some (ds, left ++ rest) := by
  unfold whole? at h ⊢
  rw [digits_append cs hr]
  split at h <;> simp_all

theorem fraction?_append {cs left : List Char} {ds : List Nat}
    (h : fraction? cs = some (ds, left)) (hr : Ends rest) :
    fraction? (cs ++ rest) = some (ds, left ++ rest) := by
  unfold fraction? at h
  split at h
  · next cs =>
    simp only [fraction?, List.cons_append, digits_append cs hr]
    split at h <;> simp_all
  · next hpoint =>
    obtain ⟨rfl, rfl⟩ := Prod.mk.inj (Option.some.inj h)
    -- no point stands here, and if the text is used up, none stands behind it
    unfold fraction?
    split
    · next rest' heq =>
      cases cs with
      | nil => exact ((hr '.' (by simp_all)).2.1 rfl).elim
      | cons c cs => exact (hpoint cs (by simp_all)).elim
    · rfl

theorem sign_append {cs : List Char} (hcs : cs ≠ []) (rest : List Char) :
    sign (cs ++ rest) = ((sign cs).1, (sign cs).2 ++ rest) := by
  cases cs with
  | nil => exact (hcs rfl).elim
  | cons c cs =>
      by_cases hc : c = '-'
      · subst hc
        rfl
      · simp [sign, hc]

def powerSign : List Char → Bool × List Char
  | '+' :: cs => (false, cs)
  | cs => sign cs

theorem power?_eq (cs : List Char) :
    power? cs = match digits (powerSign cs).2 with
      | ([], _) => none
      | (ds, left) =>
          some (if (powerSign cs).1 then -(ofDigits ds : Int) else ofDigits ds, left) :=
  rfl

theorem power?_append {cs left : List Char} {n : Int} (h : power? cs = some (n, left))
    (hr : Ends rest) : power? (cs ++ rest) = some (n, left ++ rest) := by
  have hcs : cs ≠ [] := by
    rintro rfl
    simp [power?, sign, digits] at h
  have hsign : powerSign (cs ++ rest) = ((powerSign cs).1, (powerSign cs).2 ++ rest) := by
    cases cs with
    | nil => exact (hcs rfl).elim
    | cons c cs =>
        by_cases hc : c = '+'
        · subst hc
          rfl
        · simpa [powerSign, hc] using sign_append hcs rest
  rw [power?_eq] at h ⊢
  rw [hsign, digits_append _ hr]
  split at h <;> simp_all

theorem exponent?_append {cs left : List Char} {n : Option Int}
    (h : exponent? cs = some (n, left)) (hr : Ends rest) :
    exponent? (cs ++ rest) = some (n, left ++ rest) := by
  unfold exponent? at h
  split at h
  · next cs =>
    obtain ⟨⟨m, left⟩, hm, heq⟩ := Option.map_eq_some_iff.1 h
    obtain ⟨rfl, rfl⟩ := Prod.mk.inj heq
    simp [exponent?, power?_append hm hr]
  · next cs =>
    obtain ⟨⟨m, left⟩, hm, heq⟩ := Option.map_eq_some_iff.1 h
    obtain ⟨rfl, rfl⟩ := Prod.mk.inj heq
    simp [exponent?, power?_append hm hr]
  · next hlower hupper =>
    obtain ⟨rfl, rfl⟩ := Prod.mk.inj (Option.some.inj h)
    -- no exponent starts here, and if the text is used up, none starts behind it
    unfold exponent?
    split
    · next rest' heq =>
      cases cs with
      | nil => exact ((hr 'e' (by simp_all)).2.2.1 rfl).elim
      | cons c cs => exact (hlower cs (by simp_all)).elim
    · next rest' heq =>
      cases cs with
      | nil => exact ((hr 'E' (by simp_all)).2.2.2 rfl).elim
      | cons c cs => exact (hupper cs (by simp_all)).elim
    · rfl

theorem read?_eq_some_iff {cs left : List Char} {n : Numeral} :
    read? cs = some (n, left) ↔ ∃ behindWhole behindFraction,
      (sign cs).1 = n.negative ∧ whole? (sign cs).2 = some (n.whole, behindWhole) ∧
      fraction? behindWhole = some (n.fraction, behindFraction) ∧
      exponent? behindFraction = some (n.exponent, left) := by
  simp only [read?, Option.bind_eq_bind, Option.bind_eq_some_iff, Option.pure_def, Prod.exists]
  constructor
  · rintro ⟨whole, behindWhole, hw, fraction, behindFraction, hf, exponent, behind, he, h⟩
    cases h
    exact ⟨behindWhole, behindFraction, rfl, hw, hf, he⟩
  · rintro ⟨behindWhole, behindFraction, hs, hw, hf, he⟩
    exact ⟨_, _, hw, _, _, hf, _, _, he, by rw [hs]⟩

theorem read?_append {cs left : List Char} {n : Numeral} (h : read? cs = some (n, left))
    (hr : Ends rest) : read? (cs ++ rest) = some (n, left ++ rest) := by
  have hcs : cs ≠ [] := by
    rintro rfl
    simp [read?, whole?, sign, digits] at h
  obtain ⟨behindWhole, behindFraction, hs, hw, hf, he⟩ := read?_eq_some_iff.1 h
  rw [read?_eq_some_iff, sign_append hcs rest]
  exact ⟨_, _, hs, whole?_append hw hr, fraction?_append hf hr, exponent?_append he hr⟩

theorem digits_suffix (cs : List Char) : (digits cs).2 <:+ cs :=
  List.dropWhile_suffix _

theorem sign_suffix (cs : List Char) : (sign cs).2 <:+ cs := by
  unfold sign
  split
  · exact List.suffix_cons _ _
  · exact List.suffix_rfl

theorem whole?_suffix {cs left : List Char} {ds : List Nat} (h : whole? cs = some (ds, left)) :
    left <:+ cs := by
  have hd := digits_suffix cs
  unfold whole? at h
  split at h <;> simp_all

theorem fraction?_suffix {cs left : List Char} {ds : List Nat}
    (h : fraction? cs = some (ds, left)) : left <:+ cs := by
  unfold fraction? at h
  split at h
  · next cs =>
    have hd := (digits_suffix cs).trans (List.suffix_cons '.' cs)
    split at h <;> simp_all
  · simp_all

theorem power?_suffix {cs left : List Char} {n : Int} (h : power? cs = some (n, left)) :
    left <:+ cs := by
  have hsign : (powerSign cs).2 <:+ cs := by
    unfold powerSign
    split
    · exact List.suffix_cons _ _
    · exact sign_suffix _
  have hd := (digits_suffix (powerSign cs).2).trans hsign
  rw [power?_eq] at h
  split at h <;> simp_all

theorem exponent?_suffix {cs left : List Char} {n : Option Int}
    (h : exponent? cs = some (n, left)) : left <:+ cs := by
  unfold exponent? at h
  split at h
  · obtain ⟨⟨m, left⟩, hm, heq⟩ := Option.map_eq_some_iff.1 h
    obtain ⟨rfl, rfl⟩ := Prod.mk.inj heq
    exact (power?_suffix hm).trans (List.suffix_cons _ _)
  · obtain ⟨⟨m, left⟩, hm, heq⟩ := Option.map_eq_some_iff.1 h
    obtain ⟨rfl, rfl⟩ := Prod.mk.inj heq
    exact (power?_suffix hm).trans (List.suffix_cons _ _)
  · simp_all

theorem read?_suffix {cs left : List Char} {n : Numeral} (h : read? cs = some (n, left)) :
    left <:+ cs := by
  obtain ⟨behindWhole, behindFraction, -, hw, hf, he⟩ := read?_eq_some_iff.1 h
  exact (exponent?_suffix he).trans ((fraction?_suffix hf).trans
    ((whole?_suffix hw).trans (sign_suffix cs)))

theorem exists_head_of_read? {cs left : List Char} {n : Numeral}
    (h : read? cs = some (n, left)) : ∃ c tail, cs = c :: tail ∧ (c = '-' ∨ c.isDigit) := by
  obtain ⟨behindWhole, behindFraction, -, hw, -, -⟩ := read?_eq_some_iff.1 h
  cases cs with
  | nil => simp [sign, whole?, digits] at hw
  | cons c tail =>
      refine ⟨c, tail, rfl, ?_⟩
      by_cases hc : c = '-'
      · exact .inl hc
      · refine .inr (Decidable.byContradiction fun hd => ?_)
        simp [sign, hc, whole?, digits, hd] at hw

def digitsOf (n : Nat) : List Nat := (Nat.toDigits 10 n).map digitValue

theorem ofDigits_digitsOf (n : Nat) : ofDigits (digitsOf n) = n := by
  have hn : Nat.ofDigitChars 10 (Nat.toDigits 10 n) 0 = n := Nat.ofDigitChars_ten_toDigits
  rw [Nat.ofDigitChars_eq_foldl] at hn
  rw [ofDigits, digitsOf, List.foldl_map]
  simpa only [digitValue, Nat.mul_comm] using hn

theorem digits_toDigits (n : Nat) (hr : Ends rest) :
    digits (Nat.toDigits 10 n ++ rest) = (digitsOf n, rest) := by
  have hdigits : ∀ c ∈ Nat.toDigits 10 n, c.isDigit = true :=
    fun c hc => Nat.isDigit_of_mem_toDigits (by decide) (by decide) hc
  have hall : digits (Nat.toDigits 10 n) = (digitsOf n, []) := by
    rw [digits, List.takeWhile_eq_self_iff.2 hdigits, List.dropWhile_eq_nil_iff.2 hdigits]
    rfl
  rw [digits_append _ hr, hall]
  rfl

/-- Only zero itself is written with a zero in front. -/
theorem head?_digitsOf {n : Nat} (hn : n ≠ 0) : (digitsOf n).head? ≠ some 0 := by
  induction n using Nat.strongRecOn with
  | ind n ih =>
      rcases Nat.lt_or_ge n 10 with hlt | hge
      · rw [digitsOf, Nat.toDigits_of_lt_base hlt]
        simpa [digitValue, Nat.toNat_digitChar_sub_48_of_lt_ten hlt] using hn
      · have hfront : digitsOf n = digitsOf (n / 10) ++ [digitValue (n % 10).digitChar] := by
          rw [digitsOf, Nat.toDigits_of_base_le (by decide) hge, List.map_append]
          rfl
        have hlead := ih (n / 10) (by omega) (by omega)
        cases hds : digitsOf (n / 10) with
        | nil => simp [digitsOf, Nat.toDigits_ne_nil] at hds
        | cons d ds => simpa [hfront, hds] using hlead

theorem whole?_toDigits (n : Nat) (hr : Ends rest) :
    whole? (Nat.toDigits 10 n ++ rest) = some (digitsOf n, rest) := by
  have hne : digitsOf n ≠ [] := by simp [digitsOf, Nat.toDigits_ne_nil]
  rw [whole?, digits_toDigits n hr]
  split
  · simp_all
  · next d ds left heq =>
    by_cases hn : n = 0
    · subst hn
      simp [digitsOf] at heq
    · have hhead := head?_digitsOf hn
      simp_all
  · rfl

theorem le_foldl_digits (n : Nat) (ds : List Nat) :
    n ≤ ds.foldl (fun n d => n * 10 + d) n := by
  induction ds generalizing n with
  | nil => exact Nat.le_refl n
  | cons d ds ih =>
      have hd := ih (n * 10 + d)
      rw [List.foldl_cons]
      omega

theorem fill_eq {n : Nat} {ds : List Nat}
    (h : ds.foldl (fun n d => n * 10 + d) n < Nat.pow 2 64) :
    fill n ds = (ds.foldl (fun n d => n * 10 + d) n, []) := by
  induction ds generalizing n with
  | nil => rfl
  | cons d ds ih =>
      rw [List.foldl_cons] at h ⊢
      have hfits : n * 10 + d < Nat.pow 2 64 :=
        Nat.lt_of_le_of_lt (le_foldl_digits (n * 10 + d) ds) h
      rw [fill, if_pos hfits, ih h]

theorem sign_toDigits (n : Nat) :
    sign (Nat.toDigits 10 n ++ rest) = (false, Nat.toDigits 10 n ++ rest) := by
  cases hd : Nat.toDigits 10 n with
  | nil => exact (Nat.toDigits_ne_nil hd).elim
  | cons c cs =>
      have hc : c.isDigit := by
        refine Nat.isDigit_of_mem_toDigits (b := 10) (n := n) (by decide) (by decide) ?_
        simp [hd]
      have hminus : c ≠ '-' := by
        rintro rfl
        exact absurd hc (by decide)
      simp [sign, hminus]

def ofInt (n : Int) : Numeral := ⟨decide (n < 0), digitsOf n.natAbs, [], none⟩

theorem fraction?_of_ends (hr : Ends rest) : fraction? rest = some ([], rest) := by
  have hnil : fraction? [] = some ([], []) := rfl
  exact fraction?_append hnil hr

theorem exponent?_of_ends (hr : Ends rest) : exponent? rest = some (none, rest) := by
  have hnil : exponent? [] = some (none, []) := rfl
  exact exponent?_append hnil hr

theorem read?_intChars (n : Int) (hr : Ends rest) :
    read? (intChars n ++ rest) = some (ofInt n, rest) := by
  have hsign : sign (intChars n ++ rest) =
      (decide (n < 0), Nat.toDigits 10 n.natAbs ++ rest) := by
    unfold intChars
    split
    · next hn => simp [sign, hn]
    · next hn => simpa [hn] using sign_toDigits n.natAbs
  rw [read?_eq_some_iff, hsign]
  exact ⟨rest, rest, rfl, whole?_toDigits n.natAbs hr, fraction?_of_ends hr, exponent?_of_ends hr⟩

theorem read?_intChars_self (n : Int) : read? (intChars n) = some (ofInt n, []) := by
  simpa only [List.append_nil] using read?_intChars n ends_nil

theorem number?_ofInt {n : Int} (h : -twoPow 63 ≤ n ∧ n < twoPow 64) :
    (ofInt n).number? = some (.int n h) := by
  have hvalue : ofDigits (digitsOf n.natAbs) = n.natAbs := ofDigits_digitsOf n.natAbs
  have hfill : fill 0 (digitsOf n.natAbs) = (n.natAbs, []) := by
    rw [fill_eq]
    · exact congrArg (·, []) hvalue
    · have h63 : twoPow 63 = 9223372036854775808 := rfl
      have h64 : twoPow 64 = 18446744073709551616 := rfl
      have hpow : Nat.pow 2 64 = 18446744073709551616 := rfl
      rw [show List.foldl _ 0 (digitsOf n.natAbs) = n.natAbs from hvalue]
      omega
  have hsigned : (if decide (n < 0) then -(n.natAbs : Int) else (n.natAbs : Int)) = n := by
    by_cases hn : n < 0
    · rw [if_pos (decide_eq_true hn)]
      omega
    · rw [if_neg fun h => hn (of_decide_eq_true h)]
      omega
  simp only [number?, ofInt, hfill, hsigned, and_self, if_true]
  rw [dif_pos]
  refine ⟨h, ?_⟩
  simp only [decide_eq_true_eq]
  omega

end Numeral

/-- The characters that numbers are written with besides digits. -/
def isNumberChar (c : Char) : Bool := c.isDigit || c ∈ ['.', '-', '+', 'e']

theorem isBlank_of_isNumberChar {c : Char} (h : isNumberChar c) : Json.isBlank c = false := by
  refine Bool.eq_false_iff.2 fun hb => ?_
  simp only [Json.isBlank, Bool.or_eq_true, beq_iff_eq, or_assoc] at hb
  rcases hb with rfl | rfl | rfl | rfl <;> exact absurd h (by decide)

theorem isNumberChar_of_mem_toDigits {n : Nat} {c : Char} (h : c ∈ Nat.toDigits 10 n) :
    isNumberChar c := by
  have hd : c.isDigit = true := Nat.isDigit_of_mem_toDigits (by decide) (by decide) h
  simp [isNumberChar, hd]

namespace Decimal
variable {digits : List Char} {c : Char}

theorem isNumberChar_of_mem_positional (hd : ∀ c ∈ digits, isNumberChar c) {place : Int}
    (h : c ∈ positional digits place) : isNumberChar c := by
  unfold positional at h
  split at h
  · simp only [List.mem_cons, List.mem_append, List.mem_replicate] at h
    rcases h with rfl | rfl | ⟨-, rfl⟩ | h
    · rfl
    · rfl
    · rfl
    · exact hd c h
  · split at h
    · simp only [List.mem_append, List.mem_cons, List.mem_replicate, List.not_mem_nil,
        or_false] at h
      rcases h with (h | ⟨-, rfl⟩) | rfl | rfl
      · exact hd c h
      · rfl
      · rfl
      · rfl
    · simp only [List.mem_append, List.mem_cons] at h
      rcases h with h | rfl | h
      · exact hd c (List.mem_of_mem_take h)
      · rfl
      · exact hd c (List.mem_of_mem_drop h)

theorem isNumberChar_of_mem_scientific (hd : ∀ c ∈ digits, isNumberChar c) {exponent : Int}
    (h : c ∈ scientific digits exponent) : isNumberChar c := by
  simp only [scientific, List.mem_append, List.mem_cons] at h
  rcases h with (h | h) | rfl | rfl | h
  · exact hd c (List.mem_of_mem_take h)
  · split at h
    · simp at h
    · rcases List.mem_cons.1 h with rfl | h
      · rfl
      · exact hd c (List.mem_of_mem_drop h)
  · rfl
  · split <;> rfl
  · exact isNumberChar_of_mem_toDigits h

theorem isNumberChar_of_mem_chars {x : Decimal} (h : c ∈ x.chars) : isNumberChar c := by
  have hd : ∀ c ∈ Nat.toDigits 10 x.digits, isNumberChar c :=
    fun c hc => isNumberChar_of_mem_toDigits hc
  simp only [chars] at h
  split at h
  · exact isNumberChar_of_mem_positional hd h
  · exact isNumberChar_of_mem_scientific hd h

end Decimal

theorem isNumberChar_of_signed {negative : Prop} [Decidable negative] {magnitude : List Char}
    (hm : ∀ c ∈ magnitude, isNumberChar c) {c : Char}
    (h : c ∈ if negative then '-' :: magnitude else magnitude) : isNumberChar c := by
  split at h
  · rcases List.mem_cons.1 h with rfl | h
    · rfl
    · exact hm c h
  · exact hm c h

theorem Number.isNumberChar_of_mem_chars {n : Number} {c : Char} (h : c ∈ n.chars) :
    isNumberChar c := by
  cases n with
  | int n _ => exact isNumberChar_of_signed (fun c hc => isNumberChar_of_mem_toDigits hc) h
  | double d =>
      refine isNumberChar_of_signed (fun c hc => ?_) h
      split at hc
      · simp only [List.mem_cons, List.not_mem_nil, or_false] at hc
        rcases hc with rfl | rfl | rfl <;> rfl
      · exact Decimal.isNumberChar_of_mem_chars hc

end StyleVariants
