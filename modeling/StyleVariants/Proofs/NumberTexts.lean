import StyleVariants.Proofs.NumeralTexts
import StyleVariants.Proofs.RoundingIntervals

/-!
# Numbers told by their texts

The text of a double is a numeral with a point or an exponent, and the exact value of this numeral
rounds to the double. No value rounds to two doubles of one sign, so the text tells the double; and
an integer is written without point and exponent. Two numbers with one text are therefore the same.
Nothing is said here about the quick way of reading, which may miss a double.
-/
namespace StyleVariants

namespace Numeral

def magnitude (n : Numeral) : ℚ :=
  ofDigits (n.whole ++ n.fraction) * 10 ^ (n.exponent.getD 0 - n.fraction.length)

theorem ofDigits_append (ds es : List Nat) :
    ofDigits (ds ++ es) = ofDigits ds * 10 ^ es.length + ofDigits es := by
  have hstart : ∀ n, es.foldl (fun n d => n * 10 + d) n = n * 10 ^ es.length + ofDigits es := by
    unfold ofDigits
    induction es with
    | nil => simp
    | cons d es ih =>
        intro n
        rw [List.foldl_cons, List.foldl_cons, ih, ih (0 * 10 + d), List.length_cons]
        ring
  rw [ofDigits, List.foldl_append, hstart]
  rfl

theorem ofDigits_replicate_zero (n : Nat) : ofDigits (List.replicate n 0) = 0 := by
  induction n with
  | zero => rfl
  | succ n ih =>
      rw [List.replicate_succ', ofDigits_append, ih]
      rfl

theorem ofDigits_zeros_append (n : Nat) (ds : List Nat) :
    ofDigits (List.replicate n 0 ++ ds) = ofDigits ds := by
  rw [ofDigits_append, ofDigits_replicate_zero, Nat.zero_mul, Nat.zero_add]

theorem ofDigits_append_zeros (ds : List Nat) (n : Nat) :
    ofDigits (ds ++ List.replicate n 0) = ofDigits ds * 10 ^ n := by
  rw [ofDigits_append, ofDigits_replicate_zero, List.length_replicate, Nat.add_zero]

theorem digits_append_of_isDigit {cs rest : List Char} (h : ∀ c ∈ cs, c.isDigit = true)
    (hr : ∀ c ∈ rest.head?, c.isDigit = false) :
    digits (cs ++ rest) = (cs.map digitValue, rest) := by
  have hstop : rest.takeWhile Char.isDigit = [] ∧ rest.dropWhile Char.isDigit = rest := by
    cases rest with
    | nil => exact ⟨rfl, rfl⟩
    | cons c rest => simp [hr c rfl]
  rw [digits, List.takeWhile_append_of_pos h, List.dropWhile_append_of_pos h, hstop.1, hstop.2,
    List.append_nil]

/-- A point is written only in front of digits. -/
def pointed : List Char → List Char
  | [] => []
  | c :: cs => '.' :: c :: cs

def exponentChars : Option Int → List Char
  | none => []
  | some n => 'e' :: (if n < 0 then '-' else '+') :: Nat.toDigits 10 n.natAbs

def parts (whole fraction : List Char) (exponent : Option Int) : List Char :=
  whole ++ (pointed fraction ++ exponentChars exponent)

theorem head?_exponentChars {exponent : Option Int} {c : Char}
    (h : c ∈ (exponentChars exponent).head?) : c = 'e' := by
  cases exponent with
  | none => cases h
  | some n => exact (Option.some.inj h).symm

theorem exponent?_exponentChars (exponent : Option Int) :
    exponent? (exponentChars exponent) = some (exponent, []) := by
  cases exponent with
  | none => rfl
  | some n =>
      have hdigits : digits (Nat.toDigits 10 n.natAbs) = (digitsOf n.natAbs, []) := by
        simpa only [List.append_nil] using digits_toDigits n.natAbs ends_nil
      have hne : digitsOf n.natAbs ≠ [] := by simp [digitsOf, Nat.toDigits_ne_nil]
      have hvalue := ofDigits_digitsOf n.natAbs
      generalize digitsOf n.natAbs = ds at hdigits hne hvalue
      obtain ⟨d, ds, rfl⟩ := List.exists_cons_of_ne_nil hne
      by_cases hn : n < 0
      · have hpower : power? ('-' :: Nat.toDigits 10 n.natAbs) = some (n, []) := by
          have hsign : powerSign ('-' :: Nat.toDigits 10 n.natAbs) =
              (true, Nat.toDigits 10 n.natAbs) := rfl
          rw [power?_eq, hsign, hdigits]
          simp only [hvalue, if_true, Int.ofNat_natAbs_of_nonpos hn.le, Int.neg_neg]
        rw [exponentChars, exponent?, if_pos hn, hpower]
        rfl
      · have hpower : power? ('+' :: Nat.toDigits 10 n.natAbs) = some (n, []) := by
          have hsign : powerSign ('+' :: Nat.toDigits 10 n.natAbs) =
              (false, Nat.toDigits 10 n.natAbs) := rfl
          rw [power?_eq, hsign, hdigits]
          simp only [hvalue, Bool.false_eq_true, if_false, Int.natAbs_of_nonneg (not_lt.1 hn)]
        rw [exponentChars, exponent?, if_neg hn, hpower]
        rfl

theorem whole?_append_of_isDigit {whole rest : List Char} (h : ∀ c ∈ whole, c.isDigit = true)
    (hne : whole ≠ []) (hlead : whole = ['0'] ∨ (whole.map digitValue).head? ≠ some 0)
    (hr : ∀ c ∈ rest.head?, c.isDigit = false) :
    whole? (whole ++ rest) = some (whole.map digitValue, rest) := by
  rw [whole?, digits_append_of_isDigit h hr]
  rcases hlead with rfl | hlead
  · rfl
  · have hne : whole.map digitValue ≠ [] := by simpa using hne
    generalize whole.map digitValue = ds at hne hlead
    obtain ⟨d, ds, rfl⟩ := List.exists_cons_of_ne_nil hne
    split
    · simp_all
    · simp_all
    · rfl

theorem fraction?_pointed {fraction rest : List Char} (h : ∀ c ∈ fraction, c.isDigit = true)
    (hr : ∀ c ∈ rest.head?, c.isDigit = false ∧ c ≠ '.') :
    fraction? (pointed fraction ++ rest) = some (fraction.map digitValue, rest) := by
  cases fraction with
  | nil =>
      cases rest with
      | nil => rfl
      | cons c rest => simp [pointed, fraction?, (hr c rfl).2]
  | cons c cs =>
      have hdigits := digits_append_of_isDigit h fun c hc => (hr c hc).1
      rw [pointed, List.cons_append, fraction?, hdigits]
      rfl

theorem read?_parts {whole fraction : List Char} (exponent : Option Int)
    (hw : ∀ c ∈ whole, c.isDigit = true) (hne : whole ≠ [])
    (hlead : whole = ['0'] ∨ (whole.map digitValue).head? ≠ some 0)
    (hf : ∀ c ∈ fraction, c.isDigit = true) :
    read? (parts whole fraction exponent) =
      some (⟨false, whole.map digitValue, fraction.map digitValue, exponent⟩, []) := by
  have hexponent : ∀ c ∈ (exponentChars exponent).head?, c.isDigit = false ∧ c ≠ '.' := by
    intro c hc
    rw [head?_exponentChars hc]
    decide
  have hbehind : ∀ c ∈ (pointed fraction ++ exponentChars exponent).head?,
      c.isDigit = false := by
    intro c hc
    cases fraction with
    | nil => exact (hexponent c hc).1
    | cons d ds =>
        cases hc
        rfl
  have hsign : sign (parts whole fraction exponent) = (false, parts whole fraction exponent) := by
    obtain ⟨c, cs, rfl⟩ := List.exists_cons_of_ne_nil hne
    have hminus : c ≠ '-' := by
      rintro rfl
      exact absurd (hw '-' List.mem_cons_self) (by decide)
    simp [parts, sign, hminus]
  rw [read?_eq_some_iff, hsign]
  exact ⟨_, _, rfl, whole?_append_of_isDigit hw hne hlead hbehind, fraction?_pointed hf hexponent,
    exponent?_exponentChars exponent⟩

theorem read?_minus {cs left : List Char} {n : Numeral} (h : read? cs = some (n, left))
    (hn : n.negative = false) : read? ('-' :: cs) = some ({ n with negative := true }, left) := by
  obtain ⟨behindWhole, behindFraction, hs, hw, hf, he⟩ := read?_eq_some_iff.1 h
  have hunsigned : (sign cs).2 = cs := by
    unfold sign at hs ⊢
    split
    · rw [← hs] at hn
      cases hn
    · rfl
  rw [hunsigned] at hw
  exact read?_eq_some_iff.2 ⟨behindWhole, behindFraction, rfl, hw, hf, he⟩

end Numeral

namespace Decimal
open Numeral

/-- A numeral has the value of a decimal if its digits are those of the decimal, up to zeros behind
them that the exponent makes up for. -/
theorem magnitude_eq_value {n : Numeral} {x : Decimal} (zeros : Nat)
    (hdigits : ofDigits (n.whole ++ n.fraction) = x.digits * 10 ^ zeros)
    (hexponent : n.exponent.getD 0 - n.fraction.length + zeros = x.exponent) :
    n.magnitude = x.value := by
  rw [magnitude, value, hdigits, ← hexponent, zpow_add₀ (by norm_num), zpow_natCast]
  push_cast
  ring

/-- A text without sign that has a point or an exponent and the value of a decimal. -/
structure WrittenAs (x : Decimal) (cs : List Char) (n : Numeral) : Prop where
  read : read? cs = some (n, [])
  positive : n.negative = false
  inexact : n.fraction ≠ [] ∨ n.exponent ≠ none
  value : n.magnitude = x.value

theorem writtenAs_parts {x : Decimal} {whole fraction : List Char} {exponent : Option Int}
    (zeros : Nat) (hw : ∀ c ∈ whole, c.isDigit = true) (hne : whole ≠ [])
    (hlead : whole = ['0'] ∨ (whole.map digitValue).head? ≠ some 0)
    (hf : ∀ c ∈ fraction, c.isDigit = true) (hinexact : fraction ≠ [] ∨ exponent ≠ none)
    (hdigits : ofDigits (whole.map digitValue ++ fraction.map digitValue) = x.digits * 10 ^ zeros)
    (hexponent : exponent.getD 0 - fraction.length + zeros = x.exponent) :
    ∃ n, x.WrittenAs (parts whole fraction exponent) n := by
  refine ⟨_, read?_parts exponent hw hne hlead hf, rfl, ?_, magnitude_eq_value zeros hdigits ?_⟩
  · simpa using hinexact
  · simpa using hexponent

theorem isDigit_toDigits {n : Nat} : ∀ c ∈ Nat.toDigits 10 n, c.isDigit = true :=
  fun _ hc => Nat.isDigit_of_mem_toDigits (by decide) (by decide) hc

theorem isDigit_replicate_zero {n : Nat} : ∀ c ∈ List.replicate n '0', c.isDigit = true := by
  intro c hc
  rw [List.eq_of_mem_replicate hc]
  rfl

theorem map_replicate_zero (n : Nat) :
    (List.replicate n '0').map digitValue = List.replicate n 0 := List.map_replicate

theorem head?_take_toDigits {n k : Nat} (hn : n ≠ 0) (hk : k ≠ 0) :
    (((Nat.toDigits 10 n).take k).map digitValue).head? ≠ some 0 := by
  rw [List.map_take, List.head?_take, if_neg hk]
  exact head?_digitsOf hn

section
variable {x : Decimal} {cs : List Char} {place : Int} (hne : cs ≠ [])
  (hdigit : ∀ c ∈ cs, c.isDigit = true) (hvalue : ofDigits (cs.map digitValue) = x.digits)
  (hplace : place = cs.length + x.exponent)
include hne hdigit hvalue hplace

theorem exists_writtenAs_point_front (hfront : place ≤ 0) :
    ∃ n, x.WrittenAs (positional cs place) n := by
  have htext : positional cs place =
      parts ['0'] (List.replicate (-place).toNat '0' ++ cs) none := by
    obtain ⟨c, cs, rfl⟩ := List.exists_cons_of_ne_nil hne
    rw [positional, if_pos hfront, parts]
    cases (-place).toNat with
    | zero => simp [pointed, exponentChars]
    | succ k => simp [pointed, exponentChars, List.replicate_succ]
  rw [htext]
  refine writtenAs_parts 0 (List.forall_mem_singleton.2 rfl) (by simp) (.inl rfl) ?_
    (.inl (by simp [hne])) ?_ ?_
  · exact List.forall_mem_append.2 ⟨isDigit_replicate_zero, hdigit⟩
  · rw [List.map_append, map_replicate_zero, ← List.append_assoc]
    have hzeros := ofDigits_zeros_append ((-place).toNat + 1) (cs.map digitValue)
    rw [List.replicate_succ] at hzeros
    simpa [hvalue, digitValue] using hzeros
  · simp only [Option.getD_none, List.length_append, List.length_replicate]
    omega

theorem exists_writtenAs_point_behind (hlead : (cs.map digitValue).head? ≠ some 0)
    (hpos : ¬ place ≤ 0) (hbehind : cs.length ≤ place.toNat) :
    ∃ n, x.WrittenAs (positional cs place) n := by
  have htext : positional cs place =
      parts (cs ++ List.replicate (place.toNat - cs.length) '0') ['0'] none := by
    rw [positional, if_neg hpos, if_pos hbehind]
    rfl
  rw [htext]
  refine writtenAs_parts (place.toNat - cs.length + 1) ?_ (by simp [hne]) (.inr ?_)
    (List.forall_mem_singleton.2 rfl) (.inl (by simp)) ?_ ?_
  · exact List.forall_mem_append.2 ⟨hdigit, isDigit_replicate_zero⟩
  · obtain ⟨c, cs, rfl⟩ := List.exists_cons_of_ne_nil hne
    exact hlead
  · have hzeros := ofDigits_append_zeros (cs.map digitValue) (place.toNat - cs.length + 1)
    rw [List.replicate_succ', ← List.append_assoc] at hzeros
    simpa [hvalue, map_replicate_zero, digitValue] using hzeros
  · simp only [Option.getD_none, List.length_singleton]
    omega

theorem exists_writtenAs_point_within
    (hlead : ((cs.take place.toNat).map digitValue).head? ≠ some 0) (hpos : ¬ place ≤ 0)
    (hwithin : ¬ cs.length ≤ place.toNat) : ∃ n, x.WrittenAs (positional cs place) n := by
  have hdrop : cs.drop place.toNat ≠ [] := by simpa using hwithin
  have htext : positional cs place =
      parts (cs.take place.toNat) (cs.drop place.toNat) none := by
    obtain ⟨d, ds, hds⟩ := List.exists_cons_of_ne_nil hdrop
    rw [positional, if_neg hpos, if_neg hwithin, parts, hds, pointed, exponentChars,
      List.append_nil]
  rw [htext]
  refine writtenAs_parts 0 (fun c hc => hdigit c (List.mem_of_mem_take hc)) ?_ (.inr hlead)
    (fun c hc => hdigit c (List.mem_of_mem_drop hc)) (.inl hdrop) ?_ ?_
  · rw [Ne, List.take_eq_nil_iff]
    simp only [hne, or_false]
    omega
  · rw [← List.map_append, List.take_append_drop, hvalue, Nat.pow_zero, Nat.mul_one]
  · simp only [Option.getD_none, List.length_drop]
    omega

end

theorem exists_writtenAs_positional {x : Decimal} (hx : x.digits ≠ 0) {place : Int}
    (hplace : place = (Nat.toDigits 10 x.digits).length + x.exponent) :
    ∃ n, x.WrittenAs (positional (Nat.toDigits 10 x.digits) place) n := by
  have hne : Nat.toDigits 10 x.digits ≠ [] := Nat.toDigits_ne_nil
  have hvalue : ofDigits ((Nat.toDigits 10 x.digits).map digitValue) = x.digits :=
    ofDigits_digitsOf x.digits
  by_cases hfront : place ≤ 0
  · exact exists_writtenAs_point_front hne isDigit_toDigits hvalue hplace hfront
  · by_cases hbehind : (Nat.toDigits 10 x.digits).length ≤ place.toNat
    · exact exists_writtenAs_point_behind hne isDigit_toDigits hvalue hplace (head?_digitsOf hx)
        hfront hbehind
    · exact exists_writtenAs_point_within hne isDigit_toDigits hvalue hplace
        (head?_take_toDigits hx (by omega)) hfront hbehind

theorem exists_writtenAs_scientific {x : Decimal} (hx : x.digits ≠ 0) {place : Int}
    (hplace : place = (Nat.toDigits 10 x.digits).length + x.exponent) :
    ∃ n, x.WrittenAs (scientific (Nat.toDigits 10 x.digits) (place - 1)) n := by
  have hne : Nat.toDigits 10 x.digits ≠ [] := Nat.toDigits_ne_nil
  have hvalue : ofDigits ((Nat.toDigits 10 x.digits).map digitValue) = x.digits :=
    ofDigits_digitsOf x.digits
  have hdigit := isDigit_toDigits (n := x.digits)
  have hlead := head?_take_toDigits (k := 1) hx (by decide)
  generalize Nat.toDigits 10 x.digits = cs at *
  have htext : scientific cs (place - 1) = parts (cs.take 1) (cs.drop 1) (some (place - 1)) := by
    rw [scientific, parts, exponentChars, List.append_assoc]
    cases cs.drop 1 with
    | nil => rfl
    | cons d ds => rfl
  have hlength : 0 < cs.length := List.length_pos_iff.2 hne
  rw [htext]
  refine writtenAs_parts 0 (fun c hc => hdigit c (List.mem_of_mem_take hc)) ?_
    (.inr hlead) (fun c hc => hdigit c (List.mem_of_mem_drop hc)) (.inr (by simp)) ?_ ?_
  · rw [Ne, List.take_eq_nil_iff]
    simp [hne]
  · rw [← List.map_append, List.take_append_drop, hvalue, Nat.pow_zero, Nat.mul_one]
  · simp only [Option.getD_some, List.length_drop]
    omega

theorem exists_writtenAs {x : Decimal} (hx : x.digits ≠ 0) : ∃ n, x.WrittenAs x.chars n := by
  simp only [chars]
  split
  · exact exists_writtenAs_positional hx rfl
  · exact exists_writtenAs_scientific hx rfl

end Decimal

/-- The text of a double is a numeral with a point or an exponent, whose value rounds to the
double. -/
theorem Double.exists_read?_chars (d : Double) : ∃ n, Numeral.read? d.chars = some (n, []) ∧
    n.negative = d.negative ∧ (n.fraction ≠ [] ∨ n.exponent ≠ none) ∧
      d.Covers (4 * one * n.magnitude) := by
  have hmagnitude : ∃ n : Numeral,
      Numeral.read? (if d.significand = 0 then ['0', '.', '0'] else d.shortest.chars) =
        some (n, []) ∧
      n.negative = false ∧ (n.fraction ≠ [] ∨ n.exponent ≠ none) ∧
      d.Covers (4 * one * n.magnitude) := by
    by_cases hzero : d.significand = 0
    · rw [if_pos hzero]
      refine ⟨⟨false, [0], [0], none⟩, rfl, rfl, .inl (by simp), ?_⟩
      have hvalue : Numeral.magnitude ⟨false, [0], [0], none⟩ = 0 := by
        simp [Numeral.magnitude, Numeral.ofDigits]
      rw [hvalue, mul_zero]
      exact covers_zero hzero
    · rw [if_neg hzero]
      obtain ⟨n, hread, hpositive, hinexact, hvalue⟩ :=
        Decimal.exists_writtenAs (digits_shortest_ne_zero hzero)
      refine ⟨n, hread, hpositive, hinexact, ?_⟩
      rw [hvalue]
      exact covers_shortest hzero
  obtain ⟨n, hread, hpositive, hinexact, hcovers⟩ := hmagnitude
  simp only [chars]
  cases hnegative : d.negative with
  | false => exact ⟨n, hread, hpositive, hinexact, hcovers⟩
  | true => exact ⟨_, Numeral.read?_minus hread hpositive, rfl, hinexact, hcovers⟩

theorem Double.ext_parts {d e : Double} (hnegative : d.negative = e.negative)
    (hsignificand : d.significand = e.significand) (hscale : d.scale = e.scale) : d = e := by
  cases d
  cases e
  simp_all

theorem Double.chars_injective : Function.Injective Double.chars := by
  intro d e h
  obtain ⟨n, hd, hdsign, -, hdcovers⟩ := d.exists_read?_chars
  obtain ⟨m, he, hesign, -, hecovers⟩ := e.exists_read?_chars
  rw [h, he] at hd
  obtain ⟨rfl, -⟩ := Prod.mk.inj (Option.some.inj hd)
  obtain ⟨hsignificand, hscale⟩ := hdcovers.unique hecovers
  exact Double.ext_parts (hdsign.symm.trans hesign) hsignificand hscale

theorem intChars_injective : Function.Injective intChars := by
  intro n m h
  have hn := Numeral.read?_intChars_self n
  rw [h, Numeral.read?_intChars_self m] at hn
  obtain ⟨hnumeral, -⟩ := Prod.mk.inj (Option.some.inj hn)
  have hwhole : Numeral.digitsOf n.natAbs = Numeral.digitsOf m.natAbs :=
    congrArg Numeral.whole hnumeral.symm
  have hsign : n < 0 ↔ m < 0 := decide_eq_decide.1 (congrArg Numeral.negative hnumeral.symm)
  have habs : n.natAbs = m.natAbs := by
    rw [← Numeral.ofDigits_digitsOf n.natAbs, hwhole, Numeral.ofDigits_digitsOf]
  omega

theorem Number.exists_read?_chars (n : Number) : ∃ m, Numeral.read? n.chars = some (m, []) := by
  cases n with
  | int n hn => exact ⟨_, Numeral.read?_intChars_self n⟩
  | double d =>
      obtain ⟨m, hm, -⟩ := d.exists_read?_chars
      exact ⟨m, hm⟩

/-- An integer has neither point nor exponent, a double has one of them. -/
theorem intChars_ne_chars (n : Int) (d : Double) : intChars n ≠ d.chars := by
  intro h
  obtain ⟨m, hd, -, hinexact, -⟩ := d.exists_read?_chars
  rw [← h, Numeral.read?_intChars_self n] at hd
  obtain ⟨rfl, -⟩ := Prod.mk.inj (Option.some.inj hd)
  rcases hinexact with hfraction | hexponent
  · exact hfraction rfl
  · exact hexponent rfl

theorem Number.chars_injective : Function.Injective Number.chars := by
  intro n m h
  cases n with
  | int n hn =>
      cases m with
      | int m hm =>
          obtain rfl := intChars_injective h
          rfl
      | double e => exact (intChars_ne_chars n e h).elim
  | double d =>
      cases m with
      | int m hm => exact (intChars_ne_chars m d h.symm).elim
      | double e => rw [Double.chars_injective h]

end StyleVariants
