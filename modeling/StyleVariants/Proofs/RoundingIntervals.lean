import StyleVariants.Number.Shortest
import Mathlib.Algebra.Order.Field.Rat
import Mathlib.Tactic.Linarith
import Mathlib.Tactic.Ring

/-!
# Rounding intervals

The numbers that round to a double lie between the midpoints to its neighbours. No number lies in
the intervals of two magnitudes, because two midpoints only meet where one of the two significands
is odd, and then the midpoint belongs to the other. The shortest decimal lies in the interval of
its double: the finest grid is so fine that the point below the double always does. So a double is
told by its shortest decimal, up to the sign.
-/
namespace StyleVariants

def Decimal.value (x : Decimal) : ℚ := x.digits * 10 ^ x.exponent

namespace Double

/-- A number of quarter units rounds to a magnitude. -/
structure Covers (d : Double) (quarters : ℚ) : Prop where
  low_le : (4 * d.units : ℚ) ≤ quarters + d.halfGaps.1
  le_high : quarters ≤ 4 * d.units + d.halfGaps.2
  low_lt : d.significand % 2 = 1 → (4 * d.units : ℚ) < quarters + d.halfGaps.1
  lt_high : d.significand % 2 = 1 → quarters < 4 * d.units + d.halfGaps.2

def Below (d e : Double) : Prop :=
  d.scale < e.scale ∨ (d.scale = e.scale ∧ d.significand < e.significand)

theorem halfGaps_fst_le (d : Double) : d.halfGaps.1 ≤ 2 * Nat.pow 2 d.scale := by
  simp only [halfGaps]
  split
  · omega
  · exact Nat.le_refl _

/-- The interval of the lower magnitude ends where that of the higher one begins, or before. If
both ends belong to their intervals, it ends before. -/
theorem Below.halfGaps_le {d e : Double} (h : d.Below e) :
    4 * d.units + d.halfGaps.2 + e.halfGaps.1 ≤ 4 * e.units ∧
      (d.significand % 2 = 0 → e.significand % 2 = 0 →
        4 * d.units + d.halfGaps.2 + e.halfGaps.1 < 4 * e.units) := by
  obtain ⟨hd, -, -⟩ := d.canonical
  obtain ⟨-, -, he⟩ := e.canonical
  have hfull : Nat.pow 2 52 = 4503599627370496 := rfl
  have hwidth : Nat.pow 2 53 = 9007199254740992 := rfl
  have hgap : d.halfGaps.2 = 2 * Nat.pow 2 d.scale := rfl
  have hpos : 0 < Nat.pow 2 d.scale := Nat.two_pow_pos d.scale
  rw [hwidth] at hd
  rw [hfull] at he
  rw [hgap]
  unfold units
  rcases h with hscale | ⟨hscale, hsignificand⟩
  · have hdouble : 2 * Nat.pow 2 d.scale ≤ Nat.pow 2 e.scale := by
      have hpow := Nat.pow_le_pow_right (n := 2) (by decide) hscale
      rwa [Nat.pow_succ'] at hpow
    have hlow := Nat.mul_le_mul_right (Nat.pow 2 d.scale) (Nat.le_of_lt_succ hd)
    have hne : e.scale ≠ 0 := by omega
    have hhigh := he.resolve_right hne
    -- the gap below the higher magnitude is narrow if it is a power of two
    by_cases hpower : e.significand = 4503599627370496
    · have hnarrow : e.halfGaps.1 = Nat.pow 2 e.scale := if_pos ⟨hpower, hne⟩
      rw [hnarrow, hpower]
      refine ⟨by omega, fun heven _ => ?_⟩
      -- an even significand is not the last one of its scale
      have hbelow : d.significand ≤ 9007199254740990 := by omega
      have hlow := Nat.mul_le_mul_right (Nat.pow 2 d.scale) hbelow
      omega
    · have hwide := e.halfGaps_fst_le
      have habove : 4503599627370497 ≤ e.significand := by omega
      have hhigh := Nat.mul_le_mul_right (Nat.pow 2 e.scale) habove
      omega
  · have hwide := e.halfGaps_fst_le
    rw [← hscale] at hwide ⊢
    have hnext := Nat.mul_le_mul_right (Nat.pow 2 d.scale) (Nat.succ_le_of_lt hsignificand)
    rw [Nat.succ_mul] at hnext
    refine ⟨by omega, fun hdeven heeven => ?_⟩
    -- between two even significands stands an odd one
    have hskip : d.significand + 2 ≤ e.significand := by omega
    have hnext := Nat.mul_le_mul_right (Nat.pow 2 d.scale) hskip
    rw [Nat.add_mul] at hnext
    omega

theorem Below.not_covers {d e : Double} (h : d.Below e) {quarters : ℚ} (hd : d.Covers quarters) :
    ¬ e.Covers quarters := by
  intro he
  obtain ⟨hle, hlt⟩ := h.halfGaps_le
  have hends : (4 * d.units + d.halfGaps.2 + e.halfGaps.1 : ℚ) ≤ 4 * e.units := by
    exact_mod_cast hle
  have hhigh := hd.le_high
  have hlow := he.low_le
  rcases Nat.mod_two_eq_zero_or_one d.significand with hdeven | hdodd
  · rcases Nat.mod_two_eq_zero_or_one e.significand with heeven | heodd
    · have hends : (4 * d.units + d.halfGaps.2 + e.halfGaps.1 : ℚ) < 4 * e.units := by
        exact_mod_cast hlt hdeven heeven
      linarith
    · have hlow := he.low_lt heodd
      linarith
  · have hhigh := hd.lt_high hdodd
    linarith

/-- A number rounds to one magnitude only. -/
theorem Covers.unique {d e : Double} {quarters : ℚ} (hd : d.Covers quarters)
    (he : e.Covers quarters) : d.significand = e.significand ∧ d.scale = e.scale := by
  rcases Nat.lt_trichotomy d.scale e.scale with hscale | hscale | hscale
  · exact (Below.not_covers (.inl hscale) hd he).elim
  · rcases Nat.lt_trichotomy d.significand e.significand with hlt | heq | hgt
    · exact (Below.not_covers (.inr ⟨hscale, hlt⟩) hd he).elim
    · exact ⟨heq, hscale⟩
    · exact (Below.not_covers (.inr ⟨hscale.symm, hgt⟩) he hd).elim
  · exact (Below.not_covers (.inl hscale) he hd).elim

theorem one_pos : 0 < one := by
  unfold one
  generalize 1074 = places
  exact Nat.two_pow_pos places

theorem gridStep_pos (exponent : Int) :
    0 < (gridStep exponent).1 ∧ 0 < (gridStep exponent).2 := by
  have hten : ∀ k, 0 < Nat.pow 10 k := fun k => Nat.pow_pos (by decide)
  have hone := one_pos
  unfold gridStep
  generalize one = units at *
  split
  · exact ⟨Nat.mul_pos hone (hten _), Nat.one_pos⟩
  · exact ⟨hone, hten _⟩

theorem gridStep_fst (exponent : Int) :
    ((gridStep exponent).1 : ℚ) = one * 10 ^ exponent * (gridStep exponent).2 := by
  unfold gridStep
  generalize one = units
  split
  · next h =>
    have hpow : (10 : ℚ) ^ exponent = 10 ^ exponent.toNat := by
      rw [← zpow_natCast, Int.toNat_of_nonneg h]
    simp [hpow]
  · next h =>
    have hpow : (10 : ℚ) ^ exponent * 10 ^ (-exponent).toNat = 1 := by
      rw [← zpow_natCast, Int.toNat_of_nonneg (by omega), ← zpow_add₀ (by norm_num)]
      simp
    simp [mul_assoc, hpow]

theorem halfGaps_lt_units {d : Double} (h : d.significand ≠ 0) :
    d.halfGaps.1 < 4 * d.units := by
  have hwide := d.halfGaps_fst_le
  have hpos : 0 < Nat.pow 2 d.scale := Nat.two_pow_pos d.scale
  have hunits := Nat.mul_le_mul_right (Nat.pow 2 d.scale) (Nat.one_le_iff_ne_zero.2 h)
  unfold units
  omega

theorem cast_point (x : Decimal) :
    ((4 * x.digits * (gridStep x.exponent).1 : Nat) : ℚ) =
      4 * one * x.value * (gridStep x.exponent).2 := by
  rw [Nat.cast_mul, gridStep_fst, Decimal.value]
  push_cast
  ring

theorem le_point_iff (bound : Nat) (x : Decimal) :
    bound * (gridStep x.exponent).2 ≤ 4 * x.digits * (gridStep x.exponent).1 ↔
      (bound : ℚ) ≤ 4 * one * x.value := by
  have hpos : (0 : ℚ) < (gridStep x.exponent).2 := by exact_mod_cast (gridStep_pos x.exponent).2
  rw [← mul_le_mul_iff_of_pos_right hpos, ← cast_point]
  norm_cast

theorem point_le_iff (bound : Nat) (x : Decimal) :
    4 * x.digits * (gridStep x.exponent).1 ≤ bound * (gridStep x.exponent).2 ↔
      4 * one * x.value ≤ (bound : ℚ) := by
  have hpos : (0 : ℚ) < (gridStep x.exponent).2 := by exact_mod_cast (gridStep_pos x.exponent).2
  rw [← mul_le_mul_iff_of_pos_right hpos, ← cast_point]
  norm_cast

theorem covers_of_roundsFrom {d : Double} (h : d.significand ≠ 0) {x : Decimal}
    (hr : d.roundsFrom x.digits x.exponent = true) : d.Covers (4 * one * x.value) := by
  have hlow : ((4 * d.units - d.halfGaps.1 : Nat) : ℚ) = 4 * d.units - d.halfGaps.1 := by
    rw [Nat.cast_sub (halfGaps_lt_units h).le]
    norm_cast
  have hhigh : ((4 * d.units + d.halfGaps.2 : Nat) : ℚ) = 4 * d.units + d.halfGaps.2 := by
    norm_cast
  simp only [roundsFrom] at hr
  split at hr
  · next heven =>
    rw [Bool.and_eq_true, decide_eq_true_eq, decide_eq_true_eq, le_point_iff, point_le_iff, hlow,
      hhigh] at hr
    have hodd : d.significand % 2 ≠ 1 := by omega
    exact ⟨by linarith, hr.2, fun h => (hodd h).elim, fun h => (hodd h).elim⟩
  · rw [Bool.and_eq_true, decide_eq_true_eq, decide_eq_true_eq, ← Nat.not_le, ← Nat.not_le,
      le_point_iff, point_le_iff, hlow, hhigh, not_le, not_le] at hr
    exact ⟨by linarith, hr.2.le, fun _ => by linarith, fun _ => hr.2⟩

theorem gridStep_finest : 2 * (gridStep (-324)).1 < (gridStep (-324)).2 := by
  have hten : (-(-324) : Int).toNat = 28 * 11 + 16 := rfl
  have htwo : (1074 : Nat) = 93 * 11 + 51 := rfl
  have hpowers : 2 * (2 ^ 93) ^ 11 * 2 ^ 51 < (10 ^ 28) ^ 11 * 10 ^ 16 := by decide
  unfold gridStep one
  rw [if_neg (by decide), hten, htwo]
  simpa only [Nat.pow_eq, Nat.pow_add, Nat.pow_mul, Nat.mul_assoc] using hpowers

theorem le_halfGaps_fst (d : Double) : 2 ≤ d.halfGaps.1 := by
  have hpos : 0 < Nat.pow 2 d.scale := Nat.two_pow_pos d.scale
  simp only [halfGaps]
  split
  · next hpower =>
    have hpow : Nat.pow 2 1 ≤ Nat.pow 2 d.scale :=
      Nat.pow_le_pow_right (by decide) (Nat.one_le_iff_ne_zero.2 hpower.2)
    exact hpow
  · omega

/-- If the steps of a grid are short enough, the last point below a double rounds to it. -/
theorem roundsFrom_of_fine {d : Double} (h : d.significand ≠ 0) {exponent : Int}
    (hfine : 2 * (gridStep exponent).1 < (gridStep exponent).2) :
    d.roundsFrom (d.units * (gridStep exponent).2 / (gridStep exponent).1) exponent = true := by
  have hwidth := (gridStep_pos exponent).1
  have hhigh : 0 < d.halfGaps.2 := Nat.mul_pos (by decide) (Nat.two_pow_pos d.scale)
  simp only [roundsFrom]
  generalize (gridStep exponent).1 = width at *
  generalize (gridStep exponent).2 = steps at *
  have hsteps : 0 < steps := by omega
  have hle := Nat.div_mul_le_self (d.units * steps) width
  have hlt := Nat.lt_div_mul_add (a := d.units * steps) hwidth
  have hunits := Nat.mul_le_mul_right steps (halfGaps_lt_units h).le
  have hfirst := Nat.mul_le_mul_right steps d.le_halfGaps_fst
  have hsecond := Nat.mul_le_mul_right steps (Nat.succ_le_of_lt hhigh)
  have hafter : 4 * (d.units * steps / width) * width < (4 * d.units + d.halfGaps.2) * steps := by
    rw [Nat.mul_assoc, Nat.add_mul, Nat.mul_assoc]
    omega
  have hbefore : (4 * d.units - d.halfGaps.1) * steps < 4 * (d.units * steps / width) * width := by
    rw [Nat.mul_assoc] at hunits ⊢
    rw [Nat.sub_mul, Nat.mul_assoc]
    omega
  split
  · simp only [Bool.and_eq_true, decide_eq_true_eq]
    exact ⟨hbefore.le, hafter.le⟩
  · simp only [Bool.and_eq_true, decide_eq_true_eq]
    exact ⟨hbefore, hafter⟩

theorem roundsFrom_of_onGrid? {d : Double} {exponent : Int} {digits : Nat}
    (h : d.onGrid? exponent = some digits) : d.roundsFrom digits exponent = true := by
  simp only [onGrid?] at h
  split at h
  · next hbelow habove =>
    split at h
    · exact Option.some.inj h ▸ hbelow
    · exact Option.some.inj h ▸ habove
  · next hbelow _ => exact Option.some.inj h ▸ hbelow
  · next _ habove => exact Option.some.inj h ▸ habove
  · cases h

theorem exists_onGrid? {d : Double} {exponent : Int}
    (h : d.roundsFrom (d.units * (gridStep exponent).2 / (gridStep exponent).1) exponent = true) :
    ∃ digits, d.onGrid? exponent = some digits := by
  simp only [onGrid?, h]
  split
  · split
    · exact ⟨_, rfl⟩
    · exact ⟨_, rfl⟩
  · exact ⟨_, rfl⟩
  · exact ⟨_, rfl⟩
  · simp_all

theorem roundsFrom_shortest {d : Double} (h : d.significand ≠ 0) :
    d.roundsFrom d.shortest.digits d.shortest.exponent = true := by
  have hfinest : (-324 : Int) ∈ gridExponents :=
    List.mem_map.2 ⟨633, List.mem_range.2 (by decide), rfl⟩
  obtain ⟨last, hlast⟩ := exists_onGrid? (roundsFrom_of_fine h gridStep_finest)
  have hfound : (gridExponents.findSome? fun e =>
      (d.onGrid? e).map (Decimal.mk · e)).isSome = true := by
    rw [List.findSome?_isSome_iff]
    exact ⟨-324, hfinest, by simp [hlast]⟩
  obtain ⟨x, hx⟩ := Option.isSome_iff_exists.1 hfound
  have hshortest : d.shortest = x := by rw [shortest, hx, Option.getD_some]
  obtain ⟨exponent, -, hgrid⟩ := List.exists_of_findSome?_eq_some hx
  obtain ⟨digits, hdigits, rfl⟩ := Option.map_eq_some_iff.1 hgrid
  rw [hshortest]
  exact roundsFrom_of_onGrid? hdigits

theorem covers_shortest {d : Double} (h : d.significand ≠ 0) :
    d.Covers (4 * one * d.shortest.value) :=
  covers_of_roundsFrom h (roundsFrom_shortest h)

theorem digits_shortest_ne_zero {d : Double} (h : d.significand ≠ 0) : d.shortest.digits ≠ 0 := by
  intro hzero
  have hlow := (covers_shortest h).low_le
  have hunits : (d.halfGaps.1 : ℚ) < 4 * d.units := by exact_mod_cast halfGaps_lt_units h
  rw [Decimal.value, hzero] at hlow
  simp only [Nat.cast_zero, zero_mul, mul_zero, zero_add] at hlow
  linarith

theorem covers_zero {d : Double} (h : d.significand = 0) : d.Covers 0 := by
  have hunits : d.units = 0 := by rw [units, h, Nat.zero_mul]
  have heven : d.significand % 2 ≠ 1 := by omega
  refine ⟨?_, ?_, fun hodd => (heven hodd).elim, fun hodd => (heven hodd).elim⟩
  · rw [hunits]
    simp
  · rw [hunits]
    simp

end Double
end StyleVariants
