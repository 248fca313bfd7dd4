/-!
# Finite doubles

A finite IEEE 754 double is a sign and a whole number of units of 2⁻¹⁰⁷⁴ with at
most 53 significant bits.
-/
namespace StyleVariants

def roundHalfEven (num den : Nat) : Nat :=
  let q := num / den
  let r := num % den
  if 2 * r < den then q else if den < 2 * r then q + 1 else q + q % 2

/-- A scale above zero belongs to a significand of full width, so a value has one form. -/
structure Double where
  negative : Bool
  significand : Nat
  scale : Nat
  canonical : significand < Nat.pow 2 53 ∧ scale ≤ 2045 ∧ (Nat.pow 2 52 ≤ significand ∨ scale = 0)
  deriving DecidableEq

namespace Double

def one : Nat := Nat.pow 2 1074

def units (d : Double) : Nat := d.significand * Nat.pow 2 d.scale

def zero (negative : Bool) : Double := ⟨negative, 0, 0, by decide⟩

def withSign (negative : Bool) (d : Double) : Double := { d with negative := negative }

/-- The two zeros are equal. -/
instance : BEq Double where
  beq a b := a.units == b.units && (a.negative == b.negative || a.units == 0)

/-- The double nearest to `num / den` units, none past the largest finite one. -/
def nearest? (num den : Nat) : Option Double :=
  let scale := (num / den).log2 - 52
  let m := roundHalfEven num (den * Nat.pow 2 scale)
  if h : m < Nat.pow 2 53 ∧ scale ≤ 2045 ∧ (Nat.pow 2 52 ≤ m ∨ scale = 0) then
    some ⟨false, m, scale, h⟩
  else if h : scale + 1 ≤ 2045 then
    some ⟨false, Nat.pow 2 52, scale + 1, by decide, h, .inl (Nat.le_refl _)⟩
  else
    none

def ofNat? (n : Nat) : Option Double := nearest? (n * one) 1

def mul? (a b : Double) : Option Double := nearest? (a.units * b.units) one

def div? (a b : Double) : Option Double := nearest? (a.units * one) b.units

def tenPow? (k : Nat) : Option Double := ofNat? (Nat.pow 10 k)

end Double
end StyleVariants
