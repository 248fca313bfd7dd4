import StyleVariants.Number.Double

/-!
# Shortest decimals

The decimal written for a double is a point of the coarsest decimal grid that has one
between the midpoints to the neighbouring doubles. A midpoint itself counts iff the
significand is even, because a tie rounds to even.
-/
namespace StyleVariants

structure Decimal where
  digits : Nat
  exponent : Int

namespace Double

/-- Half the gaps below and above, in quarter units. -/
def halfGaps (d : Double) : Nat × Nat :=
  let gap := Nat.pow 2 d.scale
  (if d.significand = Nat.pow 2 52 ∧ d.scale ≠ 0 then gap else 2 * gap, 2 * gap)

def gridStep (exponent : Int) : Nat × Nat :=
  if 0 ≤ exponent then (one * Nat.pow 10 exponent.toNat, 1)
  else (one, Nat.pow 10 (-exponent).toNat)

/-- Whether `digits · 10 ^ exponent` rounds to the magnitude of `d`. -/
def roundsFrom (d : Double) (digits : Nat) (exponent : Int) : Bool :=
  let step := gridStep exponent
  let gaps := d.halfGaps
  let point := 4 * digits * step.1
  let low := (4 * d.units - gaps.1) * step.2
  let high := (4 * d.units + gaps.2) * step.2
  if d.significand % 2 = 0 then low ≤ point && point ≤ high else low < point && point < high

/-- The nearest point of a grid that rounds to `d`: one of its two neighbours. -/
def onGrid? (d : Double) (exponent : Int) : Option Nat :=
  let step := gridStep exponent
  let below := d.units * step.2 / step.1
  let past := d.units * step.2 % step.1
  match d.roundsFrom below exponent, d.roundsFrom (below + 1) exponent with
  | true, true =>
      if 2 * past < step.1 || (2 * past == step.1 && below % 2 == 0) then some below
      else some (below + 1)
  | true, false => some below
  | false, true => some (below + 1)
  | false, false => none

/-- The exponents of all grids that a double may need, the coarsest first. -/
def gridExponents : List Int := (List.range 634).map fun i : Nat => 309 - (i : Int)

def shortest (d : Double) : Decimal :=
  (gridExponents.findSome? fun e => (d.onGrid? e).map (⟨·, e⟩)).getD ⟨0, 0⟩

end Double
end StyleVariants
