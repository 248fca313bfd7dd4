import StyleVariants.Number.Shortest

/-!
# Numbers

A number is a 64-bit integer, signed or unsigned, or a finite double.
-/
namespace StyleVariants

abbrev twoPow (n : Nat) : Int := @HPow.hPow Int Nat Int (@instHPow Int Nat instPowNat) 2 n

inductive Number where
  | int (value : Int) (inRange : -twoPow 63 ≤ value ∧ value < twoPow 64)
  | double (value : Double)
  deriving DecidableEq

namespace Number

/-- An integer never equals a double. -/
instance : BEq Number where
  beq
    | .int a _, .int b _ => a == b
    | .double a, .double b => a == b
    | _, _ => false

end Number

def intChars (n : Int) : List Char :=
  if n < 0 then '-' :: Nat.toDigits 10 n.natAbs else Nat.toDigits 10 n.natAbs

namespace Decimal

/-- The digits with the point after `place` of them, filled up with zeros. -/
def positional (digits : List Char) (place : Int) : List Char :=
  if place ≤ 0 then '0' :: '.' :: (List.replicate (-place).toNat '0' ++ digits)
  else if digits.length ≤ place.toNat then
    digits ++ List.replicate (place.toNat - digits.length) '0' ++ ['.', '0']
  else
    digits.take place.toNat ++ '.' :: digits.drop place.toNat

/-- No point stands behind a single digit. -/
def scientific (digits : List Char) (exponent : Int) : List Char :=
  let fraction := match digits.drop 1 with
    | [] => []
    | rest => '.' :: rest
  digits.take 1 ++ fraction ++ 'e' :: (if exponent < 0 then '-' else '+') ::
    Nat.toDigits 10 exponent.natAbs

/-- Positional from 10⁻⁵ up to but not including 10¹⁶, scientific elsewhere. -/
def chars (x : Decimal) : List Char :=
  let digits := Nat.toDigits 10 x.digits
  let place := digits.length + x.exponent
  if -4 ≤ place ∧ place ≤ 16 then positional digits place else scientific digits (place - 1)

end Decimal

/-- A zero keeps its sign. -/
def Double.chars (d : Double) : List Char :=
  let magnitude := if d.significand = 0 then ['0', '.', '0'] else d.shortest.chars
  if d.negative then '-' :: magnitude else magnitude

namespace Number

def chars : Number → List Char
  | .int n _ => intChars n
  | .double d => d.chars

def text (n : Number) : String := String.ofList n.chars

end Number
end StyleVariants
