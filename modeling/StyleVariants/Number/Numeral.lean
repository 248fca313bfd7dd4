import StyleVariants.Number.Basic

/-!
# Reading numerals

An integer that fits 64 bits keeps its value. Anything else is a double, computed the
quick way from a 64-bit significand, so it may differ from the nearest one in the last
place.
-/
namespace StyleVariants

/-- No fraction digits means no decimal point. -/
structure Numeral where
  negative : Bool
  whole : List Nat
  fraction : List Nat
  exponent : Option Int

namespace Numeral

def digitValue (c : Char) : Nat := c.toNat - '0'.toNat

def ofDigits (ds : List Nat) : Nat := ds.foldl (fun n d => n * 10 + d) 0

def digits (cs : List Char) : List Nat × List Char :=
  ((cs.takeWhile Char.isDigit).map digitValue, cs.dropWhile Char.isDigit)

def sign : List Char → Bool × List Char
  | '-' :: cs => (true, cs)
  | cs => (false, cs)

/-- At least one digit, and no zero in front of another. -/
def whole? (cs : List Char) : Option (List Nat × List Char) :=
  match digits cs with
  | ([], _) => none
  | (0 :: _ :: _, _) => none
  | result => some result

def fraction? : List Char → Option (List Nat × List Char)
  | '.' :: cs =>
      match digits cs with
      | ([], _) => none
      | result => some result
  | cs => some ([], cs)

def power? (cs : List Char) : Option (Int × List Char) :=
  let (negative, cs) := match cs with
    | '+' :: cs => (false, cs)
    | cs => sign cs
  match digits cs with
  | ([], _) => none
  | (ds, rest) =>
      some (if negative then -(ofDigits ds : Int) else ofDigits ds, rest)

def exponent? : List Char → Option (Option Int × List Char)
  | 'e' :: cs => (power? cs).map fun (n, rest) => (some n, rest)
  | 'E' :: cs => (power? cs).map fun (n, rest) => (some n, rest)
  | cs => some (none, cs)

def read? (cs : List Char) : Option (Numeral × List Char) := do
  let (negative, cs) := sign cs
  let (whole, cs) ← whole? cs
  let (fraction, cs) ← fraction? cs
  let (exponent, cs) ← exponent? cs
  return (⟨negative, whole, fraction, exponent⟩, cs)

/-- Appends digits to a significand while it fits 64 bits, and returns the digits
left over. -/
def fill : Nat → List Nat → Nat × List Nat
  | n, [] => (n, [])
  | n, d :: ds => if n * 10 + d < Nat.pow 2 64 then fill (n * 10 + d) ds else (n, d :: ds)

/-- Every step is rounded. Powers of ten go to 308 at most, so a smaller exponent takes two
quotients, and below -616 nothing is left. -/
def scaled? (significand : Nat) (exponent : Int) : Option Double := do
  let f ← Double.ofNat? significand
  if 308 < exponent then
    if significand = 0 then some f else none
  else if 0 ≤ exponent then
    f.mul? (← Double.tenPow? exponent.toNat)
  else if -308 ≤ exponent then
    f.div? (← Double.tenPow? (-exponent).toNat)
  else if -616 ≤ exponent then
    let f ← f.div? (← Double.tenPow? 308)
    f.div? (← Double.tenPow? (-exponent - 308).toNat)
  else
    some (.zero false)

/-- The number a numeral stands for; none if it is too large for a double. -/
def number? (n : Numeral) : Option Number :=
  let (significand, dropped) := fill 0 n.whole
  let value : Int := if n.negative then -significand else significand
  if n.fraction = [] ∧ n.exponent = none ∧ dropped = [] then
    if h : (-twoPow 63 ≤ value ∧ value < twoPow 64) ∧ ¬(n.negative = true ∧ significand = 0) then
      some (.int value h.1)
    else
      (Double.ofNat? significand).map fun d => .double (d.withSign n.negative)
  else
    let (significand, left) := fill significand n.fraction
    let exponent : Int :=
      dropped.length - (n.fraction.length - left.length : Nat) + n.exponent.getD 0
    (scaled? significand exponent).map fun d => .double (d.withSign n.negative)

end Numeral
end StyleVariants
