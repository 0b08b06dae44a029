import PeerNet.Decimal.Binary

/-!
# Shortest decimals

The decimal with the fewest digits that lies within rounding distance of a
binary number, and among those the nearest to it; of two equally near ones the
larger.
-/

set_option autoImplicit false

namespace PeerNet.Decimal

structure Scientific where
  digits : Nat
  exponent : Int
  deriving DecidableEq, Repr

structure Interval where
  lower : Nat
  value : Nat
  upper : Nat
  denominator : Nat
  closed : Bool
  deriving DecidableEq, Repr

namespace Interval

/-- The reals that round to a positive number of the binary format: halfway to
its two neighbours, where the lower neighbour of a power of two is half as far
away. The bounds round to it when its significand is even. -/
def around (value : Binary) : Interval :=
  let atPower := value.significand = Binary.hiddenBit ∧ value.exponent ≠ Binary.leastExponent
  let below := if atPower then 1 else 2
  let four := 4 * value.significand
  let exponent := value.exponent - 2
  let scale := if exponent ≥ 0 then 1 <<< exponent.toNat else 1
  { lower := (four - below) * scale
    value := four * scale
    upper := (four + 2) * scale
    denominator := if exponent ≥ 0 then 1 else 1 <<< (-exponent).toNat
    closed := value.significand % 2 == 0 }

def inUnits (range : Interval) (exponent : Int) : Interval :=
  if exponent ≥ 0 then { range with denominator := range.denominator * Nat.pow 10 exponent.toNat }
  else
    let scale := Nat.pow 10 (-exponent).toNat
    { range with
      lower := range.lower * scale, value := range.value * scale, upper := range.upper * scale }

def holds (range : Interval) (n : Nat) : Bool :=
  let scaled := n * range.denominator
  if range.closed then range.lower ≤ scaled && scaled ≤ range.upper
  else range.lower < scaled && scaled < range.upper

/-- The whole number in the interval that is nearest to its value, if one of
the value's two whole neighbours is in it; a tie goes to the larger. -/
def nearestWhole? (range : Interval) : Option Nat :=
  let below := range.value / range.denominator
  let above := below + 1
  let distanceBelow := range.value - below * range.denominator
  let distanceAbove := above * range.denominator - range.value
  match range.holds below, range.holds above with
  | true, true => some (if distanceBelow < distanceAbove then below else above)
  | true, false => some below
  | false, true => some above
  | false, false => none

def search (range : Interval) : Nat → Int → Scientific
  | 0, exponent => ⟨(range.inUnits exponent).value / (range.inUnits exponent).denominator, exponent⟩
  | steps + 1, exponent =>
    match (range.inUnits exponent).nearestWhole? with
    | some digits => ⟨digits, exponent⟩
    | none => search range steps (exponent - 1)

def orderAbove (range : Interval) : Int :=
  if range.value ≥ range.denominator then
    (Nat.toDigits 10 (range.value / range.denominator)).length
  else 2 - (Nat.toDigits 10 (range.denominator / range.value)).length

end Interval

/-- The shortest decimal that rounds to a number of the binary format. Eighteen
digits always suffice, and the search starts two places above the first. -/
def shortest (value : Binary) : Scientific :=
  if value.significand = 0 then ⟨0, 0⟩
  else
    let range := Interval.around value
    range.search 20 range.orderAbove

/-- A decimal written without an exponent: all of its digits, and a point only
before a place below one. -/
def Scientific.positional (number : Scientific) : String :=
  let digits := Nat.toDigits 10 number.digits
  if number.exponent ≥ 0 then
    if number.digits = 0 then "0"
    else String.ofList (digits ++ List.replicate number.exponent.toNat '0')
  else
    let places := (-number.exponent).toNat
    let padded := List.replicate (places + 1 - digits.length) '0' ++ digits
    let whole := padded.take (padded.length - places)
    let fraction := padded.drop (padded.length - places)
    String.ofList (whole ++ '.' :: fraction)

end PeerNet.Decimal
