/-!
# Binary floating point

The finite numbers of the 64-bit binary format as a whole number times a power
of two, and the number of the format nearest to a ratio of whole numbers: ties
go to the even significand, and a magnitude above the largest number becomes
infinite.
-/

set_option autoImplicit false

namespace PeerNet.Decimal

structure Binary where
  significand : Nat
  exponent : Int
  deriving DecidableEq, Repr

namespace Binary

def leastExponent : Int := -1074

/-- The leading bit of a significand of 53 bits, `2 ^ 52`, which the format
leaves out. -/
def hiddenBit : Nat := 0x10000000000000

/-- The magnitude of a finite number; none of an infinity or of a NaN. -/
def ofBits? (bits : UInt64) : Option Binary :=
  let fraction : Nat := bits.toNat % hiddenBit
  let biased : Nat := bits.toNat / hiddenBit % 2048
  if biased = 2047 then none
  else if biased = 0 then some ⟨fraction, leastExponent⟩
  else some ⟨hiddenBit + fraction, biased - 1075⟩

/-- The bits of a magnitude whose significand is below `2 ^ 53`, and at least
`2 ^ 52` unless the exponent is the least one. -/
def toBits (value : Binary) : UInt64 :=
  if value.significand < hiddenBit then UInt64.ofNat value.significand
  else if value.exponent + 1075 ≥ 2047 then UInt64.ofNat (2047 * hiddenBit)
  else UInt64.ofNat ((value.exponent + 1075).toNat * hiddenBit + (value.significand - hiddenBit))

/-- The quotient rounded to the nearest whole number, a tie to the even one. -/
def roundQuotient (numerator denominator : Nat) : Nat :=
  let quotient := numerator / denominator
  let twice := 2 * (numerator % denominator)
  if twice > denominator || (twice == denominator && quotient % 2 == 1) then quotient + 1
  else quotient

def scaleRatio (numerator denominator : Nat) (exponent : Int) : Nat × Nat :=
  if exponent ≥ 0 then (numerator, denominator <<< exponent.toNat)
  else (numerator <<< (-exponent).toNat, denominator)

/-- The exponent at which a positive ratio has a significand of 53 bits, or the
least exponent. -/
def exponentFor (numerator denominator : Nat) : Int :=
  let guess : Int := (numerator.log2 : Int) - (denominator.log2 : Int) - 52
  let (n, d) := scaleRatio numerator denominator guess
  max (if n / d < hiddenBit then guess - 1 else guess) leastExponent

def nearest (numerator denominator : Nat) : Binary :=
  if numerator = 0 then ⟨0, leastExponent⟩
  else
    let exponent := exponentFor numerator denominator
    let (n, d) := scaleRatio numerator denominator exponent
    let significand := roundQuotient n d
    if significand = 2 * hiddenBit then ⟨hiddenBit, exponent + 1⟩ else ⟨significand, exponent⟩

end Binary

end PeerNet.Decimal
