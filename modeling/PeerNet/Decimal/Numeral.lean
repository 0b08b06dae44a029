/-!
# Numerals

Unsigned whole numbers written in ASCII digits, read with a bound. Digits are
taken from the left, so the first fault met is the one reported.
-/

set_option autoImplicit false

namespace PeerNet.Decimal

inductive NumeralFault where
  | empty
  | invalidDigit
  | tooLarge
  deriving DecidableEq, Repr

def digitValue? (radix : Nat) (c : Char) : Option Nat :=
  let value? : Option Nat :=
    if '0' ≤ c ∧ c ≤ '9' then some (c.toNat - 48)
    else if 'a' ≤ c ∧ c ≤ 'z' then some (c.toNat - 87)
    else if 'A' ≤ c ∧ c ≤ 'Z' then some (c.toNat - 55)
    else none
  value?.filter (· < radix)

/-- Appends digits to a value that must stay below `bound`. -/
def extendNumeral (radix bound : Nat) : Nat → List Char → Except NumeralFault Nat
  | value, [] => .ok value
  | value, c :: rest =>
    match digitValue? radix c with
    | none => .error .invalidDigit
    | some digit =>
      if value * radix + digit < bound then
        extendNumeral radix bound (value * radix + digit) rest
      else .error .tooLarge

/-- A sign-free numeral of the radix, below `bound`. -/
def readNumeral (radix bound : Nat) (text : List Char) : Except NumeralFault Nat :=
  if text.isEmpty then .error .empty else extendNumeral radix bound 0 text

/-- A decimal numeral below `bound`, with an optional plus sign. -/
def readNatural? (bound : Nat) (text : String) : Option Nat :=
  let digits :=
    match text.toList with
    | '+' :: rest => rest
    | all => all
  (readNumeral 10 bound digits).toOption

def readWord32? (text : String) : Option UInt32 :=
  (readNatural? UInt32.size text).map UInt32.ofNat

def readWord64? (text : String) : Option UInt64 :=
  (readNatural? UInt64.size text).map UInt64.ofNat

/-- Different numbers are written differently. -/
theorem repr_injective {m n : Nat} (same : Nat.repr m = Nat.repr n) : m = n := by
  have digits : Nat.toDigits 10 m = Nat.toDigits 10 n := by
    rw [← Nat.toList_repr, same, Nat.toList_repr]
  calc m = Nat.ofDigitChars 10 (Nat.toDigits 10 m) 0 := Nat.ofDigitChars_ten_toDigits.symm
    _ = Nat.ofDigitChars 10 (Nat.toDigits 10 n) 0 := by rw [digits]
    _ = n := Nat.ofDigitChars_ten_toDigits

end PeerNet.Decimal
