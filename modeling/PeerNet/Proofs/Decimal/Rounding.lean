import Mathlib
import PeerNet.Proofs.Decimal.Comparison
import PeerNet.Scalar

/-!
# Rounding

How floating point numbers keep digits. Zeros behind a mantissa are dropped without a trace, and
other digits change it by at most one, so that a full mantissa stays full. Counts below `2 ^ 53`
are kept exactly. The quotient of a smaller by a larger one is strictly between zero and one.
-/

set_option autoImplicit false

namespace PeerNet.Rounding

open Float.Model UnpackedFloat

/-- A positive mantissa of at most 53 digits is filled up with zeros. -/
theorem exists_full {mantissa : Nat} (positive : 0 < mantissa) (below : mantissa < 2 ^ 53) :
    ∃ filled digits, filled + digits = 52 ∧ 2 ^ 52 ≤ mantissa * 2 ^ filled ∧
      mantissa * 2 ^ filled < 2 ^ 53 := by
  have digits : mantissa.log2 ≤ 52 := Nat.le_of_lt_succ ((Nat.log2_lt positive.ne').2 below)
  have least := Nat.log2_self_le positive.ne'
  have most := Nat.lt_log2_self (n := mantissa)
  refine ⟨52 - mantissa.log2, mantissa.log2, by omega, ?_, ?_⟩
  · calc 2 ^ 52 = 2 ^ mantissa.log2 * 2 ^ (52 - mantissa.log2) := by
          rw [← Nat.pow_add, Nat.add_sub_cancel' digits]
      _ ≤ mantissa * 2 ^ (52 - mantissa.log2) := Nat.mul_le_mul_right _ least
  · calc mantissa * 2 ^ (52 - mantissa.log2)
        < 2 ^ (mantissa.log2 + 1) * 2 ^ (52 - mantissa.log2) :=
          Nat.mul_lt_mul_of_pos_right most (Nat.two_pow_pos _)
      _ = 2 ^ 53 := by
          rw [← Nat.pow_add]
          congr 1
          omega

/-! ## Shifts -/

theorem mantissa_shiftRight (extended : ExtendedMantissa) (places : Nat) :
    (extended >>> places).mantissa = extended.mantissa / 2 ^ places := by
  induction places with
  | zero => exact (Nat.div_one _).symm
  | succ places ih =>
    calc (extended >>> (places + 1)).mantissa
        = (extended >>> places).mantissa / 2 := rfl
      _ = extended.mantissa / 2 ^ (places + 1) := by
        rw [ih, Nat.div_div_eq_div_mul, Nat.pow_succ]

/-- Zeros are shifted out without a trace. -/
theorem shiftRight_of_zeros (mantissa places : Nat) :
    (⟨mantissa * 2 ^ places, false, false⟩ : ExtendedMantissa) >>> places =
      ⟨mantissa, false, false⟩ := by
  induction places generalizing mantissa with
  | zero =>
    rw [Nat.pow_zero, Nat.mul_one]
    rfl
  | succ places ih =>
    have earlier := ih (mantissa * 2)
    rw [Nat.mul_assoc, ← Nat.pow_succ'] at earlier
    calc (⟨mantissa * 2 ^ (places + 1), false, false⟩ : ExtendedMantissa) >>> (places + 1)
        = ((⟨mantissa * 2 ^ (places + 1), false, false⟩ : ExtendedMantissa) >>>
            places).shiftRightOne := rfl
      _ = ⟨mantissa, false, false⟩ := by simp [earlier, ExtendedMantissa.shiftRightOne]

theorem mantissa_ofMantissaAndAccuracy (mantissa : Nat) (accuracy : Accuracy) :
    (ExtendedMantissa.ofMantissaAndAccuracy mantissa accuracy).mantissa = mantissa := by
  cases accuracy with
  | exact => rfl
  | inexact order => cases order <;> rfl

/-- A mantissa with some digits more than 53, or fewer, is to be shifted by as many places. -/
theorem targetExponent_of_log2 {mantissa : Nat} {exponent places : Int}
    (digits : (mantissa.log2 : Int) = 52 + places) (least : -1074 ≤ exponent + places) :
    Format.binary64.targetExponent (totalExponent mantissa exponent) = exponent + places := by
  have bits : (Format.binary64.mantissaBits : Int) = 53 := by decide
  have minimum : Format.binary64.minExponent = -1074 := by decide
  rw [Format.targetExponent, totalExponent, digits, bits, minimum]
  omega

section

variable {mantissa places : Nat} {exponent : Int}

theorem shiftToTargetExponent_eq (full : 2 ^ 52 ≤ mantissa / 2 ^ places)
    (below : mantissa / 2 ^ places < 2 ^ 53) (least : -1074 ≤ exponent + places)
    (accuracy : Accuracy) :
    shiftToTargetExponent .binary64 mantissa exponent accuracy =
      (ExtendedMantissa.ofMantissaAndAccuracy mantissa accuracy >>> places, exponent + places) := by
  have digits : mantissa.log2 = 52 + places := by
    have low := (Nat.le_div_iff_mul_le (Nat.two_pow_pos places)).1 full
    have high := (Nat.div_lt_iff_lt_mul (Nat.two_pow_pos places)).1 below
    have positive : mantissa ≠ 0 := by
      rintro rfl
      simp at full
    rw [Nat.log2_eq_iff positive, Nat.pow_add, Nat.add_right_comm, Nat.pow_add]
    exact ⟨low, high⟩
  have target := targetExponent_of_log2 (by rw [digits]; rfl) least
  have moved : (exponent + places - exponent).toNat = places := by omega
  rw [shiftToTargetExponent, target, shiftToExponent, moved]

/-- A full mantissa with zeros behind it is shifted by its zeros. -/
theorem shiftToTargetExponent_of_zeros (full : 2 ^ 52 ≤ mantissa) (below : mantissa < 2 ^ 53)
    (least : -1074 ≤ exponent + places) :
    shiftToTargetExponent .binary64 (mantissa * 2 ^ places) exponent .exact =
      (⟨mantissa, false, false⟩, exponent + places) := by
  have digits : mantissa * 2 ^ places / 2 ^ places = mantissa :=
    Nat.mul_div_cancel mantissa (Nat.two_pow_pos places)
  rw [shiftToTargetExponent_eq (digits.symm ▸ full) (digits.symm ▸ below) least]
  exact congrArg (·, exponent + (places : Int)) (shiftRight_of_zeros mantissa places)

theorem shiftToTargetExponent_of_fit (full : 2 ^ 52 ≤ mantissa) (below : mantissa < 2 ^ 53)
    (least : -1074 ≤ exponent) :
    shiftToTargetExponent .binary64 mantissa exponent .exact =
      (⟨mantissa, false, false⟩, exponent) := by
  have unmoved : -1074 ≤ exponent + (0 : Nat) := by omega
  simpa using shiftToTargetExponent_of_zeros full below unmoved

/-! ## Rounding -/

theorem roundWithAccuracy_of_zeros (full : 2 ^ 52 ≤ mantissa) (below : mantissa < 2 ^ 53)
    (least : -1074 ≤ exponent + places) (positive : 0 < mantissa) (sign : Sign) :
    roundWithAccuracy .binary64 sign (mantissa * 2 ^ places) exponent .exact =
      .finite sign mantissa (exponent + places) positive := by
  have first := shiftToTargetExponent_of_zeros full below least
  have second := shiftToTargetExponent_of_fit full below least
  have rounded : (⟨mantissa, false, false⟩ : ExtendedMantissa).roundedMantissa = mantissa := rfl
  simp only [roundWithAccuracy, first, rounded, second]
  exact dif_neg positive.ne'

theorem roundWithAccuracy_of_fit (full : 2 ^ 52 ≤ mantissa) (below : mantissa < 2 ^ 53)
    (least : -1074 ≤ exponent) (positive : 0 < mantissa) (sign : Sign) :
    roundWithAccuracy .binary64 sign mantissa exponent .exact =
      .finite sign mantissa exponent positive := by
  have unmoved : -1074 ≤ exponent + (0 : Nat) := by omega
  simpa using roundWithAccuracy_of_zeros full below unmoved positive sign

theorem roundedMantissa_cases (extended : ExtendedMantissa) :
    extended.roundedMantissa = extended.mantissa ∨
      extended.roundedMantissa = extended.mantissa + 1 := by
  obtain ⟨mantissa, roundBit, stickyBit⟩ := extended
  cases roundBit with
  | false => cases stickyBit <;> exact .inl rfl
  | true =>
    cases stickyBit with
    | true => exact .inr rfl
    | false =>
      -- A tie goes to the even mantissa.
      change mantissa + mantissa % 2 = mantissa ∨ mantissa + mantissa % 2 = mantissa + 1
      omega

/-- Rounding to 53 digits leaves a full mantissa. It raises the exponent only where it carries
over digits that are all ones. -/
theorem exists_roundWithAccuracy_eq (full : 2 ^ 52 ≤ mantissa / 2 ^ places)
    (below : mantissa / 2 ^ places < 2 ^ 53) (least : -1074 ≤ exponent + places) (sign : Sign)
    (accuracy : Accuracy) :
    ∃ rounded raised positive,
      roundWithAccuracy .binary64 sign mantissa exponent accuracy =
        .finite sign rounded raised positive ∧
      2 ^ 52 ≤ rounded ∧ rounded < 2 ^ 53 ∧
      (raised = exponent + places ∨
        raised = exponent + places + 1 ∧ mantissa / 2 ^ places + 1 = 2 ^ 53) := by
  have shifted := shiftToTargetExponent_eq full below least accuracy
  generalize kept : ExtendedMantissa.ofMantissaAndAccuracy mantissa accuracy >>> places = extended
    at shifted
  have digits : extended.mantissa = mantissa / 2 ^ places := by
    rw [← kept, mantissa_shiftRight, mantissa_ofMantissaAndAccuracy]
  have nearby := roundedMantissa_cases extended
  rw [digits] at nearby
  by_cases fits : extended.roundedMantissa < 2 ^ 53
  · have all : 2 ^ 52 ≤ extended.roundedMantissa := by omega
    have second := shiftToTargetExponent_of_fit all fits least
    refine ⟨extended.roundedMantissa, exponent + places, by omega, ?_, all, fits, .inl rfl⟩
    simp only [roundWithAccuracy, shifted, second]
    exact dif_neg (by omega)
  · have carried : extended.roundedMantissa = 2 ^ 52 * 2 ^ 1 := by omega
    have second : shiftToTargetExponent .binary64 (2 ^ 52 * 2 ^ 1) (exponent + places) .exact =
        (⟨2 ^ 52, false, false⟩, exponent + places + 1) :=
      shiftToTargetExponent_of_zeros le_rfl (by decide) (by omega)
    refine ⟨2 ^ 52, exponent + places + 1, Nat.two_pow_pos 52, ?_, le_rfl, by decide,
      .inr ⟨rfl, by omega⟩⟩
    simp only [roundWithAccuracy, shifted, carried, second]
    exact dif_neg (Nat.two_pow_pos 52).ne'

end

/-! ## Packing -/

theorem toNat_implicit (mantissa : BitVec 52) :
    (1#1 ++ mantissa).toNat = 2 ^ 52 + mantissa.toNat := by
  rw [BitVec.toNat_append, ← Nat.shiftLeft_add_eq_or_of_lt mantissa.isLt]
  rfl

/-- A full mantissa and an exponent in range are read back from the bits. -/
theorem unpack_pack_of_full {mantissa : Nat} {exponent : Int} (full : 2 ^ 52 ≤ mantissa)
    (below : mantissa < 2 ^ 53) (least : -1074 ≤ exponent) (most : exponent ≤ 971)
    (positive : 0 < mantissa) (sign : Sign) :
    UnpackedFloat.unpack .binary64
        (UnpackedFloat.pack .binary64 (.finite sign mantissa exponent positive)) =
      .finite sign mantissa exponent positive := by
  have bias : Format.binary64.exponentBias = 1023 := by decide
  obtain ⟨biased, moved⟩ : ∃ biased : Nat, exponent + (1023 : Nat) + (52 : Nat) = biased :=
    Int.eq_ofNat_of_zero_le (by omega)
  have digits : mantissa.log2 + 1 = Format.binary64.mantissaBits := by
    rw [(Nat.log2_eq_iff positive.ne').2 ⟨full, below⟩]
    rfl
  have packed : UnpackedFloat.pack .binary64 (.finite sign mantissa exponent positive) =
      packComponents .binary64 sign (BitVec.ofNat 11 biased) (BitVec.ofNat 52 mantissa) := by
    have ranged : ¬2 ^ 11 ≤ biased + 1 := by omega
    simp only [UnpackedFloat.pack, bias, moved, Int.toNat_natCast, if_neg ranged, if_pos digits]
  have readBack : (BitVec.ofNat 11 biased).toNat = biased := by
    rw [BitVec.toNat_ofNat]
    omega
  -- The first and the last exponent are set aside for other numbers.
  have differs (other : BitVec 11) (apart : biased ≠ other.toNat) :
      BitVec.ofNat 11 biased ≠ other :=
    fun same => apart (readBack ▸ congrArg BitVec.toNat same)
  have notLast : BitVec.ofNat 11 biased ≠ -1#11 :=
    differs _ (by have last : (-1#11).toNat = 2047 := rfl; omega)
  have notFirst : BitVec.ofNat 11 biased ≠ 0#11 :=
    differs _ (by have first : (0#11).toNat = 0 := rfl; omega)
  have whole : (1#1 ++ BitVec.ofNat 52 mantissa).toNat = mantissa := by
    rw [toNat_implicit, BitVec.toNat_ofNat]
    omega
  simp only [packed, UnpackedFloat.unpack, unpackMantissa_packComponents,
    unpackExponent_packComponents, unpackSign_packComponents, Sign.ofBitVec_toBitVec, readBack,
    if_neg notLast, if_neg notFirst, whole]
  congr 1
  omega

/-! ## Counts -/

/-- A positive whole number of at most 53 digits is converted exactly. -/
theorem round_of_filled {count places : Nat} (few : places ≤ 52)
    (full : 2 ^ 52 ≤ count * 2 ^ places) (short : count * 2 ^ places < 2 ^ 53)
    (filled : 0 < count * 2 ^ places) :
    UnpackedFloat.round .binary64 .positive count 0 =
      .finite .positive (count * 2 ^ places) (-places) filled := by
  have power : 2 ^ (52 - places) * 2 ^ places = 2 ^ 52 := by
    rw [← Nat.pow_add, Nat.sub_add_cancel few]
  have digits : count.log2 = 52 - places := by
    have positive : count ≠ 0 := (Nat.pos_of_mul_pos_right filled).ne'
    refine (Nat.log2_eq_iff positive).2 ⟨?_, ?_⟩
    · exact Nat.le_of_mul_le_mul_right (power ▸ full) (Nat.two_pow_pos places)
    · refine Nat.lt_of_mul_lt_mul_right (a := 2 ^ places) ?_
      rw [Nat.pow_succ, Nat.mul_right_comm, power]
      exact short
  have missing : (count.log2 : Int) = 52 + -places := by omega
  have target : Format.binary64.targetExponent (totalExponent count 0) = -places := by
    rw [targetExponent_of_log2 missing (by omega), Int.zero_add]
  have moved : (0 - -(places : Int)).toNat = places := by omega
  have least : -1074 ≤ -(places : Int) := by omega
  have unrounded := roundWithAccuracy_of_fit full short least filled .positive
  simp only [UnpackedFloat.round, target, decreaseExponent, moved, Nat.shiftLeft_eq]
  simpa using unrounded

theorem unpack_unit :
    (1.0 : Float).toModel.unpack = .finite .positive (2 ^ 52) (-52) (Nat.two_pow_pos 52) :=
  rfl

theorem unpack_ofNat {count places : Nat} (few : places ≤ 52)
    (full : 2 ^ 52 ≤ count * 2 ^ places) (short : count * 2 ^ places < 2 ^ 53)
    (filled : 0 < count * 2 ^ places) :
    (Scalar.ofNat count : Float).toModel.unpack =
      .finite .positive (count * 2 ^ places) (-places) filled := by
  have below : count < 2 ^ 53 :=
    lt_of_le_of_lt (Nat.le_mul_of_pos_right count (Nat.two_pow_pos places)) short
  have positive : 0 < count := Nat.pos_of_mul_pos_right filled
  have readBack := unpack_pack_of_full full short (show -1074 ≤ -(places : Int) by omega)
    (by omega) filled .positive
  have converted : count.toUInt64.toFloat.toModel.unpack =
      .finite .positive (count * 2 ^ places) (-places) filled := by
    have word : count.toUInt64.toNat = count := by
      rw [Nat.toUInt64, UInt64.toNat_ofNat']
      exact Nat.mod_eq_of_lt (by omega)
    have rounded : UnpackedFloat.ofUInt64 .binary64 count.toUInt64 =
        .finite .positive (count * 2 ^ places) (-places) filled := by
      rw [UnpackedFloat.ofUInt64, word, UnpackedFloat.ofNat, UnpackedFloat.ofInt,
        UnpackedFloat.normalize, Int.compare_eq_gt.2 (by omega)]
      exact round_of_filled few full short filled
    change UnpackedFloat.unpack .binary64 (UnpackedFloat.pack .binary64
      (UnpackedFloat.ofUInt64 .binary64 count.toUInt64)) = _
    rw [rounded, readBack]
  -- The conversion multiplies with a power of ten, here with one.
  have scaled : (Scalar.ofNat count : Float) = count.toUInt64.toFloat * 1.0 :=
    dif_pos ⟨below, Nat.zero_le 22⟩
  have product : UnpackedFloat.mul .binary64
      (.finite .positive (count * 2 ^ places) (-places) filled)
      (.finite .positive (2 ^ 52) (-52) (Nat.two_pow_pos 52)) =
        .finite .positive (count * 2 ^ places) (-places) filled := by
    have least : -1074 ≤ -(places : Int) + -52 + (52 : Nat) := by omega
    have unrounded := roundWithAccuracy_of_zeros full short least filled .positive
    have restored : -(places : Int) + -52 + (52 : Nat) = -places := by omega
    rw [restored] at unrounded
    exact unrounded
  rw [scaled]
  change UnpackedFloat.unpack .binary64 (UnpackedFloat.pack .binary64 (UnpackedFloat.mul .binary64
    count.toUInt64.toFloat.toModel.unpack (1.0 : Float).toModel.unpack)) = _
  rw [converted, unpack_unit, product, readBack]

/-! ## Quotients -/

section

variable {numerator denominator quotient raised lowered places : Nat}

/-- The digits of a quotient below one stand behind the point. -/
theorem places_le (less : numerator < denominator) (full : 2 ^ 52 ≤ quotient)
    (part : quotient * 2 ^ places * (denominator * 2 ^ lowered) ≤
      numerator * 2 ^ raised * 2 ^ 53) : lowered + places ≤ raised := by
  by_contra beyond
  have more : 2 ^ (raised + 1) ≤ 2 ^ (lowered + places) :=
    Nat.pow_le_pow_right (by decide) (by omega)
  have impossible : denominator * 2 ^ (raised + 53) < denominator * 2 ^ (raised + 53) :=
    calc denominator * 2 ^ (raised + 53)
        = 2 ^ 52 * 2 ^ (raised + 1) * denominator := by ring
      _ ≤ quotient * 2 ^ (lowered + places) * denominator := by gcongr
      _ = quotient * 2 ^ places * (denominator * 2 ^ lowered) := by ring
      _ ≤ numerator * 2 ^ raised * 2 ^ 53 := part
      _ = numerator * 2 ^ (raised + 53) := by ring
      _ < denominator * 2 ^ (raised + 53) := by gcongr
  exact lt_irrefl _ impossible

/-- A quotient of counts below `2 ^ 53` is not so near to one that it would be rounded up to it. -/
theorem places_lt (less : numerator < denominator) (below : denominator < 2 ^ 53)
    (ones : quotient + 1 = 2 ^ 53)
    (part : quotient * 2 ^ places * (denominator * 2 ^ lowered) ≤
      numerator * 2 ^ raised * 2 ^ 53) : lowered + places < raised := by
  refine lt_of_le_of_ne (places_le less (by omega) part) fun same => ?_
  have scaled : quotient * denominator * 2 ^ raised ≤ numerator * 2 ^ 53 * 2 ^ raised := by
    calc quotient * denominator * 2 ^ raised
        = quotient * 2 ^ places * (denominator * 2 ^ lowered) := by rw [← same]; ring
      _ ≤ numerator * 2 ^ raised * 2 ^ 53 := part
      _ = numerator * 2 ^ 53 * 2 ^ raised := by ring
  have bound := Nat.le_of_mul_le_mul_right scaled (Nat.two_pow_pos raised)
  obtain rfl : quotient = 2 ^ 53 - 1 := by omega
  omega

end

section

variable {m₁ m₂ a b : Nat}

theorem divCore_of_filled (full₁ : 2 ^ 52 ≤ m₁) (short₁ : m₁ < 2 ^ 53) (full₂ : 2 ^ 52 ≤ m₂)
    (short₂ : m₂ < 2 ^ 53) (few : a ≤ 52) :
    divCore .binary64 m₁ (-a) m₂ (-b) =
      (m₁ * 2 ^ 53 / m₂, (b : Int) - a - 53, accuracyOfFraction (m₁ * 2 ^ 53 % m₂) m₂) := by
  have bits : (Format.binary64.mantissaBits : Int) = 53 := by decide
  have minimum : Format.binary64.minExponent = -1074 := by decide
  have log₁ : m₁.log2 = 52 := (Nat.log2_eq_iff (by omega)).2 ⟨full₁, short₁⟩
  have log₂ : m₂.log2 = 52 := (Nat.log2_eq_iff (by omega)).2 ⟨full₂, short₂⟩
  have target : min (-(a : Int) - -b) (Format.binary64.targetExponent
      (totalExponent m₁ (-a) - totalExponent m₂ (-b))) = (b : Int) - a - 53 := by
    rw [Format.targetExponent, totalExponent, totalExponent, log₁, log₂, bits, minimum]
    omega
  have moved : (-(a : Int) - -b - (b - a - 53)).toNat = 53 := by omega
  simp only [divCore, target, moved, Nat.shiftLeft_eq]

/-- The quotient of two full mantissas has 53 digits, or 54 of which the last is rounded. -/
theorem exists_div_eq (full₁ : 2 ^ 52 ≤ m₁) (short₁ : m₁ < 2 ^ 53) (full₂ : 2 ^ 52 ≤ m₂)
    (short₂ : m₂ < 2 ^ 53) (few : a ≤ 52) (filled₁ : 0 < m₁) (filled₂ : 0 < m₂) :
    ∃ places : Nat, ∃ rounded exponent filled,
      UnpackedFloat.div .binary64 (.finite .positive m₁ (-a) filled₁)
          (.finite .positive m₂ (-b) filled₂) =
        .finite .positive rounded exponent filled ∧
      2 ^ 52 ≤ rounded ∧ rounded < 2 ^ 53 ∧ 2 ^ 52 ≤ m₁ * 2 ^ 53 / m₂ / 2 ^ places ∧
      ((b : Int) - a - 53 + places = exponent ∨
        (b : Int) - a - 52 + places = exponent ∧
          m₁ * 2 ^ 53 / m₂ / 2 ^ places + 1 = 2 ^ 53) := by
  have least : 2 ^ 52 ≤ m₁ * 2 ^ 53 / m₂ := by
    refine (Nat.le_div_iff_mul_le filled₂).2 ?_
    omega
  have most : m₁ * 2 ^ 53 / m₂ < 2 ^ 54 := by
    refine (Nat.div_lt_iff_lt_mul filled₂).2 ?_
    omega
  obtain ⟨places, full, short⟩ : ∃ places : Nat, 2 ^ 52 ≤ m₁ * 2 ^ 53 / m₂ / 2 ^ places ∧
      m₁ * 2 ^ 53 / m₂ / 2 ^ places < 2 ^ 53 := by
    by_cases single : m₁ * 2 ^ 53 / m₂ < 2 ^ 53
    · exact ⟨0, by simpa using least, by simpa using single⟩
    · exact ⟨1, by omega, by omega⟩
  have representable : -1074 ≤ (b : Int) - a - 53 + places := by omega
  obtain ⟨rounded, exponent, filled, result, all, fits, exponents⟩ :=
    exists_roundWithAccuracy_eq full short representable .positive
      (accuracyOfFraction (m₁ * 2 ^ 53 % m₂) m₂)
  refine ⟨places, rounded, exponent, filled, ?_, all, fits, full, ?_⟩
  · simp only [UnpackedFloat.div, divCore_of_filled full₁ short₁ full₂ short₂ few]
    exact result
  · exact exponents.imp (fun same => same.symm) fun ⟨raised, ones⟩ => ⟨by omega, ones⟩

end

/-- A proper quotient of two positive counts below `2 ^ 53` is strictly between zero and one in
floating point too. -/
theorem quotient_between {numerator denominator : Nat} (positive : 0 < numerator)
    (less : numerator < denominator) (below : denominator < 2 ^ 53) :
    0.0 < (Scalar.ofNat numerator / Scalar.ofNat denominator : Float) ∧
      (Scalar.ofNat numerator / Scalar.ofNat denominator : Float) < 1.0 := by
  obtain ⟨a, _, allA, full₁, short₁⟩ := exists_full positive (less.trans below)
  obtain ⟨b, _, allB, full₂, short₂⟩ := exists_full (positive.trans less) below
  have filled₁ : 0 < numerator * 2 ^ a := by omega
  have filled₂ : 0 < denominator * 2 ^ b := by omega
  have fewA : a ≤ 52 := by omega
  have fewB : b ≤ 52 := by omega
  obtain ⟨places, rounded, exponent, filled, divided, all, fits, full, exponents⟩ :=
    exists_div_eq (b := b) full₁ short₁ full₂ short₂ fewA filled₁ filled₂
  have part := (Nat.mul_le_mul_right _ (Nat.div_mul_le_self _ (2 ^ places))).trans
    (Nat.div_mul_le_self (numerator * 2 ^ a * 2 ^ 53) (denominator * 2 ^ b))
  have under : exponent < -52 := by
    rcases exponents with same | ⟨raised, ones⟩
    · have behind := places_le less full part
      omega
    · have behind := places_lt less below ones part
      omega
  have representable : -1074 ≤ exponent := by omega
  have read : (Scalar.ofNat numerator / Scalar.ofNat denominator : Float).toModel.unpack =
      .finite .positive rounded exponent filled := by
    change UnpackedFloat.unpack .binary64 (UnpackedFloat.pack .binary64 (UnpackedFloat.div .binary64
      (Scalar.ofNat numerator : Float).toModel.unpack
      (Scalar.ofNat denominator : Float).toModel.unpack)) = _
    rw [unpack_ofNat fewA full₁ short₁ filled₁, unpack_ofNat fewB full₂ short₂ filled₂, divided]
    exact unpack_pack_of_full all fits representable (by omega) filled .positive
  constructor
  · rw [lt_iff_compare, unpack_zero, read]
    rfl
  · rw [lt_iff_compare, unpack_unit, read]
    simp [UnpackedFloat.compare, Int.compare_eq_lt.2 under]

end PeerNet.Rounding
