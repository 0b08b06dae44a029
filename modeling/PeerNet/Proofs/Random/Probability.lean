import Mathlib
import PeerNet.Random.Source
import PeerNet.Proofs.Decimal.Comparison
import PeerNet.Proofs.Decimal.Rounding

/-!
# Shares of the 64-bit words

A chance is decided by comparing a word with the probability's share of all 64-bit words. For
floating point probabilities the share is the whole part of the exact product: multiplying by a
power of two only moves the exponent, and the mantissa is kept digit by digit. So a larger
probability has no smaller share.
-/

set_option autoImplicit false

namespace PeerNet.Probability

section

variable {R : Type} [Scalar R]

/-- A probability as it is used: between zero and one, and zero when it is not comparable to
itself. -/
def held (probability : R) : R :=
  if probability == probability then Scalar.clamp 0.0 1.0 probability else 0.0

/-- The share of all 64-bit words that a probability has. -/
def share (probability : R) : UInt64 :=
  Scalar.whole (probability * Scalar.ofNat UInt64.size)

end

open Float.Model UnpackedFloat Rounding

/-- The mantissas and exponents of positive 64-bit floating point numbers. -/
structure Canonical (mantissa : Nat) (exponent : Int) : Prop where
  positive : 0 < mantissa
  below : mantissa < 2 ^ 53
  least : -1074 ≤ exponent
  full : 2 ^ 52 ≤ mantissa ∨ exponent = -1074

theorem canonical_of_unpack {bits : BitVec Format.binary64.numBits} {sign : Sign} {mantissa : Nat}
    {exponent : Int} {positive : 0 < mantissa}
    (read : UnpackedFloat.unpack .binary64 bits = .finite sign mantissa exponent positive) :
    Canonical mantissa exponent := by
  have small : (unpackMantissa bits).toNat < 2 ^ 52 := (unpackMantissa bits).isLt
  unfold UnpackedFloat.unpack at read
  dsimp only at read
  split at read
  · split at read <;> cases read
  · split at read
    · split at read
      · cases read
      · next zero filled =>
        cases read
        refine ⟨positive, ?_, ?_, ?_⟩
        · omega
        · rw [zero]
          decide
        · rw [zero]
          exact .inr (by decide)
    · next unfilled =>
      cases read
      have filled : 0 < (unpackExponent bits).toNat :=
        Nat.pos_of_ne_zero fun zero => unfilled (BitVec.eq_of_toNat_eq zero)
      have mantissa := toNat_implicit (unpackMantissa bits)
      have bias : (Format.binary64.exponentBias : Int) + 52 = 1075 := by decide
      refine ⟨positive, ?_, ?_, .inl ?_⟩
      · omega
      · omega
      · omega

/-! ## Whole parts -/

theorem roundToInt_eq_floor (mantissa : Nat) (exponent : Int) :
    (roundToInt .positive mantissa exponent).toNat = ⌊(mantissa : ℚ) * 2 ^ exponent⌋₊ := by
  have shifted : (roundToInt .positive mantissa exponent).toNat =
      mantissa * 2 ^ exponent.toNat / 2 ^ (-exponent).toNat := by
    simp only [roundToInt, decreaseExponent, shiftToExponent, Sign.apply, mantissa_shiftRight,
      ExtendedMantissa.ofMantissaAndAccuracy, Nat.shiftLeft_eq, Int.sub_zero, Int.toNat_natCast]
    congr 2
    omega
  rw [shifted]
  obtain ⟨places, rfl | rfl⟩ := exponent.eq_nat_or_neg
  · have raised : (mantissa : ℚ) * 2 ^ (places : ℤ) = (mantissa * 2 ^ places : ℕ) := by
      push_cast
      rw [zpow_natCast]
    rw [raised, Nat.floor_natCast]
    simp
  · have lowered : (mantissa : ℚ) * 2 ^ (-(places : ℤ)) = mantissa / (2 ^ places : ℕ) := by
      push_cast
      rw [zpow_neg, zpow_natCast, div_eq_mul_inv]
    rw [lowered, Nat.floor_div_eq_div]
    simp

/-! ## Numbers between zero and one -/

def one : UnpackedFloat :=
  .finite .positive (2 ^ 52) (-52) (Nat.two_pow_pos 52)

theorem unpack_one : (1.0 : Float).toModel.unpack = one :=
  unpack_unit

/-- The numbers from zero up to one: both zeros, and the positive numbers up to one. -/
inductive Proportion : UnpackedFloat → Prop
  | zero (sign : Sign) : Proportion (.zero sign)
  | part {mantissa : Nat} {exponent : Int} (canonical : Canonical mantissa exponent)
      (small : exponent < -52 ∨ exponent = -52 ∧ mantissa ≤ 2 ^ 52) :
      Proportion (.finite .positive mantissa exponent canonical.positive)

theorem isLE_then_iff {e₁ e₂ : Int} {m₁ m₂ : Nat} :
    ((compare e₁ e₂).then (compare m₁ m₂)).isLE = true ↔ e₁ < e₂ ∨ e₁ = e₂ ∧ m₁ ≤ m₂ := by
  rcases Int.lt_trichotomy e₁ e₂ with less | rfl | more
  · simp [Int.compare_eq_lt.2 less, less]
  · simp [Nat.isLE_compare]
  · simp [Int.compare_eq_gt.2 more]
    omega

theorem proportion_of_between {p : Float} (low : 0.0 ≤ p) (high : p ≤ 1.0) :
    Proportion p.toModel.unpack := by
  rw [le_iff_isLE, unpack_zero] at low
  rw [le_iff_isLE, unpack_one] at high
  cases read : p.toModel.unpack with
  | notANumber => simp [read, UnpackedFloat.compare] at low
  | infinity sign => cases sign <;> simp [read, UnpackedFloat.compare, one] at low high
  | zero sign => exact .zero sign
  | finite sign mantissa exponent positive =>
    cases sign with
    | negative => simp [read, UnpackedFloat.compare] at low
    | positive =>
      simp only [read, one, UnpackedFloat.compare, Option.any_some, isLE_then_iff] at high
      exact .part (canonical_of_unpack read) high

section

variable {a : UnpackedFloat}

theorem Proportion.compare_self (proportion : Proportion a) : a.compare a = some .eq := by
  cases proportion with
  | zero sign => rfl
  | part canonical small => simp [UnpackedFloat.compare]

theorem Proportion.not_below_zero (proportion : Proportion a) :
    a.compare (.zero .positive) ≠ some .lt := by
  cases proportion <;> simp [UnpackedFloat.compare]

/-- No proportion other than one is at least one. -/
theorem Proportion.eq_one_of_le (proportion : Proportion a)
    (least : (one.compare a).any (·.isLE) = true) : a = one := by
  cases proportion with
  | zero sign => simp [UnpackedFloat.compare, one] at least
  | @part mantissa exponent canonical small =>
    simp only [UnpackedFloat.compare, one, Option.any_some, isLE_then_iff] at least
    obtain rfl : exponent = -52 := by omega
    obtain rfl : mantissa = 2 ^ 52 := by omega
    rfl

theorem proportion_one : Proportion one :=
  .part ⟨Nat.two_pow_pos 52, by decide, by decide, .inl le_rfl⟩ (.inr ⟨rfl, le_rfl⟩)

theorem Proportion.not_above_one (proportion : Proportion a) : one.compare a ≠ some .lt := by
  intro above
  obtain rfl : a = one := proportion.eq_one_of_le (by rw [above]; rfl)
  rw [proportion_one.compare_self] at above
  cases above

end

/-- A number between zero and one is left as it is when it is held between them. -/
theorem held_eq_self {p : Float} (proportion : Proportion p.toModel.unpack) : held p = p := by
  have itself : (p == p) = true := beq_iff_compare.2 proportion.compare_self
  have notBelow : ¬p < 0.0 := fun below => proportion.not_below_zero (lt_iff_compare.1 below)
  have notAbove : ¬1.0 < p := fun above => proportion.not_above_one (lt_iff_compare.1 above)
  simp only [held, if_pos itself, Scalar.clamp, if_neg notBelow, if_neg notAbove]

/-! ## Values -/

def value : UnpackedFloat → ℚ
  | .finite .positive mantissa exponent _ => mantissa * 2 ^ exponent
  | _ => 0

theorem value_le_value {a b : UnpackedFloat} (first : Proportion a) (second : Proportion b)
    (ordered : (a.compare b).any (·.isLE) = true) : value a ≤ value b := by
  cases first with
  | zero sign =>
    cases second with
    | zero => exact le_rfl
    | part => exact mul_nonneg (Nat.cast_nonneg _) (zpow_nonneg (by norm_num) _)
  | @part m₁ e₁ canonical =>
    cases second with
    | zero sign => simp [UnpackedFloat.compare] at ordered
    | @part m₂ e₂ other =>
      simp only [UnpackedFloat.compare, Option.any_some, isLE_then_iff] at ordered
      rcases ordered with less | ⟨rfl, mantissas⟩
      · -- An exponent above another one is not the least, so its mantissa is full.
        have notLeast : e₂ ≠ -1074 := by
          have := canonical.least
          omega
        have full : 2 ^ 52 ≤ m₂ := other.full.resolve_right notLeast
        calc (m₁ : ℚ) * 2 ^ e₁
            ≤ 2 ^ 53 * 2 ^ e₁ := by
              gcongr
              exact_mod_cast canonical.below.le
          _ = 2 ^ 52 * 2 ^ (e₁ + 1) := by
              rw [zpow_add_one₀ (by norm_num)]
              ring
          _ ≤ m₂ * 2 ^ e₂ := by
              gcongr
              · exact_mod_cast full
              · norm_num
              · omega
      · simp only [value]
        gcongr

theorem ofNatClamp_le_ofNatClamp {first second : Nat} (ordered : first ≤ second) :
    UInt64.ofNatClamp first ≤ UInt64.ofNatClamp second := by
  have toNat_eq (number : Nat) :
      (UInt64.ofNatClamp number).toNat = min number (UInt64.size - 1) := by
    unfold UInt64.ofNatClamp
    split
    · next below => exact (Nat.min_eq_left (Nat.le_sub_one_of_lt below)).symm
    · next above =>
      exact (Nat.min_eq_right (Nat.sub_le_of_le_add (Nat.le_succ_of_le (not_lt.1 above)))).symm
  rw [UInt64.le_iff_toNat_le, toNat_eq, toNat_eq]
  exact min_le_min_right _ ordered

def size : UnpackedFloat :=
  .finite .positive (2 ^ 52) 12 (Nat.two_pow_pos 52)

/-- The exact product with the number of words is not rounded. -/
theorem toInt_mul_size {a : UnpackedFloat} (proportion : Proportion a) :
    (toInt 0 (UInt64.size - 1) (UnpackedFloat.unpack .binary64
      (UnpackedFloat.pack .binary64 (UnpackedFloat.mul .binary64 a size)))).toNat =
      ⌊value a * 2 ^ 64⌋₊ := by
  cases proportion with
  | zero sign =>
    simp only [value, zero_mul, Nat.floor_zero]
    cases sign <;> rfl
  | @part mantissa exponent canonical small =>
    obtain ⟨positive, below, least, -⟩ := canonical
    obtain ⟨filled, digits, all, full, short⟩ := exists_full positive below
    have positiveFull : 0 < mantissa * 2 ^ filled := by omega
    -- Filling the mantissa up first shows that rounding only drops zeros.
    have product : UnpackedFloat.mul .binary64 (.finite .positive mantissa exponent positive) size =
        .finite .positive (mantissa * 2 ^ filled) (exponent + 12 + digits) positiveFull := by
      have regrouped : mantissa * 2 ^ 52 = mantissa * 2 ^ filled * 2 ^ digits := by
        rw [Nat.mul_assoc, ← Nat.pow_add, all]
      change roundWithAccuracy .binary64 .positive (mantissa * 2 ^ 52) (exponent + 12) .exact = _
      rw [regrouped]
      exact roundWithAccuracy_of_zeros full short (by omega) positiveFull .positive
    rw [product, unpack_pack_of_full full short (by omega) (by omega) positiveFull .positive,
      toInt, roundToInt_eq_floor]
    have exact : ((mantissa * 2 ^ filled : ℕ) : ℚ) * 2 ^ (exponent + 12 + digits) =
        value (.finite .positive mantissa exponent positive) * 2 ^ 64 := by
      have places : (2 : ℚ) ^ filled * 2 ^ digits = 2 ^ 52 := by rw [← pow_add, all]
      rw [value, zpow_add₀ two_ne_zero, zpow_add₀ two_ne_zero, zpow_natCast]
      push_cast
      linear_combination (mantissa : ℚ) * 2 ^ exponent * 2 ^ 12 * places
    rw [exact]

/-- The share of a number between zero and one is the whole part of the exact product. -/
theorem share_eq_floor {p : Float} (proportion : Proportion p.toModel.unpack) :
    share p = UInt64.ofNatClamp ⌊value p.toModel.unpack * 2 ^ 64⌋₊ := by
  have unpack_size : (Scalar.ofNat UInt64.size : Float).toModel.unpack = size := rfl
  have product : (p * Scalar.ofNat UInt64.size).toModel.unpack =
      UnpackedFloat.unpack .binary64 (UnpackedFloat.pack .binary64
        (UnpackedFloat.mul .binary64 p.toModel.unpack
          (Scalar.ofNat UInt64.size : Float).toModel.unpack)) := rfl
  have whole : share p = UInt64.ofNatClamp
      ((p * Scalar.ofNat UInt64.size).toModel.unpack.toInt 0 (UInt64.size - 1)).toNat := rfl
  rw [whole, product, unpack_size, toInt_mul_size proportion]

theorem share_le_share {p q : Float} (first : Proportion p.toModel.unpack)
    (second : Proportion q.toModel.unpack) (ordered : p ≤ q) : share p ≤ share q := by
  rw [share_eq_floor first, share_eq_floor second]
  refine ofNatClamp_le_ofNatClamp (Nat.floor_mono ?_)
  gcongr
  exact value_le_value first second (le_iff_isLE.1 ordered)

/-! ## Zero and one -/

theorem unpack_of_eq_zero {p : Float} (equal : (p == 0.0) = true) :
    ∃ sign, p.toModel.unpack = .zero sign := by
  obtain ⟨-, -, same | ⟨positive, -⟩ | ⟨negative, -⟩⟩ :=
    (beq_iff_ne_notANumber_and_eq _ _).1 equal
  · exact ⟨.positive, same⟩
  · exact ⟨.positive, positive⟩
  · exact ⟨.negative, negative⟩

theorem unpack_of_eq_one {p : Float} (equal : (p == 1.0) = true) : p.toModel.unpack = one := by
  obtain ⟨-, -, same | ⟨-, other⟩ | ⟨-, other⟩⟩ := (beq_iff_ne_notANumber_and_eq _ _).1 equal
  · exact same
  · cases unpack_one.symm.trans other
  · cases unpack_one.symm.trans other

theorem share_of_eq_zero {p : Float} (equal : (p == 0.0) = true) :
    held p = p ∧ (p == 1.0) = false ∧ share p = 0 := by
  obtain ⟨sign, read⟩ := unpack_of_eq_zero equal
  have proportion : Proportion p.toModel.unpack := read ▸ .zero sign
  refine ⟨held_eq_self proportion, ?_, ?_⟩
  · refine Bool.eq_false_iff.2 fun certain => ?_
    cases read.symm.trans (unpack_of_eq_one certain)
  · have nothing : value (.zero sign) = 0 := rfl
    rw [share_eq_floor proportion, read, nothing, zero_mul, Nat.floor_zero]
    rfl

theorem held_of_eq_one {p : Float} (equal : (p == 1.0) = true) : held p = p :=
  held_eq_self (unpack_of_eq_one equal ▸ proportion_one)

theorem eq_one_of_le {p q : Float} (proportion : Proportion q.toModel.unpack)
    (equal : (p == 1.0) = true) (ordered : p ≤ q) : (q == 1.0) = true := by
  rw [le_iff_isLE, unpack_of_eq_one equal] at ordered
  rw [beq_iff_compare, unpack_one, proportion.eq_one_of_le ordered]
  exact proportion_one.compare_self

end PeerNet.Probability
