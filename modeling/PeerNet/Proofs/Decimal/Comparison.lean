/-!
# Comparing floating point numbers

Numbers compare as what their bits stand for. All comparisons with what is not a number are
false, so that a comparison is denied in more cases than the opposite one is granted.
-/

set_option autoImplicit false

namespace PeerNet

open Float.Model

theorem le_iff_isLE {a b : Float} :
    a ≤ b ↔ (a.toModel.unpack.compare b.toModel.unpack).any (·.isLE) = true :=
  decide_eq_true_iff

theorem lt_iff_compare {a b : Float} :
    a < b ↔ a.toModel.unpack.compare b.toModel.unpack = some .lt :=
  decide_eq_true_iff.trans beq_iff_eq

theorem le_of_below {a b : Float} (below : a < b) : a ≤ b := by
  rw [le_iff_isLE, lt_iff_compare.1 below]
  rfl

theorem beq_iff_compare {a b : Float} :
    (a == b) = true ↔ a.toModel.unpack.compare b.toModel.unpack = some .eq := by
  change (a.toModel.unpack.compare b.toModel.unpack == some .eq) = true ↔ _
  exact beq_iff_eq

theorem unpack_zero : (0.0 : Float).toModel.unpack = .zero .positive := rfl

/-- Zero compares with a number the other way round than the number with zero. -/
theorem zero_compare (x : UnpackedFloat) :
    (UnpackedFloat.zero .positive).compare x = (x.compare (.zero .positive)).map .swap := by
  cases x with
  | notANumber => rfl
  | infinity sign => cases sign <;> rfl
  | zero sign => rfl
  | finite sign mantissa exponent positive => cases sign <;> rfl

theorem isNone_compare_zero (x : UnpackedFloat) :
    (x.compare (.zero .positive)).isNone = x.isNaN := by
  cases x with
  | notANumber => rfl
  | infinity sign => cases sign <;> rfl
  | zero sign => rfl
  | finite sign mantissa exponent positive => cases sign <;> rfl

/-- What is not below zero is at least zero or not a number. -/
theorem not_lt_zero_iff {x : Float} : ¬x < 0.0 ↔ 0.0 ≤ x ∨ x.isNaN = true := by
  have undefined : x.isNaN = (x.toModel.unpack.compare (.zero .positive)).isNone :=
    (isNone_compare_zero x.toModel.unpack).symm
  rw [lt_iff_compare, le_iff_isLE, unpack_zero, zero_compare, undefined]
  cases x.toModel.unpack.compare (.zero .positive) with
  | none => simp
  | some order => cases order <;> simp

theorem not_zero_le_of_isNaN {x : Float} (undefined : x.isNaN = true) : ¬0.0 ≤ x := by
  have incomparable : x.toModel.unpack.compare (.zero .positive) = none :=
    Option.isNone_iff_eq_none.1 ((isNone_compare_zero x.toModel.unpack).trans undefined)
  rw [le_iff_isLE, unpack_zero, zero_compare, incomparable]
  exact Bool.false_ne_true

end PeerNet
