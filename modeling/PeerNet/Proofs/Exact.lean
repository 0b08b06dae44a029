import Mathlib.Algebra.Order.Field.Rat
import Mathlib.Algebra.Order.Ring.Rat
import Mathlib.Data.Rat.Cast.Defs
import Mathlib.Data.Rat.Floor
import Mathlib.Tactic.NormNum
import PeerNet.Scalar

/-!
# Exact scalars

Scalars whose arithmetic is that of an ordered field, with no rounding and no
number that is not comparable to itself. Of the functions that no field has
nothing is asked.
-/

set_option autoImplicit false

namespace PeerNet

/-- Scalars that compute as the numbers of an ordered field do. -/
class ExactScalar (R : Type) extends Scalar R, Field R, LinearOrder R, IsStrictOrderedRing R where
  ofScientific_eq (mantissa : Nat) (negative : Bool) (exponent : Nat) :
    toScalar.toOfScientific.ofScientific mantissa negative exponent =
      ((Rat.ofScientific mantissa negative exponent : ℚ) : R)
  ofNat_eq (n : Nat) : Scalar.ofNat n = (n : R)
  beq_iff (a b : R) : (a == b) = true ↔ a = b

/-- The rational numbers. They are exact; the functions that leave them are given by
the first terms of their series and by a root rounded down. -/
instance : ExactScalar ℚ :=
  { (inferInstance : Field ℚ), (inferInstance : LinearOrder ℚ),
    (inferInstance : IsStrictOrderedRing ℚ) with
    ofScientific := Rat.ofScientific
    beq := fun a b => decide (a = b)
    decidableLT := inferInstance
    decidableLE := inferInstance
    ofNat := fun n => n
    whole := fun a => UInt64.ofNat ⌊a⌋.toNat
    pi := 355 / 113
    sqrt := fun a => Nat.sqrt ⌊a⌋.toNat
    cos := fun a => 1 - a * a / 2
    sin := fun a => a - a * a * a / 6
    ofScientific_eq := fun _ _ _ => (Rat.cast_id _).symm
    ofNat_eq := fun _ => rfl
    beq_iff := fun _ _ => decide_eq_true_iff }

namespace ExactScalar

variable {R : Type} [ExactScalar R]

theorem smaller_eq (a b : R) : Scalar.smaller a b = min a b := by
  rw [Scalar.smaller]
  rcases lt_or_ge b a with below | above
  · rw [if_pos below, min_eq_right below.le]
  · rw [if_neg above.not_gt, if_pos ((beq_iff a a).2 rfl), min_eq_left above]

theorem larger_eq (a b : R) : Scalar.larger a b = max a b := by
  rw [Scalar.larger]
  rcases lt_or_ge a b with below | above
  · rw [if_pos below, max_eq_right below.le]
  · rw [if_neg above.not_gt, if_pos ((beq_iff a a).2 rfl), max_eq_left above]

theorem half_eq (a : R) : Scalar.half a = a / 2 := by
  rw [Scalar.half]
  congr 1
  refine (ofScientific_eq 20 true 1).trans ?_
  norm_num [Rat.ofScientific_true_def]

theorem zero_eq : (0.0 : R) = 0 := by
  refine (ofScientific_eq 0 true 1).trans ?_
  norm_num [Rat.ofScientific_true_def]

theorem one_eq : (1.0 : R) = 1 := by
  refine (ofScientific_eq 10 true 1).trans ?_
  norm_num [Rat.ofScientific_true_def]

end ExactScalar

end PeerNet
