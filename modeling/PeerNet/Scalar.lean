import PeerNet.Decimal.Number

/-!
# Scalars

The arithmetic that layouts, simulations and generators compute with. The
program runs on 64-bit floating point numbers; every definition is stated over
any type with these operations, so that it can also be read over an exact
field. Nothing here assumes a law.
-/

set_option autoImplicit false

namespace PeerNet

/-- Numbers with decimal literals, arithmetic, comparison and the functions
that geometry needs. -/
class Scalar (R : Type) extends
    OfScientific R, Add R, Sub R, Mul R, Div R, BEq R, LT R, LE R where
  decidableLT : DecidableLT R
  decidableLE : DecidableLE R
  ofNat : Nat → R
  /-- The whole part of a number that is not negative, held below `2 ^ 64`. -/
  whole : R → UInt64
  pi : R
  sqrt : R → R
  cos : R → R
  sin : R → R

namespace Scalar

variable {R : Type} [Scalar R]

instance : DecidableLT R := decidableLT

instance : DecidableLE R := decidableLE

/-- The larger of two numbers. The first one when they are equal, and the other
one when one of them is not comparable to itself. -/
@[inline] def larger (a b : R) : R :=
  if a < b then b else if a == a then a else b

@[inline] def smaller (a b : R) : R :=
  if b < a then b else if a == a then a else b

/-- A number held within two bounds; one that is not comparable to the bounds
stays as it is. -/
@[inline] def clamp (low high x : R) : R :=
  let x := if x < low then low else x
  if high < x then high else x

@[inline] def half (x : R) : R :=
  x / 2.0

end Scalar

instance : Scalar Float where
  decidableLT := inferInstance
  decidableLE := inferInstance
  ofNat := Float.ofNat
  whole := Float.toUInt64
  pi := 3.141592653589793
  sqrt := Float.sqrt
  cos := Float.cos
  sin := Float.sin

end PeerNet
