import PeerNet.Decimal.Number
import PeerNet.Scalar

/-!
# JSON values

Values as a document holds them: the fields of an object in their order, with
repetitions. Whole numbers that fit 64 bits are kept apart from other numbers.
The fields of a record may be written as an object or, in their order, as an
array. A value may be formed well and still have no meaning; that is no harm
where it is not looked at.
-/

set_option autoImplicit false

namespace PeerNet

inductive Json (R : Type) where
  | null
  | bool (value : Bool)
  | integer (value : Int)
  | number (value : R)
  | string (text : String)
  | array (items : List (Json R))
  | object (fields : List (String × Json R))
  /-- A number beyond the largest, a string with half of a surrogate pair, or an
  object with such a name. -/
  | meaningless

class JsonNumber (R : Type) extends NumberText R where
  isFinite : R → Bool
  ofInt : Int → R

instance : JsonNumber Float where
  isFinite := Float.isFinite
  ofInt := Float.ofInt

namespace Json

variable {R : Type}

/-- A number as a value; one that is not finite has no form but null. -/
def ofNumber [JsonNumber R] (x : R) : Json R :=
  if JsonNumber.isFinite x then .number x else .null

def number? [JsonNumber R] : Json R → Option R
  | .number x => some x
  | .integer n => some (JsonNumber.ofInt n)
  | _ => none

def natural? (bound : Nat) : Json R → Option Nat
  | .integer (.ofNat n) => if n < bound then some n else none
  | _ => none

def string? : Json R → Option String
  | .string text => some text
  | _ => none

def items? : Json R → Option (List (Json R))
  | .array items => some items
  | _ => none

/-- The one value of a field, and nothing where the field is missing; fails
where the field is repeated. -/
def once? (fields : List (String × Json R)) (name : String) : Option (Option (Json R)) :=
  match fields.filter (·.1 = name) with
  | [] => some none
  | [(_, value)] => some (some value)
  | _ => none

/-- The named fields of a record: from an object, where other fields do not
count and none of these may be repeated, or from an array that holds the first
of them in order. -/
def fields? (names : List String) : Json R → Option (List (Option (Json R)))
  | .object fields => names.mapM (once? fields)
  | .array items =>
    if items.length ≤ names.length then
      some (items.map some ++ List.replicate (names.length - items.length) none)
    else none
  | _ => none

mutual

/-- True of a value that has a meaning in all of its parts, and is nested at most
`depth` deep. -/
def isSound (depth : Nat) : Json R → Bool
  | .meaningless => false
  | .array items => depth ≠ 0 && areSound (depth - 1) items
  | .object fields => depth ≠ 0 && fieldsAreSound (depth - 1) fields
  | _ => true

def areSound (depth : Nat) : List (Json R) → Bool
  | [] => true
  | item :: rest => isSound depth item && areSound depth rest

def fieldsAreSound (depth : Nat) : List (String × Json R) → Bool
  | [] => true
  | (_, value) :: rest => isSound depth value && fieldsAreSound depth rest

end

end Json

end PeerNet
