import PeerNet.Decimal.Number
import PeerNet.Yaml.Source

/-!
# Scalars

Scalars hold text, and only where they stand without quotes, or say so by a
tag, does the text also count as a number. Within a scalar that goes over
several lines, line breaks are folded: a single one becomes a space, and of
several the first one goes away.
-/

set_option autoImplicit false

namespace PeerNet.Yaml

inductive ScalarStyle where
  | plain
  | quoted
  | literal
  | folded
  deriving DecidableEq, Repr

/-- Blanks within a scalar, in reverse. -/
inductive Gap where
  | blanks (reversed : List Char)
  /-- Line breaks: the first one unless it was escaped, and the others. -/
  | breaks (first : Option Char) (reversed : List Char)
  deriving DecidableEq, Repr

namespace Gap

def empty : Gap := .blanks []

/-- The gap with one more blank. Spaces and tabs between line breaks do not
count. -/
def add : Gap → Char → Gap
  | .blanks reversed, c => if isBreak c then .breaks (some c) [] else .blanks (c :: reversed)
  | .breaks first reversed, c =>
    if isBreak c then .breaks first (c :: reversed) else .breaks first reversed

/-- What the gap stands for, in reverse. -/
def folded : Gap → List Char
  | .blanks reversed => reversed
  | .breaks (some '\n') [] => [' ']
  | .breaks (some '\n') reversed => reversed
  | .breaks first reversed => reversed ++ first.toList

def hasBreak : Gap → Bool
  | .blanks _ => false
  | .breaks .. => true

def isEmpty : Gap → Bool
  | .blanks reversed => reversed.isEmpty
  | .breaks .. => false

end Gap

/-- A text read so far, in reverse, with the gap that follows it. -/
structure Folding where
  reversed : List Char := []
  gap : Gap := .empty
  deriving DecidableEq, Repr

namespace Folding

def close (folding : Folding) : Folding :=
  ⟨folding.gap.folded ++ folding.reversed, .empty⟩

def push (folding : Folding) (c : Char) : Folding :=
  ⟨c :: folding.close.reversed, .empty⟩

def space (folding : Folding) (c : Char) : Folding :=
  { folding with gap := folding.gap.add c }

def text (folding : Folding) : String :=
  String.ofList folding.reversed.reverse

end Folding

class ScalarNumber (R : Type) where
  infinity : R
  negativeInfinity : R
  notNumber : R
  finite? : String → Option R

instance : ScalarNumber Float where
  infinity := 1.0 / 0.0
  negativeInfinity := -1.0 / 0.0
  notNumber := 0.0 / 0.0
  finite? text := (Decimal.readFloat? text).filter Float.isFinite

def withoutPlus (text : List Char) : List Char :=
  match text with
  | '+' :: rest => rest
  | all => all

def signed (text : List Char) : Bool :=
  text.head?.any fun c => c == '+' || c == '-'

def numberOf? {R : Type} [ScalarNumber R] (text : String) : Option R :=
  let digits := withoutPlus text.toList
  if text.startsWith "+" && signed digits then none
  else if String.ofList digits ∈ [".inf", ".Inf", ".INF"] then some ScalarNumber.infinity
  else if text ∈ ["-.inf", "-.Inf", "-.INF"] then some ScalarNumber.negativeInfinity
  else if text ∈ [".nan", ".NaN", ".NAN"] then some ScalarNumber.notNumber
  else ScalarNumber.finite? (String.ofList digits)

def unsigned? (radix bound : Nat) (digits : List Char) : Option Nat :=
  if signed digits then none else (Decimal.readNumeral radix bound digits).toOption

/-- The whole number below a bound that a scalar's text writes: a decimal
numeral without leading zeros, or one of another radix behind its mark. -/
def naturalOf? (bound : Nat) (text : String) : Option Nat :=
  let digits := withoutPlus text.toList
  match digits with
  | '0' :: 'x' :: rest => unsigned? 16 bound rest
  | '0' :: 'o' :: rest => unsigned? 8 bound rest
  | '0' :: 'b' :: rest => unsigned? 2 bound rest
  | '0' :: _ :: _ => none
  | _ => unsigned? 10 bound digits

end PeerNet.Yaml
