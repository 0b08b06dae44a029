import PeerNet.Decimal.Numeral
import PeerNet.Decimal.Shortest

/-!
# The text of numbers

A number is written with the fewest digits that read back, never with an
exponent, without a point when it is whole, and with the sign of zero kept. It
is read from an optional sign and digits with an optional point and exponent,
or from the names of infinity and NaN in any case, and rounded to nearest.
-/

set_option autoImplicit false

namespace PeerNet.Decimal

structure Written where
  whole : List Char
  fraction : List Char
  exponent : Int
  deriving DecidableEq, Repr

namespace Written

def valueOf (digits : List Char) : Nat :=
  digits.foldl (fun value c => value * 10 + (c.toNat - 48)) 0

def exponentOf? : List Char → Option Int
  | [] => some 0
  | mark :: rest =>
    if mark = 'e' ∨ mark = 'E' then
      let (negative, digits) :=
        match rest with
        | '-' :: digits => (true, digits)
        | '+' :: digits => (false, digits)
        | digits => (false, digits)
      if digits.isEmpty ∨ ¬ digits.all Char.isDigit then none
      else some (if negative then -(valueOf digits : Int) else valueOf digits)
    else none

/-- A number without its sign; there is a digit on one side of the point. -/
def ofText? (text : List Char) : Option Written :=
  let whole := text.takeWhile Char.isDigit
  let (fraction, rest) :=
    match text.dropWhile Char.isDigit with
    | '.' :: behind => (behind.takeWhile Char.isDigit, behind.dropWhile Char.isDigit)
    | behind => ([], behind)
  if whole.isEmpty && fraction.isEmpty then none
  else (exponentOf? rest).map (⟨whole, fraction, ·⟩)

def toScientific (number : Written) : Scientific :=
  ⟨valueOf (number.whole ++ number.fraction), number.exponent - number.fraction.length⟩

end Written

/-- The bits of the number nearest to a decimal. Decimals far outside the
format's range are not expanded. -/
def Scientific.toBits (number : Scientific) : UInt64 :=
  let order : Int := (Nat.toDigits 10 number.digits).length + number.exponent
  if number.digits = 0 ∨ order < -330 then 0
  else if order > 310 then UInt64.ofNat (2047 * Binary.hiddenBit)
  else if number.exponent ≥ 0 then
    (Binary.nearest (number.digits * Nat.pow 10 number.exponent.toNat) 1).toBits
  else (Binary.nearest number.digits (Nat.pow 10 (-number.exponent).toNat)).toBits

def Scientific.toFloat (number : Scientific) : Float :=
  Float.ofBits number.toBits

def readMagnitude? (text : List Char) : Option Float :=
  let name := text.map Char.toLower
  if name = "inf".toList ∨ name = "infinity".toList then some (1.0 / 0.0)
  else if name = "nan".toList then some (0.0 / 0.0)
  else (Written.ofText? text).map fun number => number.toScientific.toFloat

def readFloat? (text : String) : Option Float :=
  match text.toList with
  | '-' :: rest => (readMagnitude? rest).map (-·)
  | '+' :: rest => readMagnitude? rest
  | rest => readMagnitude? rest

def writeFloat (x : Float) : String :=
  let negative := x.toBits.toNat ≥ 0x8000000000000000
  match Binary.ofBits? x.toBits with
  | some value => (if negative then "-" else "") ++ (shortest value).positional
  | none => if x.isNaN then "NaN" else if negative then "-inf" else "inf"

end PeerNet.Decimal

namespace PeerNet

class NumberText (R : Type) where
  write : R → String
  read? : String → Option R

instance : NumberText Float where
  write := Decimal.writeFloat
  read? := Decimal.readFloat?

end PeerNet
