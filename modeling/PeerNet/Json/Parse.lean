import PeerNet.Json.Basic

/-!
# Read JSON

A value from the whole of a text. A number without fraction and exponent that
fits 64 bits is an integer; any other number is its first digits, as many as
fit 64 bits, as a number, times or divided by a power of ten, each step rounded.
A number beyond the largest has no meaning, and neither has a string in which
an escaped surrogate lacks the other half of its pair.
-/

set_option autoImplicit false

namespace PeerNet.Json

def isSpace (c : Char) : Bool :=
  c == ' ' || c == '\t' || c == '\n' || c == '\r'

def skipSpaces (text : List Char) : List Char :=
  text.dropWhile isSpace

abbrev Parsed (α : Type) := Option (α × List Char)

namespace Number

def power (exponent : Nat) : Float :=
  Decimal.Scientific.toFloat ⟨1, exponent⟩

/-- A number times a power of ten, divided in steps where the power is too
small to be a number itself. -/
def scaled : Nat → Float → Int → Option Float
  | 0, x, _ => some x
  | steps + 1, x, exponent =>
    if exponent.natAbs ≤ 308 then
      if exponent ≥ 0 then
        let x := x * power exponent.natAbs
        if x.isInf then none else some x
      else some (x / power exponent.natAbs)
    else if x == 0.0 then some x
    else if exponent ≥ 0 then none
    else scaled steps (x / power 308) (exponent + 308)

def extend (value : Nat) : List Char → Nat × Nat
  | [] => (value, 0)
  | c :: rest =>
    let next := value * 10 + (c.toNat - 48)
    if next < UInt64.size then extend next rest else (value, rest.length + 1)

/-- The exponent behind its mark. One that does not fit 32 bits is given by its
sign alone. -/
def exponent? (text : List Char) : Parsed (Except Bool Int) :=
  let (negative, digits) :=
    match text with
    | '-' :: rest => (true, rest)
    | '+' :: rest => (false, rest)
    | rest => (false, rest)
  let run := digits.takeWhile Char.isDigit
  let rest := digits.dropWhile Char.isDigit
  if run.isEmpty then none
  else
    let value := Decimal.Written.valueOf run
    if value < 0x80000000 then some (.ok (if negative then -(value : Int) else value), rest)
    else some (.error negative, rest)

def ofParts? (negative : Bool) (whole fraction : List Char) (exponent : Except Bool Int) :
    Option Float :=
  let (value, above) := extend 0 whole
  let (value, below) := extend value fraction
  let point : Int := (above + below : Nat) - (fraction.length : Int)
  let magnitude? : Option Float :=
    match exponent with
    | .error true => some 0.0
    | .error false => if value = 0 then some 0.0 else none
    | .ok exponent => scaled 1100 (Float.ofNat value) (point + exponent)
  magnitude?.map fun x => if negative then -x else x

/-- The integer of given digits, if it fits 64 bits; negative zero does not. -/
def integer? (negative : Bool) (digits : List Char) : Option Int :=
  let value := Decimal.Written.valueOf digits
  if negative then
    if 0 < value ∧ value ≤ 0x8000000000000000 then some (-(value : Int)) else none
  else if value < UInt64.size then some value else none

end Number

/-- A number. There is no digit behind a leading zero. -/
def readNumber? (text : List Char) : Parsed (Json Float) :=
  let (negative, text) :=
    match text with
    | '-' :: rest => (true, rest)
    | rest => (false, rest)
  let whole := text.takeWhile Char.isDigit
  let rest := text.dropWhile Char.isDigit
  if whole.isEmpty || (whole.head? == some '0' && whole.length > 1) then none
  else
    let (pointed, fraction, rest) :=
      match rest with
      | '.' :: behind => (true, behind.takeWhile Char.isDigit, behind.dropWhile Char.isDigit)
      | rest => (false, [], rest)
    if pointed && fraction.isEmpty then none
    else
      match rest with
      | c :: behind =>
        if c = 'e' ∨ c = 'E' then
          match Number.exponent? behind with
          | none => none
          | some (exponent, rest) =>
            some (numberOf (Number.ofParts? negative whole fraction exponent), rest)
        else plain negative pointed whole fraction (c :: behind)
      | [] => plain negative pointed whole fraction []
where
  numberOf (number? : Option Float) : Json Float :=
    match number? with
    | some x => .number x
    | none => .meaningless
  plain (negative pointed : Bool) (whole fraction rest : List Char) : Parsed (Json Float) :=
    match pointed, Number.integer? negative whole with
    | false, some value => some (.integer value, rest)
    | _, _ => some (numberOf (Number.ofParts? negative whole fraction (.ok 0)), rest)

def readCode? (text : List Char) : Parsed Nat :=
  match text with
  | a :: b :: c :: d :: rest =>
    match Decimal.readNumeral 16 UInt16.size [a, b, c, d] with
    | .ok value => some (value, rest)
    | .error _ => none
  | _ => none

def lowSurrogate? (text : List Char) : Parsed Nat :=
  match text with
  | '\\' :: 'u' :: text => (readCode? text).filter fun (low, _) => 0xdc00 ≤ low ∧ low < 0xe000
  | _ => none

/-- The character of an escaped code behind its mark. A high surrogate and an
escaped low one behind it are one character, and half of a pair is none. -/
def escapedCode? (text : List Char) : Parsed (Option Char) :=
  match readCode? text with
  | none => none
  | some (high, rest) =>
    if 0xd800 ≤ high ∧ high < 0xdc00 then
      match lowSurrogate? rest with
      | some (low, rest) =>
        some (some (Char.ofNat (0x10000 + (high - 0xd800) * 0x400 + (low - 0xdc00))), rest)
      | none => some (none, rest)
    else if 0xdc00 ≤ high ∧ high < 0xe000 then some (none, rest)
    else some (some (Char.ofNat high), rest)

/-- The character that stands for itself, or for a control character, behind a
backslash. -/
def escaped? (c : Char) : Option Char :=
  match c with
  | '"' => some '"'
  | '\\' => some '\\'
  | '/' => some '/'
  | 'b' => some '\x08'
  | 'f' => some '\x0c'
  | 'n' => some '\n'
  | 'r' => some '\r'
  | 't' => some '\t'
  | _ => none

/-- The rest of a string behind its opening quote, given the characters read so
far in reverse, as long as all of them have a meaning. -/
def readStringRest? : Nat → Option (List Char) → List Char → Parsed (Option String)
  | 0, _, _ => none
  | _, _, [] => none
  | steps + 1, reversed?, c :: rest =>
    if c = '"' then some (reversed?.map fun reversed => String.ofList reversed.reverse, rest)
    else if c = '\\' then
      match rest with
      | 'u' :: rest =>
        match escapedCode? rest with
        | some (character?, rest) =>
          readStringRest? steps
            (reversed?.bind fun reversed => character?.map (· :: reversed)) rest
        | none => none
      | mark :: rest =>
        match escaped? mark with
        | some character => readStringRest? steps (reversed?.map (character :: ·)) rest
        | none => none
      | [] => none
    else if c < ' ' then none
    else readStringRest? steps (reversed?.map (c :: ·)) rest

def readString? (text : List Char) : Parsed (Option String) :=
  readStringRest? (text.length + 1) (some []) text

def ofString? (text? : Option String) : Json Float :=
  match text? with
  | some text => .string text
  | none => .meaningless

def ofFields? (fields : List (Option String × Json Float)) : Json Float :=
  match fields.mapM fun (name?, value) => name?.map (·, value) with
  | some fields => .object fields
  | none => .meaningless

mutual

def readValue? (steps : Nat) (text : List Char) : Parsed (Json Float) :=
  match steps with
  | 0 => none
  | steps + 1 =>
    match skipSpaces text with
    | '"' :: rest => (readString? rest).map fun (text?, rest) => (ofString? text?, rest)
    | '[' :: rest =>
      match skipSpaces rest with
      | ']' :: rest => some (.array [], rest)
      | rest => (readItems? steps rest).map fun (items, rest) => (.array items, rest)
    | '\x7b' :: rest =>
      match skipSpaces rest with
      | '\x7d' :: rest => some (.object [], rest)
      | rest => (readFields? steps rest).map fun (fields, rest) => (ofFields? fields, rest)
    | 'n' :: 'u' :: 'l' :: 'l' :: rest => some (.null, rest)
    | 't' :: 'r' :: 'u' :: 'e' :: rest => some (.bool true, rest)
    | 'f' :: 'a' :: 'l' :: 's' :: 'e' :: rest => some (.bool false, rest)
    | rest => readNumber? rest

def readItems? (steps : Nat) (text : List Char) : Parsed (List (Json Float)) :=
  match steps with
  | 0 => none
  | steps + 1 =>
    match readValue? steps text with
    | none => none
    | some (item, rest) =>
      match skipSpaces rest with
      | ']' :: rest => some ([item], rest)
      | ',' :: rest => (readItems? steps rest).map fun (others, rest) => (item :: others, rest)
      | _ => none

def readFields? (steps : Nat) (text : List Char) : Parsed (List (Option String × Json Float)) :=
  match steps with
  | 0 => none
  | steps + 1 =>
    match skipSpaces text with
    | '"' :: rest =>
      match readString? rest with
      | none => none
      | some (name?, rest) =>
        match skipSpaces rest with
        | ':' :: rest =>
          match readValue? steps rest with
          | none => none
          | some (item, rest) =>
            match skipSpaces rest with
            | '\x7d' :: rest => some ([(name?, item)], rest)
            | ',' :: rest =>
              (readFields? steps rest).map fun (others, rest) => ((name?, item) :: others, rest)
            | _ => none
        | _ => none
    | _ => none

end

def parse? (text : String) : Option (Json Float) :=
  match readValue? (2 * text.length + 2) text.toList with
  | some (value, rest) => if (skipSpaces rest).isEmpty then some value else none
  | none => none

end PeerNet.Json
