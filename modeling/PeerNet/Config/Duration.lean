import PeerNet.Config.Settings
import PeerNet.Decimal.Number
import PeerNet.Text.Blank

/-!
# Written lengths of time

A length of time is written as parts, each a number and a unit, such as
`1h 30m` or `1.5s`; a lone `0` is no time at all. Blanks may stand between and
within parts, but not within a unit. A fraction must come to a whole number of
nanoseconds, or of seconds for the hour and longer units.
-/

set_option autoImplicit false

namespace PeerNet

structure TimeUnit where
  names : List String
  seconds : Nat := 0
  nanoseconds : Nat := 0
  deriving DecidableEq, Repr

namespace TimeUnit

/-- All units. A month has 30.44 days and a year 365.25. -/
def all : List TimeUnit :=
  [{ names := ["nanos", "nsec", "ns"], nanoseconds := 1 },
    { names := ["usec", "us", "µs"], nanoseconds := 1000 },
    { names := ["millis", "msec", "ms"], nanoseconds := 1000000 },
    { names := ["seconds", "second", "secs", "sec", "s"], seconds := 1 },
    { names := ["minutes", "minute", "min", "mins", "m"], seconds := 60 },
    { names := ["hours", "hour", "hr", "hrs", "h"], seconds := 3600 },
    { names := ["days", "day", "d"], seconds := 86400 },
    { names := ["weeks", "week", "wk", "wks", "w"], seconds := 604800 },
    { names := ["months", "month", "M"], seconds := 2630016 },
    { names := ["years", "year", "yr", "yrs", "y"], seconds := 31557600 }]

def ofName? (name : String) : Option TimeUnit :=
  all.find? (name ∈ ·.names)

def isNameChar (c : Char) : Bool :=
  c.isAlpha || c == 'µ'

end TimeUnit

namespace Duration

def fitting? (n : Nat) : Option Nat :=
  if n < UInt64.size then some n else none

def exactly? (n divisor : Nat) : Option Nat :=
  if n % divisor = 0 then some (n / divisor) else none

/-- The sum of a length of time and a further one. The whole seconds of the sum,
and the nanoseconds that are added up, must fit 64 bits. -/
def add? (total : Duration) (seconds nanoseconds : Nat) : Option Duration := do
  let _ ← fitting? (total.nanoseconds % 1000000000 + nanoseconds)
  let sum := total.nanoseconds + seconds * 1000000000 + nanoseconds
  let _ ← fitting? (sum / 1000000000)
  some ⟨sum⟩

def addWhole? (total : Duration) (unit : TimeUnit) (count : Nat) : Option Duration := do
  total.add? (← fitting? (count * unit.seconds)) (← fitting? (count * unit.nanoseconds))

def addFraction? (total : Duration) (unit : TimeUnit) (digits : List Char) : Option Duration := do
  let denominator ← fitting? (Nat.pow 10 digits.length)
  let numerator := Decimal.Written.valueOf digits
  if unit.seconds ≥ 3600 then
    total.add? (← exactly? (← fitting? (numerator * unit.seconds)) denominator) 0
  else if unit.nanoseconds = 1 then none
  else
    let grain := unit.seconds * 1000000000 + unit.nanoseconds
    total.add? 0 (← exactly? (← fitting? (numerator * grain)) denominator)

def digitRun (text : List Char) : List Char × List Char :=
  let inRun (c : Char) : Bool := c.isDigit || Text.isBlank c
  ((text.takeWhile inRun).filter Char.isDigit, text.dropWhile inRun)

def addPart? (total : Duration) (text : List Char) : Option (Duration × List Char) := do
  let (whole, rest) := digitRun text
  guard (!whole.isEmpty)
  let (fraction?, rest) :=
    match rest with
    | '.' :: behind => (some (digitRun behind).1, (digitRun behind).2)
    | behind => (none, behind)
  let unit ← TimeUnit.ofName? (String.ofList (rest.takeWhile TimeUnit.isNameChar))
  let total ← total.addWhole? unit (← fitting? (Decimal.Written.valueOf whole))
  let rest := rest.dropWhile TimeUnit.isNameChar
  match fraction? with
  | none => some (total, rest)
  | some digits =>
    guard (!digits.isEmpty)
    some (← total.addFraction? unit digits, rest)

/-- Adds all parts of a text, of which there are at most a number. -/
def addParts? : Nat → Duration → List Char → Option Duration
  | 0, _, _ => none
  | limit + 1, total, text =>
    match total.addPart? text with
    | none => none
    | some (total, rest) =>
      if rest.all Text.isBlank then some total else addParts? limit total rest

def ofText? (text : String) : Option Duration :=
  if text = "0" then some ⟨0⟩ else addParts? (text.length + 1) ⟨0⟩ text.toList

end Duration

end PeerNet
