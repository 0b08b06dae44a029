import PeerNet.Yaml.Scalar

/-!
# Block scalars

Scalars over indented lines behind a mark. The lines of a literal scalar stay
as they are; those of a folded one are joined, except around lines that start
with a blank. The header may give the indentation and say what becomes of the
line breaks at the end.
-/

set_option autoImplicit false

namespace PeerNet.Yaml

inductive Chomping where
  | strip
  | clip
  | keep
  deriving DecidableEq, Repr

structure BlockHeader where
  chomping : Chomping := .clip
  /-- The indentation of the lines, relative to what is around them. -/
  indent? : Option Nat := none
  deriving DecidableEq, Repr

namespace BlockHeader

def chomping? (c : Char) : Option Chomping :=
  if c = '+' then some .keep else if c = '-' then some .strip else none

def digit? (c : Char) : Option Nat :=
  if c.isDigit && c ≠ '0' then some (c.toNat - 48) else none

def add? (header : BlockHeader) (marked : Bool) (c : Char) : Option (BlockHeader × Bool) :=
  match chomping? c, digit? c with
  | some chomping, _ => if marked then none else some ({ header with chomping }, true)
  | none, some digit =>
    if header.indent?.isSome then none else some ({ header with indent? := some digit }, marked)
  | none, none => none

def ofChars? (header : BlockHeader) (marked : Bool) : List Char → Option BlockHeader
  | [] => some header
  | c :: rest =>
    match header.add? marked c with
    | none => none
    | some (header, marked) => header.ofChars? marked rest

def ofSource? (source : Source) : Option (BlockHeader × Source) := do
  let isMark (c : Char) : Bool := c == '+' || c == '-' || c.isDigit
  let (marks, rest) := source.run isMark
  let header ← ({} : BlockHeader).ofChars? false marks.toList
  let rest := rest.skipBlanks
  let rest := if rest.startsWith (· == '#') then rest.skipLine else rest
  if rest.atLineEnd then some (header, rest.behind) else none

end BlockHeader

structure BlockReading where
  /-- The text, in reverse. -/
  reversed : List Char := []
  lineBreak : List Char := []
  /-- The line breaks of the empty lines behind that, in reverse. -/
  emptyLines : List Char := []
  afterBlank : Bool := false
  inLine : Bool := false
  /-- The column of the lines, once it is known. -/
  indent? : Option Nat
  widest : Nat := 0
  deriving DecidableEq, Repr

namespace BlockReading

def startLine (reading : BlockReading) (isFolded : Bool) (c : Char) : BlockReading :=
  let blank := isSpaceOrTab c
  let joined :=
    if isFolded && reading.lineBreak == ['\n'] && !reading.afterBlank && !blank then
      if reading.emptyLines.isEmpty then [' '] else reading.emptyLines
    else reading.emptyLines ++ reading.lineBreak
  { reading with
    reversed := c :: (joined ++ reading.reversed)
    lineBreak := []
    emptyLines := []
    afterBlank := blank
    inLine := true }

def finish (reading : BlockReading) (chomping : Chomping) : String :=
  let reversed :=
    match chomping with
    | .strip => reading.reversed
    | .clip => reading.lineBreak ++ reading.reversed
    | .keep => reading.emptyLines ++ reading.lineBreak ++ reading.reversed
  String.ofList reversed.reverse

/-- True of a column that is not known to be that of the lines. -/
def isBefore (reading : BlockReading) (column : Nat) : Bool :=
  reading.indent?.all (column < ·)

end BlockReading

/-- Reads the lines of a block scalar whose lines have to stand at least at a
column, and gives what follows them. -/
def blockLines (isFolded : Bool) (least : Nat) (reading : BlockReading) :
    Source → Option (BlockReading × Source)
  | [] => some (reading, [])
  | placed :: rest =>
    let c := placed.char
    if reading.inLine then
      if isBreak c then
        blockLines isFolded least { reading with inLine := false, lineBreak := [c] } rest
      else blockLines isFolded least { reading with reversed := c :: reading.reversed } rest
    else if reading.isBefore placed.column && c == ' ' then
      blockLines isFolded least reading rest
    else if reading.isBefore placed.column && c == '\t' then none
    else
      let widest := max reading.widest placed.column
      if isBreak c then
        blockLines isFolded least
          { reading with widest, emptyLines := c :: reading.emptyLines } rest
      else
        let indent := reading.indent?.getD (max widest least)
        if placed.column = indent then
          let reading := { reading with indent? := some indent }
          blockLines isFolded least (reading.startLine isFolded c) rest
        else some (reading, placed :: rest)

/-- A block scalar behind its mark, within collections indented to a column,
and what follows it. -/
def blockRest (isFolded : Bool) (outer : Option Nat) (source : Source) :
    Option (String × Source) := do
  let (header, rest) ← BlockHeader.ofSource? source
  let base := outer.getD 0
  let least := max 1 (outer.map (· + 1) |>.getD 0)
  let reading : BlockReading := { indent? := header.indent?.map (base + ·) }
  let (reading, rest) ← blockLines isFolded least reading rest
  some (reading.finish header.chomping, rest)

end PeerNet.Yaml
