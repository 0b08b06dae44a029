import PeerNet.Yaml.Block
import PeerNet.Yaml.Plain
import PeerNet.Yaml.Property
import PeerNet.Yaml.Quoted

/-!
# Tokens

The tokens of a YAML text. Collections that are told by indentation alone get
tokens for their start and end. A key in front of a colon is only known when
the colon is met; the scanner remembers where such a key may have started and
puts the tokens in there afterwards.
-/

set_option autoImplicit false

namespace PeerNet.Yaml

inductive Token where
  | directive (directive : Directive)
  | documentStart
  | documentEnd
  | blockSequenceStart
  | blockMappingStart
  | blockEnd
  | flowSequenceStart
  | flowSequenceEnd
  | flowMappingStart
  | flowMappingEnd
  | blockEntry
  | flowEntry
  | key
  | value
  | reference (anchor : String)
  | anchor (name : String)
  | tag (tag : WrittenTag)
  | scalar (text : String) (style : ScalarStyle)
  deriving DecidableEq, Repr

structure KeyStart where
  tokens : Nat
  required : Bool
  line : Nat
  column : Nat
  offset : Nat
  deriving DecidableEq, Repr

structure Scanner where
  tokens : Array Token := #[]
  /-- Where a key may have started, for each collection in brackets that is
  open, the innermost first, and then for the text around them. -/
  starts : List (Option KeyStart) := [none]
  indents : List Nat := []
  keyAllowed : Bool := true
  deriving DecidableEq, Repr

namespace Scanner

def inFlow (scanner : Scanner) : Bool :=
  scanner.starts.length > 1

def push (scanner : Scanner) (token : Token) : Scanner :=
  { scanner with tokens := scanner.tokens.push token }

def setStart (scanner : Scanner) (start? : Option KeyStart) : Scanner :=
  { scanner with starts := start? :: scanner.starts.tail }

/-- Gives up the innermost place where a key may have started; fails where only
a key could stand. -/
def dropStart? (scanner : Scanner) : Option Scanner :=
  match scanner.starts.head? with
  | some (some start) => if start.required then none else some (scanner.setStart none)
  | _ => some scanner

/-- Gives up all places that are too far back for a key: on an earlier line, or
more than 1024 characters before. -/
def dropStale? (scanner : Scanner) (line offset : Nat) : Option Scanner :=
  let stale (start : KeyStart) : Bool := start.line < line || start.offset + 1024 < offset
  if scanner.starts.any (·.any fun start => stale start && start.required) then none
  else
    some { scanner with starts := scanner.starts.map fun start? => start?.filter (!stale ·) }

def saveStart? (scanner : Scanner) (placed : Placed) : Option Scanner :=
  if scanner.keyAllowed then
    scanner.dropStart?.map fun scanner => scanner.setStart (some {
      tokens := scanner.tokens.size
      required := !scanner.inFlow && scanner.indents.head? == some placed.column
      line := placed.line
      column := placed.column
      offset := placed.offset })
  else some scanner

/-- Opens a collection at a column, with its token at a place among the others,
unless one is open there already. -/
def indentTo (scanner : Scanner) (column place : Nat) (token : Token) : Scanner :=
  if scanner.inFlow || scanner.indents.head?.any (column ≤ ·) then scanner
  else
    { scanner with
      indents := column :: scanner.indents
      tokens := scanner.tokens.insertIdxIfInBounds place token }

/-- Closes collections, the innermost first, up to one whose column is to be
kept. -/
def closeTo (keep : Nat → Bool) (tokens : Array Token) : List Nat → Array Token × List Nat
  | [] => (tokens, [])
  | column :: outer =>
    if keep column then (tokens, column :: outer) else closeTo keep (tokens.push .blockEnd) outer

def unindentTo (scanner : Scanner) (column : Nat) : Scanner :=
  if scanner.inFlow then scanner
  else
    let (tokens, indents) := closeTo (· ≤ column) scanner.tokens scanner.indents
    { scanner with tokens, indents }

def unindent (scanner : Scanner) : Scanner :=
  if scanner.inFlow then scanner
  else
    let (tokens, indents) := closeTo (fun _ => false) scanner.tokens scanner.indents
    { scanner with tokens, indents }

def outside? (scanner : Scanner) (token : Token) : Option Scanner :=
  scanner.unindent.dropStart?.map fun scanner =>
    { scanner.push token with keyAllowed := false }

def openFlow? (scanner : Scanner) (placed : Placed) (token : Token) : Option Scanner :=
  (scanner.saveStart? placed).map fun scanner =>
    { scanner.push token with starts := none :: scanner.starts, keyAllowed := true }

def closeFlow? (scanner : Scanner) (token : Token) : Option Scanner :=
  scanner.dropStart?.map fun scanner =>
    { scanner.push token with
      starts := if scanner.inFlow then scanner.starts.tail else scanner.starts
      keyAllowed := false }

def flowEntry? (scanner : Scanner) : Option Scanner :=
  scanner.dropStart?.map fun scanner => { scanner.push .flowEntry with keyAllowed := true }

def blockEntry? (scanner : Scanner) (placed : Placed) : Option Scanner :=
  if !scanner.inFlow && !scanner.keyAllowed then none
  else
    (scanner.indentTo placed.column scanner.tokens.size .blockSequenceStart).dropStart?.map
      fun scanner => { scanner.push .blockEntry with keyAllowed := true }

def key? (scanner : Scanner) (placed : Placed) : Option Scanner :=
  if !scanner.inFlow && !scanner.keyAllowed then none
  else
    (scanner.indentTo placed.column scanner.tokens.size .blockMappingStart).dropStart?.map
      fun scanner => { scanner.push .key with keyAllowed := !scanner.inFlow }

def value? (scanner : Scanner) (placed : Placed) : Option Scanner :=
  match scanner.starts.head? with
  | some (some start) =>
    let tokens := scanner.tokens.insertIdxIfInBounds start.tokens .key
    let scanner := { scanner with tokens }.indentTo start.column start.tokens .blockMappingStart
    some { (scanner.setStart none).push .value with keyAllowed := false }
  | _ =>
    if !scanner.inFlow && !scanner.keyAllowed then none
    else
      let scanner := scanner.indentTo placed.column scanner.tokens.size .blockMappingStart
      some { scanner.push .value with keyAllowed := !scanner.inFlow }

def content? (scanner : Scanner) (placed : Placed) (token : Token) : Option Scanner :=
  (scanner.saveStart? placed).map fun scanner =>
    { scanner.push token with keyAllowed := false }

def blockScalar? (scanner : Scanner) (isFolded : Bool) (rest : Source) :
    Option (Scanner × Source) := do
  let scanner ← scanner.dropStart?
  let (text, rest) ← blockRest isFolded scanner.indents.head? rest
  let token := Token.scalar text (if isFolded then .folded else .literal)
  some ({ scanner.push token with keyAllowed := true }, rest)

def plain? (scanner : Scanner) (placed : Placed) (rest : Source) :
    Option (Scanner × Source) := do
  let indent := (scanner.indents.head?.map (· + 1)).getD 0
  let (text, rest, broken) ← plainRest scanner.inFlow indent {} (placed :: rest)
  let scanner ← scanner.content? placed (.scalar text .plain)
  some ({ scanner with keyAllowed := broken }, rest)

def token? (scanner : Scanner) (placed : Placed) (rest : Source) : Option (Scanner × Source) :=
  let source : Source := placed :: rest
  let c := placed.char
  if placed.column = 0 ∧ c = '%' then do
    let (directive, rest) ← directive? rest
    some (← scanner.outside? (.directive directive), rest)
  else if source.atMarker '-' then
    (scanner.outside? .documentStart).map (·, List.drop 2 rest)
  else if source.atMarker '.' then
    (scanner.outside? .documentEnd).map (·, List.drop 2 rest)
  else if c = '[' then (scanner.openFlow? placed .flowSequenceStart).map (·, rest)
  else if c = '\x7b' then (scanner.openFlow? placed .flowMappingStart).map (·, rest)
  else if c = ']' then (scanner.closeFlow? .flowSequenceEnd).map (·, rest)
  else if c = '\x7d' then (scanner.closeFlow? .flowMappingEnd).map (·, rest)
  else if c = ',' then scanner.flowEntry?.map (·, rest)
  else if c = '-' ∧ rest.atBlank then (scanner.blockEntry? placed).map (·, rest)
  else if c = '?' ∧ (scanner.inFlow ∨ rest.atBlank) then (scanner.key? placed).map (·, rest)
  else if c = ':' ∧ (scanner.inFlow ∨ rest.atBlank) then (scanner.value? placed).map (·, rest)
  else if c = '*' then do
    let (name, rest) ← anchorName? rest
    some (← scanner.content? placed (.reference name), rest)
  else if c = '&' then do
    let (name, rest) ← anchorName? rest
    some (← scanner.content? placed (.anchor name), rest)
  else if c = '!' then do
    let (tag, rest) ← tagOf? scanner.inFlow source
    some (← scanner.content? placed (.tag tag), rest)
  else if (c = '|' ∨ c = '>') ∧ !scanner.inFlow then scanner.blockScalar? (c == '>') rest
  else if c = '\'' ∨ c = '"' then do
    let (text, rest) ← quotedRest c rest
    some (← scanner.content? placed (.scalar text .quoted), rest)
  else if startsPlain scanner.inFlow source then scanner.plain? placed rest
  else none

/-- Passes over blanks and comments in front of a token, and over a byte order
mark at the start of a line, which takes up a column. Outside of brackets a key
may start on every new line. -/
def skip (scanner : Scanner) (inComment : Bool) : Source → Scanner × Source
  | [] => (scanner, [])
  | placed :: rest =>
    let c := placed.char
    if isBreak c then
      skip { scanner with keyAllowed := scanner.keyAllowed || !scanner.inFlow } false rest
    else if inComment then skip scanner true rest
    else if c = '#' then skip scanner true rest
    else if c = '\ufeff' ∧ placed.column = 0 then skip scanner false rest
    else if c = ' ' ∨ (c = '\t' ∧ (scanner.inFlow ∨ !scanner.keyAllowed)) then
      skip scanner false rest
    else (scanner, placed :: rest)

/-- Scans a text that has at most a number of tokens. -/
def run (scanner : Scanner) : Nat → Source → Option Scanner
  | 0, _ => none
  | limit + 1, source =>
    let (scanner, source) := scanner.skip false source
    match source with
    | [] => scanner.unindent.dropStart?
    | placed :: rest =>
      match scanner.dropStale? placed.line placed.offset with
      | none => none
      | some scanner =>
        match (scanner.unindentTo placed.column).token? placed rest with
        | none => none
        | some (scanner, rest) => run scanner limit rest

end Scanner

def tokens? (source : Source) : Option (List Token) :=
  (({} : Scanner).run (source.length + 1) source).map (·.tokens.toList)

end PeerNet.Yaml
