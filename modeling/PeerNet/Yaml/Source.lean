/-!
# Placed text

A YAML text as a list of characters that know their line and column. Line
breaks of all kinds are one character each, so that the readers of this folder
are plain recursions over the list.
-/

set_option autoImplicit false

namespace PeerNet.Yaml

structure Placed where
  char : Char
  line : Nat
  column : Nat
  offset : Nat
  deriving DecidableEq, Repr

abbrev Source := List Placed

def isBreak (c : Char) : Bool :=
  c == '\n' || c == '\r' || c == '\u0085' || c == '\u2028' || c == '\u2029'

def isSpaceOrTab (c : Char) : Bool :=
  c == ' ' || c == '\t'

def isAllowed (c : Char) : Bool :=
  let n := c.toNat
  n == 9 || n == 10 || n == 13 || (0x20 ≤ n && n ≤ 0x7e) || n == 0x85 ||
    (0xa0 ≤ n && n ≤ 0xfffd) || 0x10000 ≤ n

def isNameChar (c : Char) : Bool :=
  c.isAlphanum || c == '_' || c == '-'

namespace Source

/-- Places the characters of a text. A carriage return and a line feed are one
line break, and all breaks but two become line feeds. -/
def placeFrom (line column offset : Nat) : List Char → Source
  | [] => []
  | '\r' :: '\n' :: rest => ⟨'\n', line, column, offset⟩ :: placeFrom (line + 1) 0 (offset + 2) rest
  | c :: rest =>
    if isBreak c then
      let kept := if c == '\u2028' || c == '\u2029' then c else '\n'
      ⟨kept, line, column, offset⟩ :: placeFrom (line + 1) 0 (offset + 1) rest
    else ⟨c, line, column, offset⟩ :: placeFrom line (column + 1) (offset + 1) rest

/-- A text with places. Fails where it holds a character that no text may
hold. -/
def ofText? (text : String) : Option Source :=
  if text.toList.all isAllowed then some (placeFrom 0 0 0 text.toList) else none

def next? (source : Source) : Option Char :=
  source.head?.map (·.char)

def behind (source : Source) : Source :=
  source.tail

/-- True where the next character has a property. -/
def startsWith (property : Char → Bool) (source : Source) : Bool :=
  source.next?.any property

def atBlank (source : Source) : Bool :=
  source.next?.all fun c => isSpaceOrTab c || isBreak c

def atLineEnd (source : Source) : Bool :=
  source.next?.all isBreak

def atMarker (mark : Char) (source : Source) : Bool :=
  match source with
  | a :: b :: c :: rest =>
    a.column == 0 && a.char == mark && b.char == mark && c.char == mark && atBlank rest
  | _ => false

def atDocumentMarker (source : Source) : Bool :=
  source.atMarker '-' || source.atMarker '.'

def skipBlanks (source : Source) : Source :=
  source.dropWhile fun placed => isSpaceOrTab placed.char

def skipLine (source : Source) : Source :=
  source.dropWhile fun placed => !isBreak placed.char

def run (property : Char → Bool) (source : Source) : String × Source :=
  (String.ofList ((source.takeWhile (property ·.char)).map (·.char)),
    source.dropWhile (property ·.char))

end Source

end PeerNet.Yaml
