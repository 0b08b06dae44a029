import PeerNet.Yaml.Scalar

/-!
# Anchors, tags and directives

The names that are given to values and to kinds of values, and the lines before
a document that speak of the notation itself.
-/

set_option autoImplicit false

namespace PeerNet.Yaml

/-- A tag in its UTF-8 form, which need not be a proper one. -/
abbrev Octets := List UInt8

namespace Octets

def ofText (text : String) : Octets :=
  text.toUTF8.toList

def beforeZero (octets : Octets) : Octets :=
  octets.takeWhile (· ≠ 0)

end Octets

structure WrittenTag where
  handle : String
  ending : Octets
  deriving DecidableEq, Repr

inductive Directive where
  | version (major minor : Nat)
  | tagStart (handle : String) (start : Octets)
  deriving DecidableEq, Repr

def endsAnchor (source : Source) : Bool :=
  source.atBlank || source.startsWith (· ∈ "?:,]\x7d%@\x60".toList)

def anchorName? (source : Source) : Option (String × Source) :=
  let (name, rest) := source.run isNameChar
  if name.isEmpty || !endsAnchor rest then none else some (name, rest)

/-- The characters of tags. Those of collections in brackets are for tags in
angle brackets. -/
def isTagChar (verbatim : Bool) (c : Char) : Bool :=
  isNameChar c || c ∈ ";/?:@&=+$.!~*'()%".toList || (verbatim && c ∈ ",[]".toList)

def furtherBytes? (byte : Nat) : Option Nat :=
  if byte < 0x80 then some 0
  else if 0xc0 ≤ byte ∧ byte < 0xe0 then some 1
  else if 0xe0 ≤ byte ∧ byte < 0xf0 then some 2
  else if 0xf0 ≤ byte ∧ byte < 0xf8 then some 3
  else none

/-- A text of ASCII characters with its percent codes replaced. A character of
several bytes has a code for each of them; `left` bytes of it are still to come. -/
def percentDecoded? (left : Nat) : List Char → Option Octets
  | [] => if left = 0 then some [] else none
  | '%' :: a :: b :: rest =>
    match Decimal.readNumeral 16 256 [a, b] with
    | .error _ => none
    | .ok byte =>
      let left? : Option Nat :=
        if left = 0 then furtherBytes? byte
        else if byte < 0x80 ∨ 0xc0 ≤ byte then none
        else some (left - 1)
      match left? with
      | none => none
      | some left => (percentDecoded? left rest).map (UInt8.ofNat byte :: ·)
  | c :: rest =>
    if left ≠ 0 ∨ c = '%' then none
    else (percentDecoded? 0 rest).map (UInt8.ofNat c.toNat :: ·)

def tagRun? (verbatim : Bool) (source : Source) : Option (Octets × Source) :=
  let (text, rest) := source.run (isTagChar verbatim)
  (percentDecoded? 0 text.toList).map (·, rest)

def tagHandle? (source : Source) : Option (String × Source) :=
  match source with
  | [] => none
  | mark :: behind =>
    if mark.char ≠ '!' then none
    else
      let (name, rest) := Source.run isNameChar behind
      if rest.startsWith (· == '!') then some ("!" ++ name ++ "!", rest.behind)
      else some ("!" ++ name, rest)

def verbatimTag? (source : Source) : Option (WrittenTag × Source) := do
  let (ending, rest) ← tagRun? true source
  if ending.isEmpty || !rest.startsWith (· == '>') then none else some (⟨"", ending⟩, rest.behind)

/-- A tag of a handle and an ending, and what follows it. Without a second mark
the name of the handle belongs to the ending, and a lone mark is a whole tag. -/
def shortTag? (source : Source) : Option (WrittenTag × Source) := do
  let (handle, rest) ← tagHandle? source
  let (ending, rest) ← tagRun? false rest
  if handle.length > 1 && handle.endsWith "!" then
    if ending.isEmpty then none else some (⟨handle, ending⟩, rest)
  else
    let ending := (Octets.ofText (handle.drop 1).toString ++ ending).beforeZero
    some (if ending.isEmpty then ⟨"", .ofText "!"⟩ else ⟨"!", ending⟩, rest)

def tagOf? (inFlow : Bool) (source : Source) : Option (WrittenTag × Source) := do
  let (tag, rest) ←
    if source.behind.startsWith (· == '<') then verbatimTag? source.behind.behind
    else shortTag? source
  if rest.atBlank || (inFlow && rest.startsWith (· == ',')) then some (tag, rest) else none

/-- A number of at most nine digits, and what follows it. -/
def versionNumber? (source : Source) : Option (Nat × Source) :=
  let (digits, rest) := source.run Char.isDigit
  if digits.isEmpty || digits.length > 9 then none
  else some (Decimal.Written.valueOf digits.toList, rest)

def directive? (source : Source) : Option (Directive × Source) := do
  let (name, rest) := source.run isNameChar
  guard rest.atBlank
  let rest := rest.skipBlanks
  let (directive, rest) ←
    match name with
    | "YAML" => do
      let (major, rest) ← versionNumber? rest
      guard (rest.startsWith (· == '.'))
      let (minor, rest) ← versionNumber? rest.behind
      some (Directive.version major minor, rest)
    | "TAG" => do
      let (handle, rest) ← tagHandle? rest
      guard (handle = "!" || handle.endsWith "!")
      guard (rest.startsWith isSpaceOrTab)
      let (start, rest) ← tagRun? true rest.skipBlanks
      guard (!start.isEmpty && rest.atBlank)
      some (Directive.tagStart handle start, rest)
    | _ => none
  let rest := rest.skipBlanks
  let rest := if rest.startsWith (· == '#') then rest.skipLine else rest
  guard rest.atLineEnd
  some (directive, rest.behind)

end PeerNet.Yaml
