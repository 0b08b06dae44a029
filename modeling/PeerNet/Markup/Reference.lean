import PeerNet.Markup.Fault
import PeerNet.Text.Split

/-!
# References

Characters that markup cannot hold as themselves are written as references. A
reference names one of five characters, or gives the number of any character in
decimal or, after an `x`, in hexadecimal digits.
-/

set_option autoImplicit false

namespace PeerNet.Markup

/-- How many bytes a text has in UTF-8. -/
def byteCount : List Char → Nat
  | [] => 0
  | c :: rest => c.utf8Size + byteCount rest

def namedCharacter? (name : List Char) : Option Char :=
  match name with
  | ['l', 't'] => some '<'
  | ['g', 't'] => some '>'
  | ['a', 'm', 'p'] => some '&'
  | ['a', 'p', 'o', 's'] => some '\x27'
  | ['q', 'u', 'o', 't'] => some '"'
  | _ => none

def codeOf (radix : Nat) (digits : List Char) : Except ReferenceFault Nat :=
  match digits with
  | '+' :: _ | '-' :: _ => .error .signed
  | _ => (Decimal.readNumeral radix UInt32.size digits).mapError .numeral

def characterOf (code : Nat) : Except ReferenceFault Char :=
  if code = 0 then .error .zero
  else if code.isValidChar then .ok (Char.ofNat code)
  else .error (.notCharacter code)

def numberedCharacter (text : List Char) : Except ReferenceFault Char := do
  let code ←
    match text with
    | 'x' :: digits => codeOf 16 digits
    | digits => codeOf 10 digits
  characterOf code

def resolve? (reference : List Char) : Except ReferenceFault (Option Char) :=
  match reference with
  | '#' :: number => (numberedCharacter number).map some
  | name => .ok (namedCharacter? name)

def isReferenceMark (c : Char) : Bool :=
  c == '&' || c == ';'

/-- The text of an attribute value from some place on, with its references
resolved. Both counts are of bytes. -/
def unescapeFrom (whole : Nat) (text : List Char) : Except ValueFault (List Char) :=
  match text with
  | [] => .ok []
  | c :: rest =>
    if c = '&' then
      let name := rest.takeWhile (!isReferenceMark ·)
      let start := whole - byteCount rest
      match behind : rest.dropWhile (!isReferenceMark ·) with
      | ';' :: later =>
        match resolve? name with
        | .error fault => .error (.reference fault)
        | .ok none => .error (.unknownName start (start + byteCount name) name)
        | .ok (some character) => (unescapeFrom whole later).map (character :: ·)
      | _ => .error (.unterminated (start - 1) whole)
    else (unescapeFrom whole rest).map (c :: ·)
termination_by text.length
decreasing_by
  · have shorter : (rest.dropWhile (!isReferenceMark ·)).length ≤ rest.length :=
      (List.dropWhile_suffix _).length_le
    rw [behind] at shorter
    simp only [List.length_cons] at shorter ⊢
    omega
  · simp

def unescape (text : List Char) : Except ValueFault (List Char) :=
  unescapeFrom (byteCount text) text

/-- The reference that stands for a character, or the character itself where it
may stand as it is. -/
def escapeCharacter (c : Char) : List Char :=
  match c with
  | '<' => "&lt;".toList
  | '>' => "&gt;".toList
  | '&' => "&amp;".toList
  | '\x27' => "&apos;".toList
  | '"' => "&quot;".toList
  | c => [c]

def escape (text : List Char) : List Char :=
  text.flatMap escapeCharacter

end PeerNet.Markup
