import PeerNet.Markup.Reference

/-!
# Tags

What stands between the angle brackets of an opening or self-closing tag: a
name up to the first space, and attributes behind it. Attributes are read from
left to right, so that one that is wanted is found before a fault behind it.
-/

set_option autoImplicit false

namespace PeerNet.Markup

def isSpace (c : Char) : Bool :=
  c == ' ' || c == '\t' || c == '\n' || c == '\r'

structure Tag where
  content : List Char
  deriving DecidableEq, Repr

/-- A name with a value, and the place in the tag where the name starts. -/
structure Attribute where
  name : List Char
  start : Nat
  value : List Char
  deriving DecidableEq, Repr

namespace Attribute

def isQuote (c : Char) : Bool :=
  c == '"' || c == '\x27'

def inName (c : Char) : Bool :=
  c != '=' && !isSpace c

def readValue (whole : Nat) (text : List Char) :
    Except AttributeFault (List Char × List Char) :=
  match text.dropWhile isSpace with
  | [] => .error (.missingValue whole)
  | quote :: rest =>
    if isQuote quote then
      match Text.halves? quote rest with
      | none => .error (.unclosed whole quote)
      | some found => .ok found
    else .error (.unquoted (whole - byteCount (quote :: rest)))

theorem length_readValue {whole : Nat} {text value rest : List Char}
    (read : readValue whole text = .ok (value, rest)) : rest.length < text.length := by
  have shorter : (text.dropWhile isSpace).length ≤ text.length :=
    (List.dropWhile_suffix _).length_le
  simp only [readValue] at read
  split at read
  · simp at read
  · rename_i quote behind same
    rw [same] at shorter
    split at read
    · split at read
      · simp at read
      · rename_i found halves
        simp only [Except.ok.injEq] at read
        rw [read] at halves
        have := Text.length_halves? halves
        simp only [List.length_cons] at shorter
        omega
    · simp at read

/-- The attribute at the start of a text, whose first character belongs to its
name, and the text after it. -/
def read (whole : Nat) (earlier : List Attribute) (first : Char) (rest : List Char) :
    Except AttributeFault (Attribute × List Char) :=
  let name := first :: rest.takeWhile inName
  let start := whole - byteCount (first :: rest)
  match (rest.dropWhile inName).dropWhile isSpace with
  | '=' :: behind =>
    match earlier.find? (·.name = name) with
    | some same => .error (.repeated start same.start)
    | none => (readValue whole behind).map fun (value, rest) => (⟨name, start, value⟩, rest)
  | other => .error (.missingEquals (whole - byteCount other))

theorem length_read {whole : Nat} {earlier : List Attribute} {first : Char}
    {rest later : List Char} {found : Attribute}
    (done : read whole earlier first rest = .ok (found, later)) :
    later.length < rest.length := by
  have shorter : ((rest.dropWhile inName).dropWhile isSpace).length ≤ rest.length :=
    Nat.le_trans (List.dropWhile_suffix _).length_le (List.dropWhile_suffix _).length_le
  simp only [read] at done
  split at done
  · rename_i behind same
    rw [same] at shorter
    split at done
    · simp at done
    · cases value : readValue whole behind with
      | error fault => simp [value, Except.map] at done
      | ok parts =>
        obtain ⟨text, last⟩ := parts
        simp only [value, Except.map, Except.ok.injEq, Prod.mk.injEq] at done
        obtain ⟨_, rfl⟩ := done
        have := length_readValue value
        simp only [List.length_cons] at shorter
        omega
  · simp at done

theorem length_read_of_spaces {text : List Char} {whole : Nat} {earlier : List Attribute}
    {first : Char} {rest later : List Char} {found : Attribute}
    (spaces : text.dropWhile isSpace = first :: rest)
    (done : read whole earlier first rest = .ok (found, later)) :
    later.length < text.length := by
  have shorter : (text.dropWhile isSpace).length ≤ text.length :=
    (List.dropWhile_suffix _).length_le
  have := length_read done
  rw [spaces] at shorter
  simp only [List.length_cons] at shorter
  omega

/-- The attributes of a text up to its end or to the first fault. -/
def readAll (whole : Nat) (earlier : List Attribute) (text : List Char) :
    List Attribute × Option AttributeFault :=
  match spaces : text.dropWhile isSpace with
  | [] => ([], none)
  | first :: rest =>
    match done : read whole earlier first rest with
    | .error fault => ([], some fault)
    | .ok (found, later) =>
      have := length_read_of_spaces spaces done
      let (others, fault) := readAll whole (earlier ++ [found]) later
      (found :: others, fault)
termination_by text.length

end Attribute

namespace Tag

def name (tag : Tag) : List Char :=
  tag.content.takeWhile (!isSpace ·)

/-- The attributes up to the first fault. -/
def attributes (tag : Tag) : List Attribute × Option AttributeFault :=
  Attribute.readAll (byteCount tag.content) [] (tag.content.dropWhile (!isSpace ·))

/-- The value of an attribute as written. A fault counts only if it comes first. -/
def value? (tag : Tag) (name : List Char) : Except AttributeFault (Option (List Char)) :=
  let (attributes, fault) := tag.attributes
  match attributes.find? (·.name = name), fault with
  | some found, _ => .ok (some found.value)
  | none, some fault => .error fault
  | none, none => .ok none

end Tag

end PeerNet.Markup
