import PeerNet.Json.Basic

/-!
# Written JSON

Two forms of a value: without any space, and indented by two spaces. A number
that is not an integer always shows a point.
-/

set_option autoImplicit false

namespace PeerNet.Json

def hexDigits (c : Char) : List Char :=
  let digits := Nat.toDigits 16 c.toNat
  List.replicate (4 - digits.length) '0' ++ digits

def escapeCharacter (c : Char) : List Char :=
  if c = '"' then ['\\', '"']
  else if c = '\\' then ['\\', '\\']
  else if c = '\n' then ['\\', 'n']
  else if c = '\r' then ['\\', 'r']
  else if c = '\t' then ['\\', 't']
  else if c = '\x08' then ['\\', 'b']
  else if c = '\x0c' then ['\\', 'f']
  else if c < ' ' then ['\\', 'u'] ++ hexDigits c
  else [c]

def quote (text : String) : String :=
  String.ofList ('"' :: text.toList.flatMap escapeCharacter ++ ['"'])

variable {R : Type} [NumberText R]

def numberText (x : R) : String :=
  let text := NumberText.write x
  if text.contains '.' then text else text ++ ".0"

def separated (separator : String) : List String → String
  | [] => ""
  | [last] => last
  | text :: others => text ++ separator ++ separated separator others

/-- An opening bracket, items and a closing bracket; nothing between the
brackets where there is no item, else a line break and indentation before each
item and before the closing bracket. -/
def block (opening closing margin inner : String) (items : List String) : String :=
  if items.isEmpty then opening ++ closing
  else
    opening ++ inner ++ separated ("," ++ inner) items ++ margin ++ closing

mutual

def compact : Json R → String
  | .null | .meaningless => "null"
  | .bool value => if value then "true" else "false"
  | .integer value => toString value
  | .number value => numberText value
  | .string text => quote text
  | .array items => block "[" "]" "" "" (compactItems items)
  | .object fields => block "\x7b" "\x7d" "" "" (compactFields fields)

def compactItems : List (Json R) → List String
  | [] => []
  | item :: rest => compact item :: compactItems rest

def compactFields : List (String × Json R) → List String
  | [] => []
  | (name, value) :: rest => (quote name ++ ":" ++ compact value) :: compactFields rest

end

def newline (depth : Nat) : String :=
  "\n" ++ "".pushn ' ' (2 * depth)

mutual

def indented (depth : Nat) : Json R → String
  | .null | .meaningless => "null"
  | .bool value => if value then "true" else "false"
  | .integer value => toString value
  | .number value => numberText value
  | .string text => quote text
  | .array items =>
    block "[" "]" (newline depth) (newline (depth + 1)) (indentedItems (depth + 1) items)
  | .object fields =>
    block "\x7b" "\x7d" (newline depth) (newline (depth + 1)) (indentedFields (depth + 1) fields)

def indentedItems (depth : Nat) : List (Json R) → List String
  | [] => []
  | item :: rest => indented depth item :: indentedItems depth rest

def indentedFields (depth : Nat) : List (String × Json R) → List String
  | [] => []
  | (name, value) :: rest =>
    (quote name ++ ": " ++ indented depth value) :: indentedFields depth rest

end

def pretty (value : Json R) : String :=
  indented 0 value

end PeerNet.Json
