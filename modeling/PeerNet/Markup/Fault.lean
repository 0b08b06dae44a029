import PeerNet.Decimal.Numeral

/-!
# Faults of a document

What can be wrong with markup: pieces that the document ends inside of, closing
tags that do not match, and faults of attributes and references. Every fault
has one text. Positions count the bytes of the UTF-8 form.
-/

set_option autoImplicit false

namespace PeerNet.Markup

inductive Fault where
  | unknownMarkup
  | unclosedInstruction
  | unclosedDeclaration
  | unclosedComment
  | unclosedDoctype
  | unclosedLiteral
  | unclosedTag
  | unclosedQuote (quote : Char)
  | unclosedReference
  | namelessDoctype
  | mismatched (expected found : List Char)
  | unmatched (name : List Char)
  deriving DecidableEq, Repr

inductive AttributeFault where
  | missingEquals (position : Nat)
  | missingValue (position : Nat)
  | unquoted (position : Nat)
  | unclosed (position : Nat) (quote : Char)
  | repeated (position first : Nat)
  deriving DecidableEq, Repr

inductive ReferenceFault where
  | signed
  | numeral (fault : Decimal.NumeralFault)
  | zero
  | notCharacter (code : Nat)
  deriving DecidableEq, Repr

inductive ValueFault where
  | reference (fault : ReferenceFault)
  | unknownName (start stop : Nat) (name : List Char)
  | unterminated (start stop : Nat)
  deriving DecidableEq, Repr

private def unclosed (piece closing : String) : String :=
  "syntax error: " ++ piece ++ " not closed: `" ++ closing ++ "` not found before end of input"

def Fault.message : Fault → String
  | .unknownMarkup => "syntax error: unknown or missed symbol in markup"
  | .unclosedInstruction => unclosed "processing instruction" "?>"
  | .unclosedDeclaration => unclosed "XML declaration" "?>"
  | .unclosedComment => unclosed "comment" "-->"
  | .unclosedDoctype => unclosed "DOCTYPE" ">"
  | .unclosedLiteral => unclosed "CDATA" "]]>"
  | .unclosedTag => unclosed "tag" ">"
  | .unclosedQuote quote => unclosed "attribute value" quote.toString
  | .unclosedReference =>
    "ill-formed document: entity or character reference not closed: `;` not found before " ++
      "end of input"
  | .namelessDoctype =>
    "ill-formed document: `<!DOCTYPE>` declaration does not contain a name of a document type"
  | .mismatched expected found =>
    "ill-formed document: expected `</" ++ String.ofList expected ++ ">`, but `</" ++
      String.ofList found ++ ">` was found"
  | .unmatched name =>
    "ill-formed document: close tag `</" ++ String.ofList name ++
      ">` does not match any open tag"

def AttributeFault.message : AttributeFault → String
  | .missingEquals position =>
    "position " ++ Nat.repr position ++
      ": attribute key must be directly followed by `=` or space"
  | .missingValue position =>
    "position " ++ Nat.repr position ++ ": `=` must be followed by an attribute value"
  | .unquoted position =>
    "position " ++ Nat.repr position ++ ": attribute value must be enclosed in `\"` or `'`"
  | .unclosed position quote =>
    "position " ++ Nat.repr position ++ ": missing closing quote `" ++ quote.toString ++
      "` in attribute value"
  | .repeated position first =>
    "position " ++ Nat.repr position ++
      ": duplicated attribute, previous declaration at position " ++ Nat.repr first

def ReferenceFault.message (fault : ReferenceFault) : String :=
  "invalid character reference: " ++
    match fault with
    | .signed => "unexpected number sign"
    | .numeral .empty => "cannot parse integer from empty string"
    | .numeral .invalidDigit => "invalid digit found in string"
    | .numeral .tooLarge => "number too large to fit in target type"
    | .zero => "0x0 character is not permitted in XML"
    | .notCharacter code => "`" ++ Nat.repr code ++ "` is not a valid codepoint"

def ValueFault.message : ValueFault → String
  | .reference fault => fault.message
  | .unknownName start stop name =>
    "at " ++ Nat.repr start ++ ".." ++ Nat.repr stop ++ ": unrecognized entity `" ++
      String.ofList name ++ "`"
  | .unterminated start stop =>
    "Error while escaping character at range " ++ Nat.repr start ++ ".." ++ Nat.repr stop ++
      ": Cannot find ';' after '&'"

end PeerNet.Markup
