import PeerNet.Text.Split

/-!
# Document type declarations

Where a document type declaration ends. Its closing bracket is the first one
outside quotes, or the first one behind the internal subset in square brackets.
Within the subset only markup hides the closing square bracket: comments,
instructions, and declarations, of which those with literals hide brackets in
quotes.
-/

set_option autoImplicit false

namespace PeerNet.Markup

inductive DoctypePlace where
  | front
  | frontQuote (quote : Char)
  | subset
  /-- In the mark that opens markup, of which so many characters are left. -/
  | mark (left : Nat) (opened : DoctypePlace)
  | plain
  | declaration
  | declarationQuote (quote : Char)
  /-- A comment, behind so many dashes. -/
  | comment (dashes : Nat)
  | instruction (marked : Bool)
  | behind
  deriving DecidableEq, Repr

namespace DoctypePlace

def literalDeclarations : List String :=
  ["!ENTITY", "!ATTLIST", "!NOTATION"]

/-- The place that a left angle bracket in the subset opens, given the text
behind it. -/
def ofMarkup (text : List Char) : DoctypePlace :=
  if (Text.after? "!--".toList text).isSome then .mark 3 (.comment 0)
  else if (Text.after? "?".toList text).isSome then .mark 1 (.instruction false)
  else if literalDeclarations.any fun name => (Text.after? name.toList text).isSome then
    .declaration
  else .plain

def step (place : DoctypePlace) (c : Char) (rest : List Char) : DoctypePlace :=
  match place with
  | .front => if c = '"' ∨ c = '\x27' then .frontQuote c else if c = '[' then .subset else .front
  | .frontQuote quote => if c = quote then .front else place
  | .subset => if c = ']' then .behind else if c = '<' then ofMarkup rest else .subset
  | .mark left opened => if left ≤ 1 then opened else .mark (left - 1) opened
  | .plain => if c = '>' then .subset else .plain
  | .declaration =>
    if c = '>' then .subset
    else if c = '"' ∨ c = '\x27' then .declarationQuote c
    else .declaration
  | .declarationQuote quote => if c = quote then .declaration else place
  | .comment dashes =>
    if c = '-' then .comment (dashes + 1)
    else if c = '>' ∧ 2 ≤ dashes then .subset
    else .comment 0
  | .instruction marked => if c = '>' ∧ marked then .subset else .instruction (c == '?')
  | .behind => .behind

end DoctypePlace

def doctypeBody? (place : DoctypePlace) : List Char → Option (List Char × List Char)
  | [] => none
  | c :: rest =>
    if (place = .front ∨ place = .behind) ∧ c = '>' then some ([], rest)
    else
      (doctypeBody? (place.step c rest) rest).map fun (body, behind) => (c :: body, behind)

theorem length_doctypeBody? {place : DoctypePlace} {text body behind : List Char}
    (found : doctypeBody? place text = some (body, behind)) :
    behind.length < text.length := by
  induction text generalizing place body with
  | nil => simp [doctypeBody?] at found
  | cons c rest ih =>
    simp only [doctypeBody?] at found
    split at found
    · simp only [Option.some.injEq, Prod.mk.injEq] at found
      obtain ⟨_, rfl⟩ := found
      simp
    · obtain ⟨⟨body', behind'⟩, later, same⟩ := Option.map_eq_some_iff.1 found
      simp only [Prod.mk.injEq] at same
      obtain ⟨_, rfl⟩ := same
      have := ih later
      simp only [List.length_cons]
      omega

end PeerNet.Markup
