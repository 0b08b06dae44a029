import PeerNet.Proofs.Markup.Nesting

/-!
# Documents as trees

The content of a document as a tree of elements, and what can be asked of it:
its elements in document order, its text, and the attributes of a tag by name.
The pieces of every text that closes what it opens are the pieces of a content.
-/

set_option autoImplicit false

namespace PeerNet.Markup

/-! ## Tags -/

namespace Tag

/-- True of the tags whose attributes are all read without a fault. -/
structure Sound (tag : Tag) : Prop where
  attributes : tag.attributes.2 = none
  values : ∀ found ∈ tag.attributes.1, (unescape found.value).toOption.isSome

instance (tag : Tag) : Decidable tag.Sound :=
  decidable_of_iff (tag.attributes.2 = none ∧
      ∀ found ∈ tag.attributes.1, (unescape found.value).toOption.isSome)
    ⟨fun ⟨attributes, values⟩ => ⟨attributes, values⟩,
      fun ⟨attributes, values⟩ => ⟨attributes, values⟩⟩

/-- The value of an attribute of a sound tag. -/
def attribute? (tag : Tag) (name : String) : Option String :=
  (tag.attributes.1.find? (·.name = name.toList)).bind fun found =>
    (unescape found.value).toOption.map String.ofList

end Tag

/-! ## References -/

/-- The character that a reference stands for, if it is one of a character or
of a character with a name. -/
def resolved? (reference : List Char) : Option Char :=
  (resolve? reference).toOption.join

theorem resolve?_of_resolved? {reference : List Char} {c : Char}
    (resolved : resolved? reference = some c) : resolve? reference = .ok (some c) := by
  cases found : resolve? reference with
  | error fault => simp [resolved?, found, Except.toOption] at resolved
  | ok named =>
    cases named with
    | none => simp [resolved?, found, Except.toOption] at resolved
    | some d =>
      have same : d = c := by simpa [resolved?, found, Except.toOption] using resolved
      rw [same]

/-! ## Content -/

/-- A piece of content that is no tag. -/
inductive Chunk where
  | text (content : List Char)
  | literal (content : List Char)
  | reference (name : List Char)
  | remark
  deriving DecidableEq, Repr

namespace Chunk

def event : Chunk → Event
  | text content => .text content
  | literal content => .literal content
  | reference name => .reference name
  | remark => .remark

def chars : Chunk → List Char
  | text content => content
  | literal content => content
  | reference name => (resolved? name).toList
  | remark => []

/-- True of the chunks that do not refer to an unknown character. -/
def isKnown : Chunk → Bool
  | reference name => (resolved? name).isSome
  | _ => true

end Chunk

/-- What stands between two tags that belong together, or in a whole document:
pieces, each with the content behind it. -/
inductive Content where
  | nothing
  | element (tag : Tag) (inside behind : Content)
  | selfClosing (tag : Tag) (behind : Content)
  | loose (chunk : Chunk) (behind : Content)
  deriving DecidableEq, Repr

structure Element where
  tag : Tag
  inside : Content
  deriving DecidableEq, Repr

namespace Element

def name (element : Element) : String :=
  String.ofList element.tag.name

/-- The value of an attribute that the element must have. -/
def value (element : Element) (name : String) : String :=
  (element.tag.attribute? name).getD ""

end Element

namespace Content

def pieces : Content → List Event
  | nothing => []
  | element tag inside behind =>
    .opening tag :: (inside.pieces ++ .closing tag.name :: behind.pieces)
  | selfClosing tag behind => .selfClosing tag :: behind.pieces
  | loose chunk behind => chunk.event :: behind.pieces

/-- All elements in the order in which they start. An element that closes itself
has nothing inside. -/
def elements : Content → List Element
  | nothing => []
  | element tag inside behind => ⟨tag, inside⟩ :: (inside.elements ++ behind.elements)
  | selfClosing tag behind => ⟨tag, nothing⟩ :: behind.elements
  | loose _ behind => behind.elements

def named (content : Content) (name : String) : List Element :=
  content.elements.filter (·.name = name)

/-- The text of all chunks, also of those inside elements. -/
def chars : Content → List Char
  | nothing => []
  | element _ inside behind => inside.chars ++ behind.chars
  | selfClosing _ behind => behind.chars
  | loose chunk behind => chunk.chars ++ behind.chars

def chunks : Content → List Chunk
  | nothing => []
  | element _ inside behind => inside.chunks ++ behind.chunks
  | selfClosing _ behind => behind.chunks
  | loose chunk behind => chunk :: behind.chunks

/-- An element that closes itself is treated as one that has nothing inside. -/
theorem induction_empty {motive : Content → Prop} (nothing : motive .nothing)
    (element : ∀ tag inside behind, motive inside → motive behind →
      motive (.element tag inside behind))
    (empty : ∀ tag behind, motive (.element tag .nothing behind) →
      motive (.selfClosing tag behind))
    (loose : ∀ chunk behind, motive behind → motive (.loose chunk behind))
    (content : Content) : motive content := by
  induction content with
  | nothing => exact nothing
  | element tag inside behind ihInside ihBehind =>
    exact element tag inside behind ihInside ihBehind
  | selfClosing tag behind ih => exact empty tag behind (element tag .nothing behind nothing ih)
  | loose chunk behind ih => exact loose chunk behind ih

@[simp] theorem named_nothing (name : String) : nothing.named name = [] := rfl

theorem named_element (tag : Tag) (inside behind : Content) (name : String) :
    (element tag inside behind).named name =
      (if String.ofList tag.name = name then [⟨tag, inside⟩] else []) ++
        (inside.named name ++ behind.named name) := by
  rw [named, elements, List.filter_cons, List.filter_append, named, named]
  by_cases same : String.ofList tag.name = name
  · simp [Element.name, same]
  · simp [Element.name, same]

theorem mem_named_element {tag : Tag} {name : String} (same : String.ofList tag.name = name)
    (inside behind : Content) : ⟨tag, inside⟩ ∈ (element tag inside behind).named name := by
  rw [named_element, if_pos same]
  exact List.mem_cons_self

theorem named_element_eq_nil {tag : Tag} {inside behind : Content} {name : String}
    (none : (element tag inside behind).named name = []) :
    String.ofList tag.name ≠ name ∧ inside.named name = [] ∧ behind.named name = [] := by
  rw [named_element, List.append_eq_nil_iff, List.append_eq_nil_iff] at none
  refine ⟨fun same => ?_, none.2⟩
  rw [if_pos same] at none
  exact List.cons_ne_nil _ _ none.1

@[simp] theorem named_loose (chunk : Chunk) (behind : Content) (name : String) :
    (loose chunk behind).named name = behind.named name := rfl

end Content

/-! ## Trees of pieces -/

/-- True of pieces that close the elements given, from the innermost one on. -/
inductive Closes : List (List Char) → List Event → Prop where
  | last (content : Content) : Closes [] content.pieces
  | closing (content : Content) (name : List Char) {outer : List (List Char)}
    {rest : List Event} (later : Closes outer rest) :
    Closes (name :: outer) (content.pieces ++ .closing name :: rest)

theorem Closes.loose {opened : List (List Char)} {rest : List Event} (later : Closes opened rest)
    (chunk : Chunk) : Closes opened (chunk.event :: rest) := by
  cases later with
  | last content => exact .last (.loose chunk content)
  | closing content name later => exact .closing (.loose chunk content) name later

theorem Closes.selfClosing {opened : List (List Char)} {rest : List Event}
    (later : Closes opened rest) (tag : Tag) : Closes opened (.selfClosing tag :: rest) := by
  cases later with
  | last content => exact .last (.selfClosing tag content)
  | closing content name later => exact .closing (.selfClosing tag content) name later

theorem Closes.opening {opened : List (List Char)} {rest : List Event} {tag : Tag}
    (later : Closes (tag.name :: opened) rest) : Closes opened (.opening tag :: rest) := by
  cases later with
  | closing inside name later =>
    cases later with
    | last behind => exact .last (.element tag inside behind)
    | @closing behind name outer rest later =>
      have whole : (Content.element tag inside behind).pieces ++ .closing name :: rest =
          Event.opening tag :: (inside.pieces ++
            .closing tag.name :: (behind.pieces ++ .closing name :: rest)) := by
        simp [Content.pieces]
      exact whole ▸ .closing (.element tag inside behind) name later

theorem closes_of_nestAll {opened : List (List Char)} {events : List Event}
    (nested : nestAll opened events = .ok []) : Closes opened events := by
  induction events generalizing opened with
  | nil =>
    cases nested
    exact .last .nothing
  | cons event rest ih =>
    rw [nestAll] at nested
    cases event with
    | opening tag => exact (ih nested).opening
    | selfClosing tag => exact (ih nested).selfClosing tag
    | closing name =>
      cases opened with
      | nil => cases nested
      | cons innermost outer =>
        rw [nest] at nested
        split at nested
        · cases nested
        · next matched =>
          split at matched
          · next same =>
            cases matched
            exact same ▸ .closing .nothing innermost (ih nested)
          · cases matched
    | text content => exact (ih nested).loose (.text content)
    | literal content => exact (ih nested).loose (.literal content)
    | reference name => exact (ih nested).loose (.reference name)
    | remark => exact (ih nested).loose .remark

/-- Pieces that close what they open are the pieces of a content. -/
theorem exists_content {events : List Event} (nested : nestAll [] events = .ok []) :
    ∃ content : Content, events = content.pieces := by
  cases closes_of_nestAll nested with
  | last content => exact ⟨content, rfl⟩

end PeerNet.Markup
