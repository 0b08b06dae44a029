import PeerNet.Markup.Doctype
import PeerNet.Markup.Tag

/-!
# Events of a document

A document cut into the pieces that matter to a reader: tags, text, literal
text and references. The cut goes from left to right and ends at the first
fault, so that the pieces before a fault are known. Closing tags must match.
-/

set_option autoImplicit false

namespace PeerNet.Markup

inductive Event where
  | opening (tag : Tag)
  | selfClosing (tag : Tag)
  | closing (name : List Char)
  | text (content : List Char)
  | literal (content : List Char)
  | reference (content : List Char)
  | remark
  deriving DecidableEq, Repr

def unifyBreaks : List Char → List Char
  | [] => []
  | '\r' :: '\n' :: rest => '\n' :: unifyBreaks rest
  | '\r' :: '\u0085' :: rest => '\n' :: unifyBreaks rest
  | c :: rest =>
    (if c = '\r' ∨ c = '\u0085' ∨ c = '\u2028' then '\n' else c) :: unifyBreaks rest

/-- The text of a tag up to its closing bracket, which does not stand in
quotes, and the text behind it. -/
def tagBody (quoted : Option Char) : List Char → Except Fault (List Char × List Char)
  | [] =>
    match quoted with
    | none => .error .unclosedTag
    | some quote => .error (.unclosedQuote quote)
  | c :: rest =>
    match quoted with
    | none =>
      if c = '>' then .ok ([], rest)
      else
        (tagBody (if Attribute.isQuote c then some c else none) rest).map
          fun (body, behind) => (c :: body, behind)
    | some quote =>
      (tagBody (if c = quote then none else some quote) rest).map
        fun (body, behind) => (c :: body, behind)

theorem length_tagBody {quoted : Option Char} {text body behind : List Char}
    (found : tagBody quoted text = .ok (body, behind)) : behind.length < text.length := by
  induction text generalizing quoted body with
  | nil => cases quoted <;> simp [tagBody] at found
  | cons c rest ih =>
    have step (quoted' : Option Char)
        (mapped : (tagBody quoted' rest).map
          (fun (body, behind) => (c :: body, behind)) = .ok (body, behind)) :
        behind.length < (c :: rest).length := by
      cases later : tagBody quoted' rest with
      | error fault => simp [later, Except.map] at mapped
      | ok parts =>
        obtain ⟨body', behind'⟩ := parts
        simp only [later, Except.map, Except.ok.injEq, Prod.mk.injEq] at mapped
        obtain ⟨_, rfl⟩ := mapped
        have := ih later
        simp only [List.length_cons]
        omega
    simp only [tagBody] at found
    split at found
    · split at found
      · simp only [Except.ok.injEq, Prod.mk.injEq] at found
        obtain ⟨_, rfl⟩ := found
        simp
      · exact step _ found
    · exact step _ found

def trimName (name : List Char) : List Char :=
  (name.reverse.dropWhile isSpace).reverse

def eventOfTag (body : List Char) : Event :=
  match body with
  | '/' :: name => .closing (trimName name)
  | _ =>
    match body.reverse with
    | '/' :: reversed => .selfClosing ⟨reversed.reverse⟩
    | _ => .opening ⟨body⟩

def declares (instruction : List Char) : Bool :=
  match Text.after? "xml".toList instruction with
  | some [] => true
  | some (c :: _) => isSpace c || c == '?'
  | none => false

def exclamation (text : List Char) : Except Fault (Event × List Char) :=
  match text with
  | '-' :: rest =>
    match Text.after? "-".toList rest with
    | none => .error .unclosedComment
    | some content =>
      match Text.around? "-->".toList content with
      | none => .error .unclosedComment
      | some (_, behind) => .ok (.remark, behind)
  | '[' :: rest =>
    match Text.after? "CDATA[".toList rest with
    | none => .error .unclosedLiteral
    | some content =>
      match Text.around? "]]>".toList content with
      | none => .error .unclosedLiteral
      | some (content, behind) => .ok (.literal content, behind)
  | c :: rest =>
    if c = 'D' ∨ c = 'd' then
      match doctypeBody? .front rest with
      | none => .error .unclosedDoctype
      | some (body, behind) =>
        match Text.after? "octype".toList (body.map Char.toLower) with
        | none => .error .unclosedDoctype
        | some name =>
          if name.all isSpace then .error .namelessDoctype else .ok (.remark, behind)
    else .error .unknownMarkup
  | [] => .error .unknownMarkup

/-- The piece behind `<?`, and the text after it. One question mark cannot both
open and close it. -/
def instruction (text : List Char) : Except Fault (Event × List Char) :=
  match text with
  | '>' :: _ => .error .unclosedInstruction
  | _ =>
    match Text.around? "?>".toList text with
    | some (_, behind) => .ok (.remark, behind)
    | none => .error (if declares text then .unclosedDeclaration else .unclosedInstruction)

def next (c : Char) (rest : List Char) : Except Fault (Event × List Char) :=
  if c = '<' then
    match rest with
    | '!' :: later => exclamation later
    | '?' :: later => instruction later
    | _ => (tagBody none rest).map fun (body, behind) => (eventOfTag body, behind)
  else if c = '&' then
    match rest.dropWhile fun c => c != ';' && c != '&' && c != '<' with
    | ';' :: behind =>
      .ok (.reference (rest.takeWhile fun c => c != ';' && c != '&' && c != '<'), behind)
    | _ => .error .unclosedReference
  else
    .ok (.text (unifyBreaks (c :: rest.takeWhile fun c => c != '<' && c != '&')),
      rest.dropWhile fun c => c != '<' && c != '&')

theorem length_exclamation {text behind : List Char} {event : Event}
    (found : exclamation text = .ok (event, behind)) : behind.length ≤ text.length := by
  unfold exclamation at found
  split at found
  · split at found
    · simp at found
    · rename_i content start
      split at found
      · simp at found
      · rename_i stop
        simp only [Except.ok.injEq, Prod.mk.injEq] at found
        obtain ⟨_, rfl⟩ := found
        have := Text.length_after? start
        have := Text.length_around? stop
        simp only [List.length_cons]
        omega
  · split at found
    · simp at found
    · rename_i content start
      split at found
      · simp at found
      · rename_i stop
        simp only [Except.ok.injEq, Prod.mk.injEq] at found
        obtain ⟨_, rfl⟩ := found
        have := Text.length_after? start
        have := Text.length_around? stop
        simp only [List.length_cons]
        omega
  · split at found
    · split at found
      · simp at found
      · rename_i stop
        split at found
        · simp at found
        · split at found
          · simp at found
          · simp only [Except.ok.injEq, Prod.mk.injEq] at found
            obtain ⟨_, rfl⟩ := found
            have := length_doctypeBody? stop
            simp only [List.length_cons]
            omega
    · simp at found
  · simp at found

theorem length_instruction {text behind : List Char} {event : Event}
    (found : instruction text = .ok (event, behind)) : behind.length ≤ text.length := by
  unfold instruction at found
  split at found
  · simp at found
  · split at found
    · rename_i stop
      simp only [Except.ok.injEq, Prod.mk.injEq] at found
      obtain ⟨_, rfl⟩ := found
      exact Text.length_around? stop
    · simp at found

theorem length_next {c : Char} {rest behind : List Char} {event : Event}
    (found : next c rest = .ok (event, behind)) : behind.length < (c :: rest).length := by
  unfold next at found
  split at found
  · split at found
    · have := length_exclamation found
      simp only [List.length_cons]
      omega
    · have := length_instruction found
      simp only [List.length_cons]
      omega
    · cases body : tagBody none rest with
      | error fault => simp [body, Except.map] at found
      | ok parts =>
        obtain ⟨content, last⟩ := parts
        simp only [body, Except.map, Except.ok.injEq, Prod.mk.injEq] at found
        obtain ⟨_, rfl⟩ := found
        have := length_tagBody body
        simp only [List.length_cons]
        omega
  · split at found
    · split at found
      · rename_i last same
        simp only [Except.ok.injEq, Prod.mk.injEq] at found
        obtain ⟨_, rfl⟩ := found
        have shorter := (List.dropWhile_suffix (l := rest)
          fun c => c != ';' && c != '&' && c != '<').length_le
        rw [same] at shorter
        simp only [List.length_cons] at shorter ⊢
        omega
      · simp at found
    · simp only [Except.ok.injEq, Prod.mk.injEq] at found
      obtain ⟨_, rfl⟩ := found
      have shorter := (List.dropWhile_suffix (l := rest) fun c => c != '<' && c != '&').length_le
      simp only [List.length_cons]
      omega

/-- The names of the elements that are open after a piece, the innermost first.
A closing tag must name the innermost one. -/
def nest (opened : List (List Char)) : Event → Except Fault (List (List Char))
  | .opening tag => .ok (tag.name :: opened)
  | .closing name =>
    match opened with
    | [] => .error (.unmatched name)
    | innermost :: outer =>
      if innermost = name then .ok outer else .error (.mismatched innermost name)
  | _ => .ok opened

/-- The pieces of a text inside open elements, up to its end or to the first
fault. -/
def scanInside (opened : List (List Char)) (text : List Char) : List Event × Option Fault :=
  match text with
  | [] => ([], none)
  | c :: rest =>
    match found : next c rest with
    | .error fault => ([], some fault)
    | .ok (event, behind) =>
      match nest opened event with
      | .error fault => ([], some fault)
      | .ok opened =>
        have := length_next found
        let (events, fault) := scanInside opened behind
        (event :: events, fault)
termination_by text.length
decreasing_by assumption

/-- The pieces of a document, up to its end or to the first fault. A byte order
mark in front does not count. -/
def scan (document : List Char) : List Event × Option Fault :=
  match document with
  | '\ufeff' :: rest => scanInside [] rest
  | _ => scanInside [] document

end PeerNet.Markup
