import PeerNet.GraphML.Decode
import PeerNet.Proofs.Markup.Breaks
import PeerNet.Proofs.Markup.Scan

/-!
# Reading on

What a reading makes of the rest of a document, one piece at a time. Text is
taken in any portions: only the unification of line breaks looks ahead.
-/

set_option autoImplicit false

namespace PeerNet.GraphML.Reading

open Markup

variable {R : Type}

@[simp] theorem appendText_nil (reading : Reading R) : reading.appendText [] = reading := by
  cases reading with
  | mk keys draft data depth nodes edges => cases data <;> simp [appendText]

theorem appendText_append (reading : Reading R) (first last : List Char) :
    (reading.appendText first).appendText last = reading.appendText (first ++ last) := by
  cases reading with
  | mk keys draft data depth nodes edges => cases data <;> simp [appendText]

theorem appendText_of_idle {reading : Reading R} (idle : reading.data = none)
    (text : List Char) : reading.appendText text = reading := by
  cases reading with
  | mk keys draft data depth nodes edges =>
    cases idle
    rfl

variable [NumberText R] [Scalar R]

def conclude (reading : Reading R) (pieces : List Event × Option Fault) :
    Except DecodeFault (Partial R) :=
  match reading.steps pieces.1 with
  | .error fault => .error fault
  | .ok reading =>
    match pieces.2 with
    | some fault => .error (.malformed (.markup fault))
    | none =>
      if reading.depth > 0 then .error (.truncated reading.depth)
      else .ok ⟨reading.nodes, reading.edges⟩

/-- The outcome of a reading that goes on with a text inside open elements. -/
def resume (reading : Reading R) (opened : List (List Char)) (text : List Char) :
    Except DecodeFault (Partial R) :=
  reading.conclude (scanInside opened text)

theorem resume_nil (reading : Reading R) (opened : List (List Char)) :
    reading.resume opened [] =
      if reading.depth > 0 then .error (.truncated reading.depth)
      else .ok ⟨reading.nodes, reading.edges⟩ := by
  rw [resume, scanInside_nil]
  rfl

/-- A piece that is taken in leaves the rest of the text to the reading after it. -/
theorem resume_piece {reading after : Reading R} {opened inner : List (List Char)} {c : Char}
    {rest behind : List Char} {event : Event} (found : next c rest = .ok (event, behind))
    (nested : nest opened event = .ok inner) (taken : reading.step event = .ok after) :
    reading.resume opened (c :: rest) = after.resume inner behind := by
  rw [resume, scanInside_cons found nested]
  simp only [conclude, steps, taken]
  rfl

/-- Where the text of each item leads from one place to the next, the texts of
all items lead through all places. -/
theorem resume_flatMap {α σ : Type} {items : List α} {text : α → List Char} {next : σ → α → σ}
    {place : σ → Reading R} {opened : List (List Char)}
    (one : ∀ item ∈ items, ∀ state rest, (place state).resume opened (text item ++ rest) =
      (place (next state item)).resume opened rest) (state : σ) (rest : List Char) :
    (place state).resume opened (items.flatMap text ++ rest) =
      (place (items.foldl next state)).resume opened rest := by
  induction items generalizing state with
  | nil => rfl
  | cons item items ih =>
    obtain ⟨first, later⟩ := List.forall_mem_cons.1 one
    rw [List.flatMap_cons, List.append_assoc, first, ih later, List.foldl_cons]

/-! ## Text -/

theorem resume_run (reading : Reading R) (opened : List (List Char)) (text : List Char) :
    reading.resume opened text =
      (reading.appendText (unifyBreaks (textRun text))).resume opened (afterRun text) := by
  cases text with
  | nil => simp [textRun, afterRun, unifyBreaks]
  | cons c rest =>
    cases mark : endsText c with
    | true => simp [textRun, afterRun, mark, unifyBreaks]
    | false => exact resume_piece (next_text mark rest) rfl rfl

/-- Text may be taken in by portions, where no break stands across them. -/
theorem resume_append {front unified rest : List Char}
    (plain : ∀ c ∈ front, endsText c = false)
    (unify : unifyBreaks (front ++ textRun rest) = unified ++ unifyBreaks (textRun rest))
    (reading : Reading R) (opened : List (List Char)) :
    reading.resume opened (front ++ rest) = (reading.appendText unified).resume opened rest := by
  rw [resume_run reading, resume_run (reading.appendText unified), textRun_append plain,
    afterRun_append plain, unify, appendText_append]

theorem resume_skip {reading : Reading R} (idle : reading.data = none) {front : List Char}
    (plain : ∀ c ∈ front, endsText c = false) (opened : List (List Char)) (rest : List Char) :
    reading.resume opened (front ++ rest) = reading.resume opened rest := by
  rw [resume_run reading opened (front ++ rest), resume_run reading opened rest,
    afterRun_append plain, appendText_of_idle idle, appendText_of_idle idle]

theorem resume_reference {name : List Char} {c : Char} (known : name ∈ entityNames)
    (named : namedCharacter? name = some c) (reading : Reading R)
    (opened : List (List Char)) (rest : List Char) :
    reading.resume opened ('&' :: name ++ ';' :: rest) =
      (reading.appendText [c]).resume opened rest := by
  refine resume_piece (next_reference known rest) rfl ?_
  cases idle : reading.data with
  | none => simp [step, idle, appendText_of_idle idle]
  | some data =>
    simp only [step, idle, Option.isSome_some, ↓reduceIte, referenceText,
      resolve?_of_mem_entityNames known, named]
    rfl

/-- Escaped text is taken in as it was, apart from its line breaks. -/
theorem resume_escape {rest : List Char} (stop : textRun rest = []) (text : List Char)
    (reading : Reading R) (opened : List (List Char)) :
    reading.resume opened (escape text ++ rest) =
      (reading.appendText (unifyBreaks text)).resume opened rest := by
  induction text using unifyBreaks_cases generalizing reading with
  | nil => simp [unifyBreaks]
  | pair d text second ih =>
    have unify : unifyBreaks (['\r', d] ++ textRun (escape text ++ rest)) =
        ['\n'] ++ unifyBreaks (textRun (escape text ++ rest)) := unifyBreaks_pair second _
    have unified : unifyBreaks ('\r' :: d :: text) = ['\n'] ++ unifyBreaks text :=
      unifyBreaks_pair second text
    have plain : ∀ c ∈ ['\r', d], endsText c = false := by
      rcases second with rfl | rfl <;> simp [endsText]
    rw [unified, ← appendText_append, ← ih, ← resume_append plain unify]
    rcases second with rfl | rfl <;> rfl
  | single c text alone ih =>
    rw [escape_cons, unifyBreaks_cons alone, List.append_assoc]
    cases escaped : isEscaped c with
    | true =>
      obtain ⟨name, known, written, named⟩ := escapeCharacter_of_isEscaped escaped
      have unbroken : ¬ (c = '\r' ∨ c = '\u0085' ∨ c = '\u2028') := by
        rintro (rfl | rfl | rfl) <;> cases escaped
      rw [written, List.append_assoc, List.singleton_append, resume_reference known named, ih,
        appendText_append, if_neg unbroken]
      rfl
    | false =>
      have unify : unifyBreaks ([c] ++ textRun (escape text ++ rest)) =
          [if c = '\r' ∨ c = '\u0085' ∨ c = '\u2028' then '\n' else c] ++
            unifyBreaks (textRun (escape text ++ rest)) := by
        apply unifyBreaks_cons
        intro same d more run
        obtain ⟨later, rfl⟩ := exists_cons_of_textRun_escape stop run
        exact alone same d later rfl
      rw [escapeCharacter_of_not_isEscaped escaped, resume_append
        (by simpa using endsText_of_not_isEscaped escaped) unify, ih, appendText_append]
      rfl

/-! ## Tags -/

theorem resume_opening {name : String} {attributes : List (String × String)}
    (plain : PlainTag name (attributes.map (·.1))) {reading after : Reading R}
    (taken : reading.openElement ⟨tagText name attributes⟩ = .ok after)
    (opened : List (List Char)) (rest : List Char) :
    reading.resume opened (openingText name attributes ++ rest) =
      after.resume (name.toList :: opened) rest := by
  have text : openingText name attributes ++ rest =
      '<' :: (tagText name attributes ++ '>' :: rest) := by
    simp [openingText]
  have nested : nest opened (.opening ⟨tagText name attributes⟩) = .ok (name.toList :: opened) := by
    rw [nest, (Tag.name_written plain.1 attributes).1]
  rw [text]
  exact resume_piece (next_opening plain rest) nested taken

theorem resume_selfClosing {name : String} {attributes : List (String × String)}
    (plain : PlainTag name (attributes.map (·.1))) {reading after : Reading R}
    (taken : reading.takeEmpty ⟨tagText name attributes⟩ = .ok after)
    (opened : List (List Char)) (rest : List Char) :
    reading.resume opened (selfClosingText name attributes ++ rest) =
      after.resume opened rest := by
  have text : selfClosingText name attributes ++ rest =
      '<' :: (tagText name attributes ++ '/' :: '>' :: rest) := by
    simp [selfClosingText]
  rw [text]
  exact resume_piece (next_selfClosing plain rest) rfl taken

theorem resume_closing {name : String} (plain : PlainName name) (reading : Reading R)
    (opened : List (List Char)) (rest : List Char) :
    reading.resume (name.toList :: opened) (closingText name ++ rest) =
      (reading.closeElement name.toList).resume opened rest := by
  have text : closingText name ++ rest = '<' :: '/' :: (name.toList ++ '>' :: rest) := by
    simp [closingText]
  have nested : nest (name.toList :: opened) (.closing name.toList) = .ok opened := by
    simp [nest]
  rw [text]
  exact resume_piece (next_closing plain rest) nested rfl

end PeerNet.GraphML.Reading

namespace PeerNet.GraphML

open Markup

variable {name : String} {attributes : List (String × String)}

theorem attributeOf?_written (plain : PlainTag name (attributes.map (·.1))) (key : String) :
    attributeOf? ⟨tagText name attributes⟩ key = .ok (attributes.lookup key) := by
  rw [attributeOf?, Tag.value?_written plain key]
  cases attributes.lookup key with
  | none => rfl
  | some value => simp [unescape_escape]

theorem required_written (plain : PlainTag name (attributes.map (·.1))) {key value : String}
    (listed : attributes.lookup key = some value) (element : String) :
    required ⟨tagText name attributes⟩ element key = .ok value := by
  rw [required, attributeOf?_written plain, listed]

end PeerNet.GraphML
