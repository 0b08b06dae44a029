import PeerNet.Proofs.Markup.Tags

/-!
# Written pieces are found

The scanner cuts a written document into the pieces that it was written from:
tags with their names, references of escaped characters, and the text between
them up to the next mark.
-/

set_option autoImplicit false

namespace PeerNet.Markup

def endsText (c : Char) : Bool :=
  c == '<' || c == '&'

/-- The text up to the next mark, and what follows it. -/
def textRun (text : List Char) : List Char :=
  text.takeWhile (!endsText ·)

def afterRun (text : List Char) : List Char :=
  text.dropWhile (!endsText ·)

theorem textRun_append {front : List Char} (plain : ∀ c ∈ front, endsText c = false)
    (rest : List Char) : textRun (front ++ rest) = front ++ textRun rest := by
  rw [textRun, textRun, List.takeWhile_append_of_pos (by simpa using plain)]

theorem afterRun_append {front : List Char} (plain : ∀ c ∈ front, endsText c = false)
    (rest : List Char) : afterRun (front ++ rest) = afterRun rest := by
  rw [afterRun, afterRun, List.dropWhile_append_of_pos (by simpa using plain)]

theorem textRun_cons_of_endsText {c : Char} (mark : endsText c = true) (rest : List Char) :
    textRun (c :: rest) = [] := by
  simp [textRun, mark]

theorem endsText_of_not_isEscaped {c : Char} (plain : isEscaped c = false) :
    endsText c = false := by
  simp only [isEscaped, Bool.or_eq_false_iff, beq_eq_false_iff_ne] at plain
  simp [endsText, plain.1.1.1.1, plain.1.1.2]

/-- The run at the start of an escaped text starts as that text does. -/
theorem exists_cons_of_textRun_escape {text rest more : List Char} {d : Char}
    (stop : textRun rest = []) (run : textRun (escape text ++ rest) = d :: more) :
    ∃ later, text = d :: later := by
  cases text with
  | nil =>
    rw [escape_nil, List.nil_append, stop] at run
    cases run
  | cons c later =>
    rw [escape_cons, List.append_assoc] at run
    cases escaped : isEscaped c with
    | true =>
      obtain ⟨name, _, written, _⟩ := escapeCharacter_of_isEscaped escaped
      rw [written, List.cons_append, List.cons_append, textRun_cons_of_endsText rfl] at run
      cases run
    | false =>
      rw [escapeCharacter_of_not_isEscaped escaped, textRun_append
        (by simpa using endsText_of_not_isEscaped escaped), List.singleton_append] at run
      cases run
      exact ⟨later, rfl⟩

/-! ## One piece -/

theorem next_text {c : Char} (plain : endsText c = false) (rest : List Char) :
    next c rest = .ok (.text (unifyBreaks (textRun (c :: rest))), afterRun (c :: rest)) := by
  have marks : c ≠ '<' ∧ c ≠ '&' := by simpa [endsText] using plain
  have same : (fun c => c != '<' && c != '&') = fun c => !endsText c := by
    funext c
    simp [endsText, bne]
  simp only [next, marks.1, marks.2, ↓reduceIte, textRun, afterRun, plain, Bool.not_false,
    List.takeWhile_cons_of_pos, List.dropWhile_cons_of_pos, same]

theorem next_reference {name : List Char} (known : name ∈ entityNames) (rest : List Char) :
    next '&' (name ++ ';' :: rest) = .ok (.reference name, rest) := by
  have inside : ∀ c ∈ name, (c != ';' && c != '&' && c != '<') = true := by
    intro c member
    obtain ⟨unmarked, unescaped, _⟩ := plain_of_mem_entityNames known c member
    simp only [isReferenceMark, isEscaped, Bool.or_eq_false_iff, beq_eq_false_iff_ne]
      at unmarked unescaped
    simp [unmarked, unescaped]
  have stop : ((';' : Char) != ';' && (';' : Char) != '&' && (';' : Char) != '<') = false := by
    decide
  simp only [next, show ('&' : Char) ≠ '<' by decide, ↓reduceIte,
    List.takeWhile_append_of_pos inside, List.dropWhile_append_of_pos inside, stop,
    Bool.false_eq_true, not_false_eq_true, List.dropWhile_cons_of_neg,
    List.takeWhile_cons_of_neg, List.append_nil]

/-- A tag is what stands behind its bracket, unless that is a declaration or an
instruction. -/
theorem next_tag {c : Char} (other : c ≠ '!' ∧ c ≠ '?') (rest : List Char) :
    next '<' (c :: rest) =
      (tagBody none (c :: rest)).map fun (body, behind) => (eventOfTag body, behind) := by
  simp only [next, ↓reduceIte]
  split
  · next same =>
    cases same
    exact absurd rfl other.1
  · next same =>
    cases same
    exact absurd rfl other.2
  · rfl

private theorem tagBody_close (rest : List Char) : tagBody none ('>' :: rest) = .ok ([], rest) := by
  simp [tagBody]

theorem next_opening {name : String} {attributes : List (String × String)}
    (plain : PlainTag name (attributes.map (·.1))) (rest : List Char) :
    next '<' (tagText name attributes ++ '>' :: rest) =
      .ok (.opening ⟨tagText name attributes⟩, rest) := by
  have cut := tagBody_tagText plain ('>' :: rest)
  obtain ⟨⟨c, more, first, named⟩, _⟩ := tagText_ends plain.1 attributes
  have split : tagText name attributes ++ '>' :: rest = c :: (more ++ '>' :: rest) := by
    rw [first, List.cons_append]
  rw [split] at cut ⊢
  rw [next_tag ⟨ne_of_isNameChar named (by decide), ne_of_isNameChar named (by decide)⟩, cut,
    tagBody_close]
  simp only [Except.map, prepend, List.append_nil, eventOfTag_tagText plain.1]

theorem next_selfClosing {name : String} {attributes : List (String × String)}
    (plain : PlainTag name (attributes.map (·.1))) (rest : List Char) :
    next '<' (tagText name attributes ++ '/' :: '>' :: rest) =
      .ok (.selfClosing ⟨tagText name attributes⟩, rest) := by
  have cut := tagBody_tagText plain ('/' :: '>' :: rest)
  have slash : tagBody none ('/' :: '>' :: rest) = .ok (['/'], rest) := by
    rw [tagBody]
    simp [Attribute.isQuote, tagBody_close, Except.map]
  obtain ⟨⟨c, more, first, named⟩, _⟩ := tagText_ends plain.1 attributes
  have split : tagText name attributes ++ '/' :: '>' :: rest =
      c :: (more ++ '/' :: '>' :: rest) := by
    rw [first, List.cons_append]
  rw [split] at cut ⊢
  rw [next_tag ⟨ne_of_isNameChar named (by decide), ne_of_isNameChar named (by decide)⟩, cut,
    slash]
  simp only [Except.map, prepend, eventOfTag_tagText_slash plain.1]

theorem next_closing {name : String} (plain : PlainName name) (rest : List Char) :
    next '<' ('/' :: (name.toList ++ '>' :: rest)) = .ok (.closing name.toList, rest) := by
  have unquoted : ∀ c ∈ '/' :: name.toList, c ≠ '>' ∧ Attribute.isQuote c = false := by
    intro c member
    rcases List.mem_cons.1 member with rfl | inside
    · decide
    · exact ⟨ne_of_isNameChar (plain.2 c inside) (by decide),
        isQuote_of_isNameChar (plain.2 c inside)⟩
  have cut := tagBody_append_unquoted unquoted ('>' :: rest)
  have trimmed : trimName name.toList = name.toList := by
    have unspaced : ∀ c ∈ name.toList.reverse, isSpace c = false := fun c member =>
      isSpace_of_isNameChar (plain.2 c (List.mem_reverse.1 member))
    have kept : name.toList.reverse.dropWhile isSpace = name.toList.reverse := by
      cases reversed : name.toList.reverse with
      | nil => rfl
      | cons c back =>
        rw [List.dropWhile_cons_of_neg]
        simp [unspaced c (reversed ▸ List.mem_cons_self)]
    rw [trimName, kept, List.reverse_reverse]
  rw [List.cons_append] at cut
  rw [next_tag (by decide), cut, tagBody_close]
  simp only [Except.map, prepend, List.append_nil, eventOfTag, trimmed]

theorem next_instruction {content : List Char} (marks : '?' ∉ content ∧ '>' ∉ content)
    (rest : List Char) :
    next '<' ('?' :: (content ++ '?' :: '>' :: rest)) = .ok (.remark, rest) := by
  have found : Text.around? "?>".toList (content ++ '?' :: '>' :: rest) = some (content, rest) :=
    Text.around?_append marks.1 rest
  simp only [next, ↓reduceIte, instruction]
  split
  · next behind same =>
    cases content with
    | nil => cases same
    | cons c more =>
      cases same
      exact absurd List.mem_cons_self marks.2
  · rw [found]

/-! ## All pieces -/

theorem scanInside_nil (opened : List (List Char)) : scanInside opened [] = ([], none) := by
  rw [scanInside.eq_def]

theorem scanInside_cons {opened inner : List (List Char)} {c : Char} {rest behind : List Char}
    {event : Event} (found : next c rest = .ok (event, behind))
    (nested : nest opened event = .ok inner) :
    scanInside opened (c :: rest) =
      (event :: (scanInside inner behind).1, (scanInside inner behind).2) := by
  rw [scanInside.eq_def]
  simp only
  split
  · next found' =>
    rw [found] at found'
    cases found'
  · next found' =>
    rw [found] at found'
    cases found'
    simp only [nested]

end PeerNet.Markup
