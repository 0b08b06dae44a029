import PeerNet.Proofs.Overrides.Conf

/-!
# The grammar of configuration files

Blank lines, comments, headers and entries are told apart on the lines as they are written. Each
line is read as what it is: a header as its name without the blanks around it, an entry as the
texts on the two sides of its first equals sign, and any other line as nothing.
-/

set_option autoImplicit false

namespace PeerNet.Overrides.ConfLine

def IsBlankLine (line : List Char) : Prop :=
  ∀ c ∈ line, Text.isBlank c = true

/-- True of the lines whose first character that is no blank is a number sign. -/
def IsComment (line : List Char) : Prop :=
  ∃ blanks rest, line = blanks ++ '#' :: rest ∧ IsBlankLine blanks

/-- A header, and what stands between its brackets. -/
structure IsHeader (line name : List Char) : Prop where
  bracketed : Text.trim line = '[' :: (name ++ [']'])
  filled : name ≠ []
  unclosed : ']' ∉ name

/-- An entry, and what stands on the two sides of its first equals sign. -/
structure IsEntry (line before behind : List Char) : Prop where
  notBlank : ¬IsBlankLine line
  notComment : ¬IsComment line
  notHeader : ∀ name, ¬IsHeader line name
  cut : line = before ++ '=' :: behind
  first : '=' ∉ before
  named : IsName (Text.trim before)

/-- True of the lines that say nothing. -/
inductive Idle (line : List Char) : Prop where
  | blank (blank : IsBlankLine line)
  | comment (comment : IsComment line)
  | other (noHeader : ∀ name, ¬IsHeader line name)
      (noEntry : ∀ before behind, ¬IsEntry line before behind)

theorem isComment_iff {line : List Char} :
    IsComment line ↔ (Text.trim line).head? = some '#' := by
  have sign : Text.isBlank '#' = false := by decide
  constructor
  · rintro ⟨blanks, rest, rfl, blank⟩
    simp [Text.trim_append_cons sign, Text.trimStart_of_blank blank]
  · intro first
    obtain ⟨blanks, back, whole, blank, _⟩ := Text.exists_eq_append_trim line
    obtain ⟨rest, kept⟩ := List.head?_eq_some_iff.1 first
    exact ⟨blanks, rest ++ back, by rw [whole, kept, List.cons_append], blank⟩

theorem headerName?_eq_some_iff {trimmed name : List Char} :
    headerName? trimmed = some name ↔
      trimmed = '[' :: (name ++ [']']) ∧ name ≠ [] ∧ ']' ∉ name := by
  constructor
  · intro found
    unfold headerName? at found
    split at found
    · next rest =>
      split at found
      · next reversed turned =>
        have whole : rest = reversed.reverse ++ [']'] := by
          simpa using congrArg List.reverse turned
        split at found
        · cases found
        · next plain =>
          cases found
          exact ⟨by rw [whole], by simpa using plain⟩
      · cases found
    · cases found
  · rintro ⟨rfl, filled, unclosed⟩
    simp [headerName?, filled, unclosed]

theorem isHeader_iff {line name : List Char} :
    IsHeader line name ↔ headerName? (Text.trim line) = some name :=
  ⟨fun ⟨bracketed, filled, unclosed⟩ =>
      headerName?_eq_some_iff.2 ⟨bracketed, filled, unclosed⟩,
    fun found =>
      have ⟨bracketed, filled, unclosed⟩ := headerName?_eq_some_iff.1 found
      ⟨bracketed, filled, unclosed⟩⟩

theorem setting?_eq_some_iff {text name value : List Char} :
    setting? text = some (name, value) ↔
      ∃ before behind, text = before ++ '=' :: behind ∧ '=' ∉ before ∧
        IsName (Text.trim before) ∧ name = Text.trim before ∧ value = Text.trim behind := by
  constructor
  · intro found
    have named : IsName name := (named_of_setting? found).1
    unfold setting? at found
    split at found
    · cases found
    · next before behind halves =>
      dsimp only at found
      split at found
      · cases found
      · cases found
        exact ⟨before, behind, Text.halves?_eq_append halves, Text.not_mem_of_halves? halves,
          named, rfl, rfl⟩
  · rintro ⟨before, behind, rfl, first, ⟨filled, nameChars⟩, rfl, rfl⟩
    have plain : (Text.trim before).all isNameChar = true := List.all_eq_true.2 nameChars
    simp [setting?, Text.halves?_append first, filled, plain]

/-- Blanks around a line do not matter to its name and its value. -/
theorem setting?_trim (line : List Char) : setting? (Text.trim line) = setting? line := by
  cases halves : Text.halves? '=' line with
  | none =>
    have absent : '=' ∉ Text.trim line := fun member =>
      Text.halves?_eq_none_iff.1 halves (Text.mem_of_mem_trim member)
    simp [setting?, halves, Text.halves?_eq_none_iff.2 absent]
  | some parts =>
    obtain ⟨before, behind⟩ := parts
    have first : '=' ∉ Text.trimStart before := fun member =>
      Text.not_mem_of_halves? halves ((List.dropWhile_suffix Text.isBlank).subset member)
    have trimmed : Text.trim line = Text.trimStart before ++ '=' :: Text.trimEnd behind := by
      rw [Text.halves?_eq_append halves, Text.trim_append_cons (by decide)]
    simp [setting?, halves, trimmed, Text.halves?_append first, Text.trim_trimStart,
      Text.trim_trimEnd]

/-- A line that starts with a name is neither blank nor a comment nor a header. -/
theorem isEntry_of_named {line before behind : List Char} (cut : line = before ++ '=' :: behind)
    (first : '=' ∉ before) (named : IsName (Text.trim before)) : IsEntry line before behind := by
  obtain ⟨c, inName, starts⟩ : ∃ c, isNameChar c = true ∧ (Text.trim line).head? = some c := by
    obtain ⟨back, whole⟩ := Text.trimEnd_isPrefix (Text.trimStart before)
    obtain ⟨c, rest, kept⟩ := List.exists_cons_of_ne_nil named.1
    refine ⟨c, named.2 c (by simp [kept]), ?_⟩
    rw [cut, Text.trim_append_cons (by decide), ← whole, ← Text.trim, kept]
    rfl
  refine ⟨fun blank => ?_, fun comment => ?_, fun name header => ?_, cut, first, named⟩
  · rw [Text.trim_of_blank blank] at starts
    cases starts
  · rw [isComment_iff.1 comment] at starts
    cases starts
    cases inName
  · rw [header.bracketed] at starts
    cases starts
    cases inName

theorem ofText_of_blank {line : List Char} (blank : IsBlankLine line) :
    ofText line = .nothing := by
  simp [ofText, Text.trim_of_blank blank]

theorem ofText_of_comment {line : List Char} (comment : IsComment line) :
    ofText line = .nothing := by
  simp [ofText, isComment_iff.1 comment]

theorem ofText_eq_header_iff {line : List Char} {title : String} :
    ofText line = .header title ↔
      ∃ name, IsHeader line name ∧ title = String.ofList (Text.trim name) := by
  constructor
  · intro read
    unfold ofText at read
    dsimp only at read
    split at read
    · cases read
    · split at read
      · next name found =>
        cases read
        exact ⟨name, isHeader_iff.2 found, rfl⟩
      · split at read <;> cases read
  · rintro ⟨name, header, rfl⟩
    have found := isHeader_iff.1 header
    simp only [ofText, found]
    simp [header.bracketed]

theorem ofText_eq_setting_iff {line : List Char} {name value : String} :
    ofText line = .setting name value ↔
      ∃ before behind, IsEntry line before behind ∧
        name = String.ofList (Text.trim before) ∧ value = String.ofList (Text.trim behind) := by
  constructor
  · intro read
    unfold ofText at read
    dsimp only at read
    split at read
    · cases read
    · split at read
      · cases read
      · split at read
        · next found =>
          cases read
          rw [setting?_trim] at found
          obtain ⟨before, behind, cut, first, named, rfl, rfl⟩ := setting?_eq_some_iff.1 found
          exact ⟨before, behind, isEntry_of_named cut first named, rfl, rfl⟩
        · cases read
  · rintro ⟨before, behind, entry, rfl, rfl⟩
    have filled : Text.trim line ≠ [] := fun empty =>
      entry.notBlank (Text.trim_eq_nil_iff.1 empty)
    have notComment : (Text.trim line).head? ≠ some '#' := fun sign =>
      entry.notComment (isComment_iff.2 sign)
    have notHeader : headerName? (Text.trim line) = none :=
      Option.eq_none_iff_forall_not_mem.2 fun name found =>
        entry.notHeader name (isHeader_iff.2 found)
    have found : setting? (Text.trim line) = some (Text.trim before, Text.trim behind) := by
      rw [setting?_trim]
      exact setting?_eq_some_iff.2
        ⟨before, behind, entry.cut, entry.first, entry.named, rfl, rfl⟩
    simp [ofText, filled, notComment, notHeader, found]

theorem ofText_of_idle {line : List Char} (idle : Idle line) : ofText line = .nothing := by
  cases idle with
  | blank blank => exact ofText_of_blank blank
  | comment comment => exact ofText_of_comment comment
  | other noHeader noEntry =>
    cases read : ofText line with
    | nothing => rfl
    | header title =>
      obtain ⟨name, header, _⟩ := ofText_eq_header_iff.1 read
      exact absurd header (noHeader name)
    | setting name value =>
      obtain ⟨before, behind, entry, _⟩ := ofText_eq_setting_iff.1 read
      exact absurd entry (noEntry before behind)

/-- A line that is ended by a carriage return too reads the same. -/
theorem ofText_withoutReturn (line : List Char) :
    ofText (Text.withoutReturn line) = ofText line := by
  have trimmed : Text.trim (Text.withoutReturn line) = Text.trim line := by
    unfold Text.withoutReturn
    split
    · next rest turned =>
      have whole : line = rest.reverse ++ ['\r'] := by
        simpa using congrArg List.reverse turned
      have blank : ∀ c ∈ ['\r'], Text.isBlank c = true := List.all_eq_true.1 (by decide)
      rw [whole, Text.trim_append_blank blank]
    · rfl
  rw [ofText, ofText, trimmed]

end PeerNet.Overrides.ConfLine
