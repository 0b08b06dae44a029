import PeerNet.Markup.Reference

/-!
# Escaped text

A character is escaped by the reference that names it, or stands as it is. In
either case it can be read back, and an escaped text holds none of the
characters that end a tag, a value or a piece of text.
-/

set_option autoImplicit false

namespace PeerNet.Markup

def entityNames : List (List Char) :=
  ["lt".toList, "gt".toList, "amp".toList, "apos".toList, "quot".toList]

def isEscaped (c : Char) : Bool :=
  c == '<' || c == '>' || c == '&' || c == '\x27' || c == '"'

theorem escapeCharacter_of_isEscaped {c : Char} (escaped : isEscaped c = true) :
    ∃ name ∈ entityNames, escapeCharacter c = '&' :: name ++ [';'] ∧
      namedCharacter? name = some c := by
  simp only [isEscaped, Bool.or_eq_true, beq_iff_eq] at escaped
  rcases escaped with (((rfl | rfl) | rfl) | rfl) | rfl
  · exact ⟨"lt".toList, by decide, rfl, rfl⟩
  · exact ⟨"gt".toList, by decide, rfl, rfl⟩
  · exact ⟨"amp".toList, by decide, rfl, rfl⟩
  · exact ⟨"apos".toList, by decide, rfl, rfl⟩
  · exact ⟨"quot".toList, by decide, rfl, rfl⟩

theorem escapeCharacter_of_not_isEscaped {c : Char} (plain : isEscaped c = false) :
    escapeCharacter c = [c] := by
  unfold escapeCharacter
  split <;> first | rfl | cases plain

/-- A name of a reference holds neither mark and no escaped character, and does
not start like a number. -/
theorem plain_of_mem_entityNames {name : List Char} (member : name ∈ entityNames) :
    ∀ c ∈ name, isReferenceMark c = false ∧ isEscaped c = false ∧ c ≠ '#' := by
  have plain : entityNames.all (·.all fun c => !isReferenceMark c && !isEscaped c && c != '#') :=
    by decide
  intro c inside
  simpa [and_assoc] using List.all_eq_true.1 (List.all_eq_true.1 plain name member) c inside

theorem resolve?_of_mem_entityNames {name : List Char} (member : name ∈ entityNames) :
    resolve? name = .ok (namedCharacter? name) := by
  unfold resolve?
  split
  · exact absurd rfl (plain_of_mem_entityNames member '#' List.mem_cons_self).2.2
  · rfl

@[simp] theorem escape_nil : escape [] = [] := rfl

@[simp] theorem escape_cons (c : Char) (text : List Char) :
    escape (c :: text) = escapeCharacter c ++ escape text := rfl

/-- Of the escaped characters only the mark of a reference is left in a text. -/
theorem mem_escape {text : List Char} {c : Char} (member : c ∈ escape text) :
    c = '&' ∨ isEscaped c = false := by
  obtain ⟨source, _, inside⟩ := List.mem_flatMap.1 member
  cases escaped : isEscaped source with
  | false =>
    rw [escapeCharacter_of_not_isEscaped escaped, List.mem_singleton] at inside
    exact .inr (inside ▸ escaped)
  | true =>
    obtain ⟨name, known, written, _⟩ := escapeCharacter_of_isEscaped escaped
    rw [written] at inside
    rcases List.mem_append.1 inside with front | last
    · rcases List.mem_cons.1 front with mark | named
      · exact .inl mark
      · exact .inr (plain_of_mem_entityNames known c named).2.1
    · rw [List.mem_singleton.1 last]
      exact .inr rfl

theorem not_mem_escape {text : List Char} {c : Char} (escaped : isEscaped c = true)
    (unmarked : c ≠ '&') : c ∉ escape text := by
  intro member
  rcases mem_escape member with mark | plain
  · exact unmarked mark
  · rw [escaped] at plain
    cases plain

/-! ## Reading values back -/

private theorem takeWhile_name {name : List Char}
    (unmarked : ∀ c ∈ name, isReferenceMark c = false) (later : List Char) :
    (name ++ ';' :: later).takeWhile (!isReferenceMark ·) = name := by
  rw [List.takeWhile_append_of_pos (by simpa using unmarked)]
  simp [isReferenceMark]

private theorem dropWhile_name {name : List Char}
    (unmarked : ∀ c ∈ name, isReferenceMark c = false) (later : List Char) :
    (name ++ ';' :: later).dropWhile (!isReferenceMark ·) = ';' :: later := by
  rw [List.dropWhile_append_of_pos (by simpa using unmarked)]
  simp [isReferenceMark]

theorem unescapeFrom_reference {name : List Char} {c : Char}
    (unmarked : ∀ c ∈ name, isReferenceMark c = false) (named : resolve? name = .ok (some c))
    (whole : Nat) (later : List Char) :
    unescapeFrom whole ('&' :: name ++ ';' :: later) =
      (unescapeFrom whole later).map (c :: ·) := by
  rw [List.cons_append, unescapeFrom]
  simp only [↓reduceIte, takeWhile_name unmarked]
  split
  · next rest found =>
    rw [dropWhile_name unmarked] at found
    cases found
    simp only [named]
  · next other =>
    exact absurd (dropWhile_name unmarked later) (other later)

theorem unescapeFrom_plain {c : Char} (plain : c ≠ '&') (whole : Nat) (later : List Char) :
    unescapeFrom whole (c :: later) = (unescapeFrom whole later).map (c :: ·) := by
  rw [unescapeFrom]
  simp [plain]

theorem unescapeFrom_escape (whole : Nat) (text : List Char) :
    unescapeFrom whole (escape text) = .ok text := by
  induction text with
  | nil => rw [escape_nil, unescapeFrom]
  | cons c rest ih =>
    rw [escape_cons]
    cases escaped : isEscaped c with
    | false =>
      rw [escapeCharacter_of_not_isEscaped escaped, List.singleton_append,
        unescapeFrom_plain (by rintro rfl; cases escaped), ih]
      rfl
    | true =>
      obtain ⟨name, known, written, named⟩ := escapeCharacter_of_isEscaped escaped
      have resolved : resolve? name = .ok (some c) := by
        rw [resolve?_of_mem_entityNames known, named]
      rw [written, List.append_assoc, List.singleton_append, unescapeFrom_reference
        (fun d member => (plain_of_mem_entityNames known d member).1) resolved, ih]
      rfl

theorem unescape_escape (text : List Char) : unescape (escape text) = .ok text :=
  unescapeFrom_escape _ text

end PeerNet.Markup
