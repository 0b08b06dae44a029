import Mathlib.Data.List.Nodup
import PeerNet.Markup.Event
import PeerNet.Markup.Print
import PeerNet.Proofs.Markup.Escape
import PeerNet.Proofs.Text.Split

/-!
# Written tags read back

A written tag is cut where it ends, whatever its values hold, and its name and
the values of its attributes are read back. Names are restricted to letters,
digits and dots, which is all that written documents use.
-/

set_option autoImplicit false

namespace PeerNet.Markup

def isNameChar (c : Char) : Bool :=
  c.isAlphanum || c == '.'

/-- True of the names that a tag can carry as they are. -/
def PlainName (name : String) : Prop :=
  name.toList ≠ [] ∧ ∀ c ∈ name.toList, isNameChar c = true

instance (name : String) : Decidable (PlainName name) :=
  decidable_of_iff (name.toList ≠ [] ∧ name.toList.all isNameChar = true) (by simp [PlainName])

/-- True of the tags that read back: their names are plain, and no two
attributes have one name. -/
def PlainTag (name : String) (keys : List String) : Prop :=
  PlainName name ∧ (∀ key ∈ keys, PlainName key) ∧ keys.Nodup

instance (name : String) (keys : List String) : Decidable (PlainTag name keys) :=
  inferInstanceAs (Decidable (_ ∧ _))

theorem ne_of_isNameChar {c d : Char} (plain : isNameChar c = true)
    (other : isNameChar d = false) : c ≠ d := by
  rintro rfl
  rw [plain] at other
  cases other

theorem isSpace_of_isNameChar {c : Char} (plain : isNameChar c = true) : isSpace c = false := by
  simp [isSpace, ne_of_isNameChar plain (show isNameChar ' ' = false by decide),
    ne_of_isNameChar plain (show isNameChar '\t' = false by decide),
    ne_of_isNameChar plain (show isNameChar '\n' = false by decide),
    ne_of_isNameChar plain (show isNameChar '\r' = false by decide)]

theorem isQuote_of_isNameChar {c : Char} (plain : isNameChar c = true) :
    Attribute.isQuote c = false := by
  simp [Attribute.isQuote, ne_of_isNameChar plain (show isNameChar '"' = false by decide),
    ne_of_isNameChar plain (show isNameChar '\x27' = false by decide)]

theorem inName_of_isNameChar {c : Char} (plain : isNameChar c = true) :
    Attribute.inName c = true := by
  simp [Attribute.inName, isSpace_of_isNameChar plain,
    ne_of_isNameChar plain (show isNameChar '=' = false by decide)]

/-! ## Where a tag ends -/

/-- What is read behind a text that is known to stand in front. -/
def prepend (front : List Char) (parts : List Char × List Char) : List Char × List Char :=
  (front ++ parts.1, parts.2)

private theorem map_cons_map_prepend {front : List Char} (c : Char)
    (found : Except Fault (List Char × List Char)) :
    (found.map (prepend front)).map (fun (body, behind) => (c :: body, behind)) =
      found.map (prepend (c :: front)) := by
  cases found <;> rfl

private theorem map_prepend_map_prepend {front rest : List Char}
    (found : Except Fault (List Char × List Char)) :
    (found.map (prepend rest)).map (prepend front) = found.map (prepend (front ++ rest)) := by
  cases found <;> simp [Except.map, prepend]

theorem tagBody_append_unquoted {front : List Char}
    (inside : ∀ c ∈ front, c ≠ '>' ∧ Attribute.isQuote c = false) (rest : List Char) :
    tagBody none (front ++ rest) = (tagBody none rest).map (prepend front) := by
  induction front with
  | nil => cases found : tagBody none rest <;> simp [Except.map, prepend, found]
  | cons c front ih =>
    obtain ⟨⟨bracket, quote⟩, later⟩ := List.forall_mem_cons.1 inside
    rw [List.cons_append, tagBody]
    simp only [bracket, quote, ↓reduceIte, Bool.false_eq_true, ih later]
    exact map_cons_map_prepend c _

theorem tagBody_append_quoted {quote : Char} {value : List Char} (inside : quote ∉ value)
    (rest : List Char) :
    tagBody (some quote) (value ++ quote :: rest) =
      (tagBody none rest).map (prepend (value ++ [quote])) := by
  induction value with
  | nil => cases found : tagBody none rest <;> simp [tagBody, Except.map, prepend, found]
  | cons c value ih =>
    rw [List.mem_cons, not_or] at inside
    rw [List.cons_append, tagBody]
    simp only [Ne.symm inside.1, ↓reduceIte, ih inside.2]
    exact map_cons_map_prepend c _

theorem tagBody_attributeText {entry : String × String} (plain : PlainName entry.1)
    (rest : List Char) :
    tagBody none (attributeText entry ++ rest) =
      (tagBody none rest).map (prepend (attributeText entry)) := by
  have unquoted : ∀ c ∈ ' ' :: entry.1.toList ++ ['='],
      c ≠ '>' ∧ Attribute.isQuote c = false := by
    intro c member
    simp only [List.mem_append, List.mem_cons, List.not_mem_nil, or_false] at member
    rcases member with (rfl | inside) | rfl
    · decide
    · have named := plain.2 c inside
      exact ⟨ne_of_isNameChar named (by decide), isQuote_of_isNameChar named⟩
    · decide
  have split : attributeText entry ++ rest =
      (' ' :: entry.1.toList ++ ['=']) ++ ('"' :: (escape entry.2.toList ++ '"' :: rest)) := by
    simp [attributeText]
  have opened (text : List Char) :
      tagBody none ('"' :: text) = (tagBody (some '"') text).map (prepend ['"']) := by
    rw [tagBody]
    rfl
  rw [split, tagBody_append_unquoted unquoted, opened,
    tagBody_append_quoted (not_mem_escape (by decide) (by decide)), map_prepend_map_prepend,
    map_prepend_map_prepend]
  congr 2
  simp [attributeText]

theorem tagBody_attributes {attributes : List (String × String)}
    (plain : ∀ key ∈ attributes.map (·.1), PlainName key) (rest : List Char) :
    tagBody none (attributes.flatMap attributeText ++ rest) =
      (tagBody none rest).map (prepend (attributes.flatMap attributeText)) := by
  induction attributes with
  | nil => cases found : tagBody none rest <;> simp [Except.map, prepend, found]
  | cons entry others ih =>
    obtain ⟨first, later⟩ := List.forall_mem_cons.1 plain
    rw [List.flatMap_cons, List.append_assoc, tagBody_attributeText first, ih later,
      map_prepend_map_prepend]

theorem tagBody_tagText {name : String} {attributes : List (String × String)}
    (plain : PlainTag name (attributes.map (·.1))) (rest : List Char) :
    tagBody none (tagText name attributes ++ rest) =
      (tagBody none rest).map (prepend (tagText name attributes)) := by
  obtain ⟨named, keys, _⟩ := plain
  have unquoted : ∀ c ∈ name.toList, c ≠ '>' ∧ Attribute.isQuote c = false := fun c member =>
    ⟨ne_of_isNameChar (named.2 c member) (by decide), isQuote_of_isNameChar (named.2 c member)⟩
  rw [tagText, List.append_assoc, tagBody_append_unquoted unquoted, tagBody_attributes keys,
    map_prepend_map_prepend]

/-! ## What a tag is -/

theorem tagText_ends {name : String} (plain : PlainName name)
    (attributes : List (String × String)) :
    (∃ c rest, tagText name attributes = c :: rest ∧ isNameChar c = true) ∧
      ∃ c rest, (tagText name attributes).reverse = c :: rest ∧ c ≠ '/' := by
  constructor
  · obtain ⟨c, rest, same⟩ := List.exists_cons_of_ne_nil plain.1
    exact ⟨c, _, by rw [tagText, same]; rfl, plain.2 c (same ▸ List.mem_cons_self)⟩
  · rcases List.eq_nil_or_concat attributes with rfl | ⟨others, entry, rfl⟩
    · obtain ⟨c, rest, same⟩ :=
        List.exists_cons_of_ne_nil (fun empty => plain.1 (List.reverse_eq_nil_iff.1 empty))
      refine ⟨c, rest, by simpa [tagText] using same, ?_⟩
      have member : c ∈ name.toList := List.mem_reverse.1 (same ▸ List.mem_cons_self)
      exact ne_of_isNameChar (plain.2 c member) (by decide)
    · have closed : tagText name (others.concat entry) =
          (name.toList ++ others.flatMap attributeText ++
            (' ' :: entry.1.toList ++ '=' :: '"' :: escape entry.2.toList)) ++ ['"'] := by
        simp [tagText, attributeText]
      rw [closed, List.reverse_append]
      exact ⟨'"', _, rfl, by decide⟩

theorem eventOfTag_tagText {name : String} {attributes : List (String × String)}
    (plain : PlainName name) :
    eventOfTag (tagText name attributes) = .opening ⟨tagText name attributes⟩ := by
  obtain ⟨⟨c, rest, first, named⟩, d, back, last, other⟩ := tagText_ends plain attributes
  unfold eventOfTag
  split
  · next name' same =>
    rw [first] at same
    cases same
    cases named
  · split
    · next reversed same =>
      rw [last] at same
      cases same
      exact absurd rfl other
    · rfl

theorem eventOfTag_tagText_slash {name : String} {attributes : List (String × String)}
    (plain : PlainName name) :
    eventOfTag (tagText name attributes ++ ['/']) = .selfClosing ⟨tagText name attributes⟩ := by
  obtain ⟨⟨c, rest, first, named⟩, _⟩ := tagText_ends plain attributes
  unfold eventOfTag
  split
  · next name' same =>
    rw [first] at same
    cases same
    cases named
  · rw [List.reverse_append]
    simp

/-! ## The attributes of a tag -/

namespace Attribute

theorem readValue_written (whole : Nat) (value : String) (rest : List Char) :
    readValue whole ('"' :: (escape value.toList ++ '"' :: rest)) =
      .ok (escape value.toList, rest) := by
  have absent : '"' ∉ escape value.toList := not_mem_escape (by decide) (by decide)
  simp [readValue, isSpace, isQuote, Text.halves?_append absent]

theorem read_written {key : String} (plain : PlainName key) {first : Char} {more : List Char}
    (same : key.toList = first :: more) {earlier : List Attribute}
    (fresh : ∀ old ∈ earlier, old.name ≠ key.toList) (whole : Nat) (value : String)
    (rest : List Char) :
    let text := more ++ '=' :: '"' :: (escape value.toList ++ '"' :: rest)
    read whole earlier first text =
      .ok (⟨key.toList, whole - byteCount (first :: text), escape value.toList⟩, rest) := by
  intro text
  have inside : ∀ c ∈ more, inName c = true := fun c member =>
    inName_of_isNameChar (plain.2 c (same ▸ List.mem_cons_of_mem _ member))
  have unused : earlier.find? (·.name = first :: more) = none := by
    rw [List.find?_eq_none]
    intro old member
    simpa [same] using fresh old member
  have stop : inName '=' = false := by decide
  have unspaced : isSpace '=' = false := by decide
  simp only [text, read, List.takeWhile_append_of_pos inside, List.dropWhile_append_of_pos inside,
    stop, unspaced, Bool.false_eq_true, not_false_eq_true, List.takeWhile_cons_of_neg,
    List.dropWhile_cons_of_neg, List.append_nil, unused, readValue_written, same]
  rfl

theorem readAll_of_read {whole : Nat} {earlier : List Attribute} {text rest later : List Char}
    {first : Char} {found : Attribute} (spaces : text.dropWhile isSpace = first :: rest)
    (done : read whole earlier first rest = .ok (found, later)) :
    readAll whole earlier text =
      (found :: (readAll whole (earlier ++ [found]) later).1,
        (readAll whole (earlier ++ [found]) later).2) := by
  rw [readAll.eq_def]
  split
  · next empty =>
    rw [spaces] at empty
    cases empty
  · next spaces' =>
    rw [spaces] at spaces'
    cases spaces'
    split
    · next done' =>
      rw [done] at done'
      cases done'
    · next done' =>
      rw [done] at done'
      cases done'
      rfl

/-- Written attributes are all read, in order and with their values. -/
theorem readAll_written {attributes : List (String × String)}
    (plain : ∀ key ∈ attributes.map (·.1), PlainName key)
    (distinct : (attributes.map (·.1)).Nodup) (whole : Nat) (earlier : List Attribute)
    (fresh : ∀ key ∈ attributes.map (·.1), ∀ old ∈ earlier, old.name ≠ key.toList) :
    ∃ found, readAll whole earlier (attributes.flatMap attributeText) = (found, none) ∧
      found.map (fun read => (read.name, read.value)) =
        attributes.map fun entry => (entry.1.toList, escape entry.2.toList) := by
  induction attributes generalizing earlier with
  | nil => exact ⟨[], by rw [readAll.eq_def]; rfl, rfl⟩
  | cons entry others ih =>
    obtain ⟨key, value⟩ := entry
    simp only [List.map_cons, List.nodup_cons, List.forall_mem_cons] at plain distinct fresh
    obtain ⟨first, more, same⟩ := List.exists_cons_of_ne_nil plain.1.1
    have unspaced : isSpace first = false :=
      isSpace_of_isNameChar (plain.1.2 first (same ▸ List.mem_cons_self))
    have step := read_written plain.1 same fresh.1 whole value (others.flatMap attributeText)
    dsimp only at step
    generalize whole - byteCount _ = start at step
    have laterFresh : ∀ other ∈ others.map (·.1), ∀ old ∈ earlier ++
        [⟨key.toList, start, escape value.toList⟩], old.name ≠ other.toList := by
      intro other member old known
      rcases List.mem_append.1 known with before | last
      · exact fresh.2 other member old before
      · rw [List.mem_singleton.1 last]
        intro equal
        exact distinct.1 (String.toList_inj.1 equal ▸ member)
    obtain ⟨found, scanned, listed⟩ := ih plain.2 distinct.2 _ laterFresh
    have written : ((key, value) :: others).flatMap attributeText =
        ' ' :: first :: (more ++ '=' :: '"' ::
          (escape value.toList ++ '"' :: others.flatMap attributeText)) := by
      simp [attributeText, same]
    refine ⟨⟨key.toList, start, escape value.toList⟩ :: found, ?_, by simp [listed]⟩
    have spaces : (((key, value) :: others).flatMap attributeText).dropWhile isSpace =
        first :: (more ++ '=' :: '"' ::
          (escape value.toList ++ '"' :: others.flatMap attributeText)) := by
      rw [written, List.dropWhile_cons_of_pos (by decide),
        List.dropWhile_cons_of_neg (by simp [unspaced])]
    rw [readAll_of_read spaces step, scanned]

/-- Looking a name up among the read attributes is looking it up among the
written ones. -/
theorem find?_written {attributes : List (String × String)} {found : List Attribute}
    (listed : found.map (fun read => (read.name, read.value)) =
      attributes.map fun entry => (entry.1.toList, escape entry.2.toList)) (key : String) :
    (found.find? (·.name = key.toList)).map (·.value) =
      (attributes.lookup key).map fun value => escape value.toList := by
  induction attributes generalizing found with
  | nil =>
    rw [List.map_nil, List.map_eq_nil_iff] at listed
    rw [listed]
    rfl
  | cons entry others ih =>
    obtain ⟨name, value⟩ := entry
    obtain ⟨read, rest, rfl, same, later⟩ := List.map_eq_cons_iff.1 listed
    simp only [Prod.mk.injEq] at same
    by_cases wanted : key = name
    · subst wanted
      simp [same.1, same.2]
    · have other : read.name ≠ key.toList := by
        rw [same.1]
        exact fun equal => wanted (String.toList_inj.1 equal.symm)
      have unequal : (key == name) = false := by simpa using wanted
      simp only [other, decide_false, Bool.false_eq_true, not_false_eq_true,
        List.find?_cons_of_neg, List.lookup_cons, unequal, ih later]

end Attribute

namespace Tag

theorem name_written {name : String} (plain : PlainName name)
    (attributes : List (String × String)) :
    (⟨tagText name attributes⟩ : Tag).name = name.toList ∧
      (tagText name attributes).dropWhile (!isSpace ·) = attributes.flatMap attributeText := by
  have inside : ∀ c ∈ name.toList, (!isSpace c) = true := fun c member => by
    simp [isSpace_of_isNameChar (plain.2 c member)]
  rw [Tag.name, tagText, List.takeWhile_append_of_pos inside, List.dropWhile_append_of_pos inside]
  cases attributes with
  | nil => simp
  | cons entry others => simp [attributeText, isSpace]

/-- A written attribute has its escaped value, and no other attribute is found. -/
theorem value?_written {name : String} {attributes : List (String × String)}
    (plain : PlainTag name (attributes.map (·.1))) (key : String) :
    (⟨tagText name attributes⟩ : Tag).value? key.toList =
      .ok ((attributes.lookup key).map fun value => escape value.toList) := by
  obtain ⟨named, keys, distinct⟩ := plain
  obtain ⟨found, scanned, listed⟩ := Attribute.readAll_written keys distinct
    (byteCount (tagText name attributes)) [] (by simp)
  have looked := Attribute.find?_written listed key
  have read : (⟨tagText name attributes⟩ : Tag).attributes = (found, none) := by
    rw [Tag.attributes, (name_written named attributes).2, scanned]
  rw [value?, read, ← looked]
  cases search : found.find? (·.name = key.toList) with
  | none => simp only [search]; rfl
  | some first => simp only [search]; rfl

end Tag

end PeerNet.Markup
