import PeerNet.Proofs.Markup.Scan
import PeerNet.Proofs.Outcome

/-!
# Elements left open

Which elements are open at the end of a text, and why a cut shows: a text that
stops within a tag, a reference or an instruction has a fault, and between
these the elements that it did not close are still open.
-/

set_option autoImplicit false

namespace PeerNet.Markup

/-- The elements that are open behind pieces, the innermost first. -/
def nestAll (opened : List (List Char)) : List Event → Except Fault (List (List Char))
  | [] => .ok opened
  | event :: rest =>
    match nest opened event with
    | .error fault => .error fault
    | .ok inner => nestAll inner rest

/-- The pieces of a text without a fault close no element but the innermost one. -/
theorem exists_nestAll_of_scanInside {opened : List (List Char)} {text : List Char}
    (clean : (scanInside opened text).2 = none) :
    ∃ inner, nestAll opened (scanInside opened text).1 = .ok inner := by
  fun_induction scanInside opened text with
  | case1 opened => exact ⟨opened, rfl⟩
  | case2 => cases clean
  | case3 => cases clean
  | case4 opened c rest event behind found inner nested _ events fault scanned ih =>
    rw [scanned] at ih
    obtain ⟨last, all⟩ := ih clean
    exact ⟨last, by simpa only [nestAll, nested] using all⟩

theorem exists_nestAll_of_scan {document : List Char} (clean : (scan document).2 = none) :
    ∃ inner, nestAll [] (scan document).1 = .ok inner := by
  unfold scan at clean ⊢
  split at clean
  · exact exists_nestAll_of_scanInside clean
  · exact exists_nestAll_of_scanInside clean

/-- The elements that are open at the end of a text, or its first fault. -/
def openAtEnd (opened : List (List Char)) (text : List Char) :
    Except Fault (List (List Char)) :=
  match (scanInside opened text).2 with
  | some fault => .error fault
  | none => nestAll opened (scanInside opened text).1

@[simp] theorem openAtEnd_nil (opened : List (List Char)) :
    openAtEnd opened [] = .ok opened := by
  rw [openAtEnd, scanInside_nil]
  rfl

theorem openAtEnd_piece {opened inner : List (List Char)} {c : Char} {rest behind : List Char}
    {event : Event} (found : next c rest = .ok (event, behind))
    (nested : nest opened event = .ok inner) :
    openAtEnd opened (c :: rest) = openAtEnd inner behind := by
  rw [openAtEnd, scanInside_cons found nested, openAtEnd]
  simp only [nestAll, nested]

theorem openAtEnd_fault {c : Char} {rest : List Char} {fault : Fault}
    (found : next c rest = .error fault) (opened : List (List Char)) :
    openAtEnd opened (c :: rest) = .error fault := by
  have scanned : scanInside opened (c :: rest) = ([], some fault) := by
    rw [scanInside.eq_def]
    simp only
    split
    · next found' =>
      rw [found] at found'
      cases found'
      rfl
    · next found' =>
      rw [found] at found'
      cases found'
  rw [openAtEnd, scanned]

theorem openAtEnd_run (opened : List (List Char)) (text : List Char) :
    openAtEnd opened text = openAtEnd opened (afterRun text) := by
  cases text with
  | nil => rfl
  | cons c rest =>
    cases mark : endsText c with
    | true => simp [afterRun, mark]
    | false => exact openAtEnd_piece (next_text mark rest) rfl

theorem openAtEnd_skip {front : List Char} (plain : ∀ c ∈ front, endsText c = false)
    (opened : List (List Char)) (rest : List Char) :
    openAtEnd opened (front ++ rest) = openAtEnd opened rest := by
  rw [openAtEnd_run opened (front ++ rest), openAtEnd_run opened rest, afterRun_append plain]

/-! ## Pieces -/

/-- True of the texts that have a fault wherever they are cut. -/
def Unbroken (text : List Char) : Prop :=
  ∀ front missing, front ++ missing = text → front ≠ [] → missing ≠ [] →
    ∀ opened, ∃ fault, openAtEnd opened front = .error fault

theorem unbroken_cons {c : Char} {text : List Char}
    (failed : ∀ front missing, front ++ missing = text → missing ≠ [] →
      ∃ fault, next c front = .error fault) : Unbroken (c :: text) := by
  intro front missing split filled short opened
  cases front with
  | nil => exact absurd rfl filled
  | cons first rest =>
    obtain ⟨same, later⟩ := List.cons.inj split
    obtain ⟨fault, found⟩ := failed rest missing later short
    exact ⟨fault, same ▸ openAtEnd_fault found opened⟩

/-- A cut takes at least the last character away. -/
theorem mem_of_cut {front missing text : List Char} {last : Char}
    (split : front ++ missing = text ++ [last]) (short : missing ≠ []) {c : Char}
    (member : c ∈ front) : c ∈ text := by
  rcases List.eq_nil_or_concat missing with none | ⟨others, final, rfl⟩
  · exact absurd none short
  · rw [List.concat_eq_append, ← List.append_assoc] at split
    obtain ⟨whole, _⟩ := List.append_inj' split rfl
    exact whole ▸ List.mem_append_left others member

/-- A tag that is cut is not closed, since what closes it is its last character. -/
theorem tagBody_cut {quoted : Option Char} {front missing body : List Char}
    (found : tagBody quoted (front ++ missing) = .ok (body, [])) (short : missing ≠ []) :
    ∃ fault, tagBody quoted front = .error fault := by
  induction front generalizing quoted body with
  | nil =>
    cases quoted with
    | none => exact ⟨_, rfl⟩
    | some quote => exact ⟨_, rfl⟩
  | cons c front ih =>
    have step {inside : Option Char} {text : List Char}
        {f : List Char × List Char → List Char × List Char} (kept : ∀ parts, (f parts).2 = parts.2)
        (later : (tagBody inside (front ++ missing)).map f = .ok (text, [])) :
        ∃ fault, (tagBody inside front).map f = .error fault := by
      obtain ⟨⟨more, behind⟩, cut, same⟩ := exists_of_map_eq_ok later
      have none : behind = [] := (kept (more, behind)).symm.trans (congrArg Prod.snd same)
      obtain ⟨fault, failed⟩ := ih (none ▸ cut)
      exact ⟨fault, by rw [failed]; rfl⟩
    rw [List.cons_append] at found
    cases quoted with
    | none =>
      simp only [tagBody] at found ⊢
      split at found
      · have none : front ++ missing = [] := congrArg Prod.snd (Except.ok.inj found)
        exact absurd (List.append_eq_nil_iff.1 none).2 short
      · next other =>
        rw [if_neg other]
        exact step (fun _ => rfl) found
    | some quote =>
      simp only [tagBody] at found ⊢
      exact step (fun _ => rfl) found

theorem unbroken_tag {c : Char} {text : List Char} {event : Event} (other : c ≠ '!' ∧ c ≠ '?')
    (found : next '<' (c :: text) = .ok (event, [])) : Unbroken ('<' :: c :: text) := by
  rw [next_tag other] at found
  obtain ⟨⟨body, behind⟩, cut, same⟩ := exists_of_map_eq_ok found
  cases same
  apply unbroken_cons
  intro front missing split short
  cases front with
  | nil => exact ⟨.unclosedTag, rfl⟩
  | cons first rest =>
    have same : first = c := (List.cons.inj split).1
    obtain ⟨fault, failed⟩ := tagBody_cut (split ▸ cut) short
    exact ⟨fault, by rw [next_tag (same ▸ other), failed]; rfl⟩

theorem unbroken_opening {name : String} {attributes : List (String × String)}
    (plain : PlainTag name (attributes.map (·.1))) : Unbroken (openingText name attributes) := by
  have found := next_opening plain []
  obtain ⟨⟨c, more, first, named⟩, _⟩ := tagText_ends plain.1 attributes
  have text : tagText name attributes ++ ['>'] = c :: (more ++ ['>']) := by
    rw [first, List.cons_append]
  rw [text] at found
  rw [openingText, List.cons_append, text]
  exact unbroken_tag ⟨ne_of_isNameChar named (by decide), ne_of_isNameChar named (by decide)⟩ found

theorem unbroken_selfClosing {name : String} {attributes : List (String × String)}
    (plain : PlainTag name (attributes.map (·.1))) :
    Unbroken (selfClosingText name attributes) := by
  have found := next_selfClosing plain []
  obtain ⟨⟨c, more, first, named⟩, _⟩ := tagText_ends plain.1 attributes
  have text : tagText name attributes ++ ['/', '>'] = c :: (more ++ ['/', '>']) := by
    rw [first, List.cons_append]
  rw [text] at found
  rw [selfClosingText, List.cons_append, text]
  exact unbroken_tag ⟨ne_of_isNameChar named (by decide), ne_of_isNameChar named (by decide)⟩ found

theorem unbroken_closing {name : String} (plain : PlainName name) :
    Unbroken (closingText name) :=
  unbroken_tag (by decide) (next_closing plain [])

theorem unbroken_reference {name : List Char} (known : name ∈ entityNames) :
    Unbroken ('&' :: name ++ [';']) := by
  apply unbroken_cons
  intro front missing split short
  have inside : ∀ c ∈ front, (c != ';' && c != '&' && c != '<') = true := by
    intro c member
    obtain ⟨unmarked, unescaped, _⟩ :=
      plain_of_mem_entityNames known c (mem_of_cut split short member)
    simp only [isReferenceMark, isEscaped, Bool.or_eq_false_iff, beq_eq_false_iff_ne]
      at unmarked unescaped
    simp [unmarked, unescaped]
  have dropped : front.dropWhile (fun c => c != ';' && c != '&' && c != '<') = [] := by
    rw [← List.append_nil front, List.dropWhile_append_of_pos inside]
    rfl
  exact ⟨.unclosedReference, by simp [next, dropped]⟩

/-- An instruction that is cut is not closed if its first right bracket closes it. -/
theorem unbroken_instruction {content : List Char} (unclosed : '>' ∉ content) :
    Unbroken ('<' :: '?' :: content ++ ['?', '>']) := by
  apply unbroken_cons
  intro front missing split short
  cases front with
  | nil => exact ⟨.unclosedTag, rfl⟩
  | cons mark rest =>
    obtain ⟨rfl, later⟩ := List.cons.inj split
    have absent : '>' ∉ rest := by
      intro member
      have whole : rest ++ missing = (content ++ ['?']) ++ ['>'] := by
        rw [List.append_assoc]
        exact later
      rcases List.mem_append.1 (mem_of_cut whole short member) with early | late
      · exact unclosed early
      · cases List.mem_singleton.1 late
    have unfound : Text.around? "?>".toList rest = none := by
      cases found : Text.around? "?>".toList rest with
      | none => rfl
      | some parts =>
        obtain ⟨before, behind⟩ := parts
        rw [Text.around?_eq_append found] at absent
        exact absurd (by simp) absent
    have failed : ∃ fault, instruction rest = .error fault := by
      unfold instruction
      split
      · exact ⟨_, rfl⟩
      · rw [unfound]
        exact ⟨_, rfl⟩
    obtain ⟨fault, failed⟩ := failed
    exact ⟨fault, by simpa [next] using failed⟩

/-! ## Texts inside elements -/

/-- A text that leads from some open elements to others. Wherever it is cut,
not everything is closed. -/
structure Leads (opened inner : List (List Char)) (text : List Char) : Prop where
  through : ∀ rest, openAtEnd opened (text ++ rest) = openAtEnd inner rest
  cut : ∀ front missing, front ++ missing = text → missing ≠ [] → openAtEnd opened front ≠ .ok []

theorem leads_nil (opened : List (List Char)) : Leads opened opened [] := by
  refine ⟨fun rest => rfl, ?_⟩
  intro front missing split short
  exact absurd (List.append_eq_nil_iff.1 split).2 short

theorem Leads.append {opened middle inner : List (List Char)} {first last : List Char}
    (before : Leads opened middle first) (behind : Leads middle inner last) :
    Leads opened inner (first ++ last) := by
  constructor
  · intro rest
    rw [List.append_assoc, before.through, behind.through]
  · intro front missing split short
    rcases List.append_eq_append_iff.1 split with ⟨more, rfl, rfl⟩ | ⟨more, rfl, rfl⟩
    · cases more with
      | nil =>
        have stopped := before.through []
        rw [List.append_nil, List.append_nil] at stopped
        rw [stopped]
        exact behind.cut [] _ rfl short
      | cons c more => exact before.cut front _ rfl (List.cons_ne_nil c more)
    · rw [before.through]
      exact behind.cut more missing rfl short

theorem leads_flatMap {α : Type} {opened : List (List Char)} {items : List α}
    {text : α → List Char} (one : ∀ item ∈ items, Leads opened opened (text item)) :
    Leads opened opened (items.flatMap text) := by
  induction items with
  | nil => exact leads_nil opened
  | cons item items ih =>
    obtain ⟨first, later⟩ := List.forall_mem_cons.1 one
    rw [List.flatMap_cons]
    exact first.append (ih later)

theorem leads_of_unbroken {opened inner : List (List Char)} {text : List Char}
    (unbroken : Unbroken text) (inside : opened ≠ [])
    (through : ∀ rest, openAtEnd opened (text ++ rest) = openAtEnd inner rest) :
    Leads opened inner text := by
  refine ⟨through, ?_⟩
  intro front missing split short
  by_cases filled : front = []
  · rw [filled, openAtEnd_nil]
    exact fun same => inside (Except.ok.inj same)
  · obtain ⟨fault, failed⟩ := unbroken front missing split filled short opened
    rw [failed]
    intro same
    cases same

theorem leads_text {opened : List (List Char)} (inside : opened ≠ []) {text : List Char}
    (plain : ∀ c ∈ text, endsText c = false) : Leads opened opened text := by
  refine ⟨openAtEnd_skip plain opened, ?_⟩
  intro front missing split _
  have skipped := openAtEnd_skip (fun c member => plain c (split ▸ List.mem_append_left _ member))
    opened []
  rw [List.append_nil] at skipped
  rw [skipped, openAtEnd_nil]
  exact fun same => inside (Except.ok.inj same)

theorem leads_escape {opened : List (List Char)} (inside : opened ≠ []) (text : List Char) :
    Leads opened opened (escape text) := by
  apply leads_flatMap
  intro c _
  cases escaped : isEscaped c with
  | true =>
    obtain ⟨name, known, written, _⟩ := escapeCharacter_of_isEscaped escaped
    rw [written]
    refine leads_of_unbroken (unbroken_reference known) inside fun rest => ?_
    rw [List.append_assoc]
    exact openAtEnd_piece (next_reference known rest) rfl
  | false =>
    rw [escapeCharacter_of_not_isEscaped escaped]
    exact leads_text inside (by simpa using endsText_of_not_isEscaped escaped)

theorem leads_opening {name : String} {attributes : List (String × String)}
    (plain : PlainTag name (attributes.map (·.1))) {opened : List (List Char)}
    (inside : opened ≠ []) :
    Leads opened (name.toList :: opened) (openingText name attributes) := by
  refine leads_of_unbroken (unbroken_opening plain) inside fun rest => ?_
  have text : openingText name attributes ++ rest =
      '<' :: (tagText name attributes ++ '>' :: rest) := by
    simp [openingText]
  have nested : nest opened (.opening ⟨tagText name attributes⟩) = .ok (name.toList :: opened) := by
    rw [nest, (Tag.name_written plain.1 attributes).1]
  rw [text]
  exact openAtEnd_piece (next_opening plain rest) nested

theorem leads_selfClosing {name : String} {attributes : List (String × String)}
    (plain : PlainTag name (attributes.map (·.1))) {opened : List (List Char)}
    (inside : opened ≠ []) : Leads opened opened (selfClosingText name attributes) := by
  refine leads_of_unbroken (unbroken_selfClosing plain) inside fun rest => ?_
  have text : selfClosingText name attributes ++ rest =
      '<' :: (tagText name attributes ++ '/' :: '>' :: rest) := by
    simp [selfClosingText]
  rw [text]
  exact openAtEnd_piece (next_selfClosing plain rest) rfl

theorem leads_closing {name : String} (plain : PlainName name) (opened : List (List Char)) :
    Leads (name.toList :: opened) opened (closingText name) := by
  refine leads_of_unbroken (unbroken_closing plain) (List.cons_ne_nil _ _) fun rest => ?_
  have text : closingText name ++ rest = '<' :: '/' :: (name.toList ++ '>' :: rest) := by
    simp [closingText]
  have nested : nest (name.toList :: opened) (.closing name.toList) = .ok opened := by
    simp [nest]
  rw [text]
  exact openAtEnd_piece (next_closing plain rest) nested

end PeerNet.Markup
