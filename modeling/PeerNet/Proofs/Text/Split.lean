import PeerNet.Text.Split

/-!
# Cuts and joins

Where the text in front does not hold the separator or the word itself, a cut
finds the place where it was put in. A join holds what its segments hold.
-/

set_option autoImplicit false

namespace PeerNet.Text

theorem halves?_append {separator : Char} {before : List Char} (absent : separator ∉ before)
    (behind : List Char) :
    halves? separator (before ++ separator :: behind) = some (before, behind) := by
  induction before with
  | nil => simp [halves?]
  | cons c before ih =>
    rw [List.mem_cons, not_or] at absent
    simp only [List.cons_append, halves?, Ne.symm absent.1, ↓reduceIte, ih absent.2,
      Option.map_some]

theorem not_mem_of_halves? {separator : Char} {text before behind : List Char}
    (found : halves? separator text = some (before, behind)) : separator ∉ before := by
  induction text generalizing before with
  | nil => simp [halves?] at found
  | cons c rest ih =>
    rw [halves?] at found
    split at found
    · cases found
      exact List.not_mem_nil
    · next other =>
      obtain ⟨⟨before', behind'⟩, later, same⟩ := Option.map_eq_some_iff.1 found
      cases same
      rw [List.mem_cons, not_or]
      exact ⟨Ne.symm other, ih later⟩

theorem halves?_eq_none_iff {separator : Char} {text : List Char} :
    halves? separator text = none ↔ separator ∉ text := by
  constructor
  · intro none member
    obtain ⟨before, behind, rfl, absent⟩ := List.eq_append_cons_of_mem member
    simp [halves?_append absent] at none
  · intro absent
    cases found : halves? separator text with
    | none => rfl
    | some parts => simp [halves?_eq_append found] at absent

theorem after?_append (start behind : List Char) :
    after? start (start ++ behind) = some behind := by
  induction start with
  | nil => rfl
  | cons c start ih => simpa [after?] using ih

theorem withoutEnding?_eq_some_iff {ending text rest : List Char} :
    withoutEnding? ending text = some rest ↔ text = rest ++ ending := by
  unfold withoutEnding?
  constructor
  · intro found
    obtain ⟨front, cut, rfl⟩ := Option.map_eq_some_iff.1 found
    simpa using congrArg List.reverse (after?_eq_append cut)
  · rintro rfl
    simp [after?_append]

theorem around?_append {first : Char} {word before : List Char} (absent : first ∉ before)
    (behind : List Char) :
    around? (first :: word) (before ++ (first :: word ++ behind)) = some (before, behind) := by
  induction before with
  | nil =>
    have found := after?_append (first :: word) behind
    rw [List.cons_append] at found ⊢
    simp only [List.nil_append, around?, found]
  | cons c before ih =>
    rw [List.mem_cons, not_or] at absent
    rw [List.cons_append, around?]
    simp only [after?, absent.1, ↓reduceIte, ih absent.2, Option.map_some]

/-! ## Segments -/

theorem segments_eq_cons (separator : Char) (text : List Char) :
    ∃ first others, segments separator text = first :: others := by
  cases text with
  | nil => exact ⟨[], [], rfl⟩
  | cons c rest =>
    rw [segments]
    split
    · exact ⟨[], _, rfl⟩
    · split
      · exact ⟨[c], [], rfl⟩
      · next first others _ => exact ⟨c :: first, others, rfl⟩

theorem not_mem_segments {separator : Char} {text segment : List Char}
    (member : segment ∈ segments separator text) : separator ∉ segment := by
  induction text generalizing segment with
  | nil =>
    rw [List.mem_singleton.1 member]
    exact List.not_mem_nil
  | cons c rest ih =>
    rw [segments] at member
    split at member
    · rcases List.mem_cons.1 member with rfl | later
      · exact List.not_mem_nil
      · exact ih later
    · next other =>
      obtain ⟨first, others, cut⟩ := segments_eq_cons separator rest
      rw [cut] at member ih
      rcases List.mem_cons.1 member with rfl | later
      · rw [List.mem_cons, not_or]
        exact ⟨Ne.symm other, ih List.mem_cons_self⟩
      · exact ih (List.mem_cons_of_mem first later)

theorem mem_of_mem_segments {separator c : Char} {text segment : List Char}
    (member : segment ∈ segments separator text) (inside : c ∈ segment) : c ∈ text := by
  induction text generalizing segment with
  | nil =>
    rw [List.mem_singleton.1 member] at inside
    cases inside
  | cons d rest ih =>
    rw [segments] at member
    split at member
    · rcases List.mem_cons.1 member with rfl | later
      · cases inside
      · exact List.mem_cons_of_mem d (ih later inside)
    · obtain ⟨first, others, cut⟩ := segments_eq_cons separator rest
      rw [cut] at member ih
      rcases List.mem_cons.1 member with rfl | later
      · rcases List.mem_cons.1 inside with rfl | within
        · exact List.mem_cons_self
        · exact List.mem_cons_of_mem d (ih List.mem_cons_self within)
      · exact List.mem_cons_of_mem d (ih (List.mem_cons_of_mem first later) inside)

/-- A separator parts the segments before it from those behind it. -/
theorem segments_append_cons (separator : Char) (before behind : List Char) :
    segments separator (before ++ separator :: behind) =
      segments separator before ++ segments separator behind := by
  induction before with
  | nil => simp [segments]
  | cons c before ih =>
    by_cases same : c = separator
    · simp [segments, same, ih]
    · obtain ⟨first, others, cut⟩ := segments_eq_cons separator before
      simp [segments, same, ih, cut]

theorem segments_eq_singleton {separator : Char} {text : List Char} (absent : separator ∉ text) :
    segments separator text = [text] := by
  induction text with
  | nil => rfl
  | cons c rest ih =>
    rw [List.mem_cons, not_or] at absent
    rw [segments, if_neg (Ne.symm absent.1), ih absent.2]

/-- A segment without the separator is cut off whole. -/
theorem segments_append {separator : Char} {segment : List Char} (absent : separator ∉ segment)
    (rest : List Char) :
    segments separator (segment ++ separator :: rest) = segment :: segments separator rest := by
  rw [segments_append_cons, segments_eq_singleton absent, List.singleton_append]

theorem segments_join {separator : Char} {parts : List (List Char)} (filled : parts ≠ [])
    (absent : ∀ part ∈ parts, separator ∉ part) :
    segments separator (join separator parts) = parts := by
  induction parts with
  | nil => exact absurd rfl filled
  | cons part others ih =>
    obtain ⟨first, later⟩ := List.forall_mem_cons.1 absent
    cases others with
    | nil => exact segments_eq_singleton first
    | cons next others =>
      have joined : join separator (part :: next :: others) =
          part ++ separator :: join separator (next :: others) := rfl
      rw [joined, segments_append first, ih (List.cons_ne_nil next others) later]

/-- A text without the separator only makes the last segment longer. -/
theorem exists_segments_append (separator : Char) (front : List Char) :
    ∃ earlier last, ∀ behind, separator ∉ behind →
      segments separator (front ++ behind) = earlier ++ [last ++ behind] := by
  induction front with
  | nil => exact ⟨[], [], fun _ absent => segments_eq_singleton absent⟩
  | cons c rest ih =>
    obtain ⟨earlier, last, cut⟩ := ih
    by_cases same : c = separator
    · refine ⟨[] :: earlier, last, fun behind absent => ?_⟩
      simp [segments, same, cut behind absent]
    · cases earlier with
      | nil =>
        refine ⟨[], c :: last, fun behind absent => ?_⟩
        simp [segments, same, cut behind absent]
      | cons first others =>
        refine ⟨(c :: first) :: others, last, fun behind absent => ?_⟩
        simp [segments, same, cut behind absent]

theorem mem_join {separator c : Char} {segments : List (List Char)}
    (member : c ∈ join separator segments) :
    c = separator ∨ ∃ segment ∈ segments, c ∈ segment := by
  induction segments with
  | nil => cases member
  | cons segment others ih =>
    cases others with
    | nil => exact .inr ⟨segment, List.mem_cons_self, member⟩
    | cons next others =>
      have joined : join separator (segment :: next :: others) =
          segment ++ separator :: join separator (next :: others) := rfl
      rw [joined, List.mem_append, List.mem_cons] at member
      rcases member with inside | same | later
      · exact .inr ⟨segment, List.mem_cons_self, inside⟩
      · exact .inl same
      · rcases ih later with same | ⟨found, known, inside⟩
        · exact .inl same
        · exact .inr ⟨found, List.mem_cons_of_mem _ known, inside⟩

end PeerNet.Text
