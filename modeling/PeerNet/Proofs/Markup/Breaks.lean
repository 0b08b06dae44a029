import PeerNet.Markup.Event
import PeerNet.Proofs.Text.Blank
import PeerNet.Proofs.Text.Split

/-!
# Unified line breaks

The text of a document has its line breaks unified: any of them becomes a line
feed. Unification works on the two sides of any other character apart, so that
it leaves separators in their places and tight texts tight.
-/

set_option autoImplicit false

namespace PeerNet.Markup

/-- A character that does not start a break of two characters is unified alone. -/
theorem unifyBreaks_cons {c : Char} {rest : List Char}
    (single : c = '\r' → ∀ d more, rest = d :: more → d ≠ '\n' ∧ d ≠ '\u0085') :
    unifyBreaks (c :: rest) =
      (if c = '\r' ∨ c = '\u0085' ∨ c = '\u2028' then '\n' else c) :: unifyBreaks rest := by
  rw [unifyBreaks.eq_def]
  split
  · next same => cases same
  · next same =>
    cases same
    exact absurd rfl (single rfl _ _ rfl).1
  · next same =>
    cases same
    exact absurd rfl (single rfl _ _ rfl).2
  · next same =>
    cases same
    rfl

theorem unifyBreaks_eq_self {text : List Char}
    (steady : ∀ c ∈ text, c ≠ '\r' ∧ c ≠ '\u0085' ∧ c ≠ '\u2028') : unifyBreaks text = text := by
  induction text with
  | nil => rfl
  | cons c rest ih =>
    obtain ⟨⟨notReturn, notNext, notSeparator⟩, later⟩ := List.forall_mem_cons.1 steady
    rw [unifyBreaks_cons fun same => absurd same notReturn, ih later]
    simp [notReturn, notNext, notSeparator]

def isBreak (c : Char) : Bool :=
  c == '\n' || c == '\r' || c == '\u0085' || c == '\u2028'

theorem isBreak_of_not_isBlank {c : Char} (unblank : Text.isBlank c = false) :
    isBreak c = false := by
  simp only [isBreak, Bool.or_eq_false_iff, beq_eq_false_iff_ne]
  refine ⟨⟨⟨?_, ?_⟩, ?_⟩, ?_⟩
  all_goals
    rintro rfl
    cases unblank

theorem ne_of_not_isBreak {c : Char} (plain : isBreak c = false) :
    c ≠ '\n' ∧ c ≠ '\r' ∧ c ≠ '\u0085' ∧ c ≠ '\u2028' := by
  simpa [isBreak, and_assoc] using plain

theorem unifyBreaks_pair {d : Char} (second : d = '\n' ∨ d = '\u0085') (text : List Char) :
    unifyBreaks ('\r' :: d :: text) = '\n' :: unifyBreaks text := by
  rcases second with rfl | rfl <;> rfl

/-- True of a character that does not start a break of two characters. -/
def StandsAlone (c : Char) (rest : List Char) : Prop :=
  c = '\r' → ∀ d more, rest = d :: more → d ≠ '\n' ∧ d ≠ '\u0085'

/-- A text is taken apart as its breaks are: by pairs that are one break, and by
characters that stand alone. -/
theorem unifyBreaks_cases {motive : List Char → Prop} (nil : motive [])
    (pair : ∀ d rest, d = '\n' ∨ d = '\u0085' → motive rest → motive ('\r' :: d :: rest))
    (single : ∀ c rest, StandsAlone c rest → motive rest → motive (c :: rest))
    (text : List Char) : motive text := by
  induction text using unifyBreaks.induct with
  | case1 => exact nil
  | case2 rest ih => exact pair '\n' rest (.inl rfl) ih
  | case3 rest ih => exact pair '\u0085' rest (.inr rfl) ih
  | case4 c rest feed next ih =>
    refine single c rest ?_ ih
    rintro rfl d more rfl
    exact ⟨fun same => feed more rfl (same ▸ rfl), fun same => next more rfl (same ▸ rfl)⟩

/-- A character that is no break keeps what is in front of it and behind it apart. -/
theorem unifyBreaks_append {c : Char} (plain : isBreak c = false) (front rest : List Char) :
    unifyBreaks (front ++ c :: rest) = unifyBreaks front ++ c :: unifyBreaks rest := by
  obtain ⟨notFeed, notReturn, notNext, notSeparator⟩ := ne_of_not_isBreak plain
  induction front using unifyBreaks_cases with
  | nil =>
    have unbroken : ¬ (c = '\r' ∨ c = '\u0085' ∨ c = '\u2028') := by
      simp [notReturn, notNext, notSeparator]
    rw [List.nil_append, unifyBreaks_cons fun same => absurd same notReturn, if_neg unbroken]
    rfl
  | pair d text second ih =>
    rw [List.cons_append, List.cons_append, unifyBreaks_pair second, unifyBreaks_pair second, ih,
      List.cons_append]
  | single d text alone ih =>
    have still : StandsAlone d (text ++ c :: rest) := by
      intro same e more split
      cases text with
      | nil =>
        cases split
        exact ⟨notFeed, notNext⟩
      | cons first others =>
        cases split
        exact alone same _ _ rfl
    rw [List.cons_append, unifyBreaks_cons still, unifyBreaks_cons alone, ih, List.cons_append]

theorem mem_unifyBreaks {text : List Char} {c : Char} (member : c ∈ unifyBreaks text) :
    c = '\n' ∨ c ∈ text := by
  induction text using unifyBreaks_cases with
  | nil => cases member
  | pair d rest second ih =>
    rw [unifyBreaks_pair second] at member
    rcases List.mem_cons.1 member with same | later
    · exact .inl same
    · exact (ih later).imp_right fun inside =>
        List.mem_cons_of_mem _ (List.mem_cons_of_mem _ inside)
  | single d rest alone ih =>
    rw [unifyBreaks_cons alone] at member
    rcases List.mem_cons.1 member with same | later
    · split at same
      · exact .inl same
      · exact .inr (same ▸ List.mem_cons_self)
    · exact (ih later).imp_right (List.mem_cons_of_mem d)

theorem unifyBreaks_ne_nil {text : List Char} (filled : text ≠ []) : unifyBreaks text ≠ [] := by
  cases text using unifyBreaks_cases with
  | nil => exact absurd rfl filled
  | pair d rest second _ =>
    rw [unifyBreaks_pair second]
    exact List.cons_ne_nil _ _
  | single c rest alone _ =>
    rw [unifyBreaks_cons alone]
    exact List.cons_ne_nil _ _

theorem unifyBreaks_join {separator : Char} (plain : isBreak separator = false)
    (parts : List (List Char)) :
    unifyBreaks (Text.join separator parts) = Text.join separator (parts.map unifyBreaks) := by
  induction parts with
  | nil => rfl
  | cons part others ih =>
    cases others with
    | nil => rfl
    | cons next others =>
      have joined : Text.join separator (part :: next :: others) =
          part ++ separator :: Text.join separator (next :: others) := rfl
      rw [joined, unifyBreaks_append plain, ih]
      rfl

/-- The ends of a tight text are no breaks and stay where they are. -/
theorem tight_unifyBreaks {text : List Char} (tight : Text.Tight text) :
    Text.Tight (unifyBreaks text) := by
  constructor
  · intro c first
    cases text with
    | nil => cases first
    | cons d rest =>
      have plain := isBreak_of_not_isBlank (tight.1 d rfl)
      have start := unifyBreaks_append plain [] rest
      rw [List.nil_append] at start
      rw [start] at first
      cases first
      exact tight.1 c rfl
  · intro c last
    rcases List.eq_nil_or_concat text with rfl | ⟨front, d, rfl⟩
    · cases last
    · have unblank : Text.isBlank d = false := tight.2 d (by simp)
      rw [List.concat_eq_append, unifyBreaks_append (isBreak_of_not_isBlank unblank)] at last
      have same : d = c := by simpa [unifyBreaks] using last
      exact same ▸ unblank

end PeerNet.Markup
