import PeerNet.Text.Blank

/-!
# Texts without blanks at their ends

Taking the blanks off the ends of a text leaves a tight text, and a tight text
as it is.
-/

set_option autoImplicit false

namespace PeerNet.Text

/-- True of the texts with no blank at either end. -/
def Tight (text : List Char) : Prop :=
  (∀ c ∈ text.head?, isBlank c = false) ∧ ∀ c ∈ text.getLast?, isBlank c = false

theorem tight_of_unblank {text : List Char} (unblank : ∀ c ∈ text, isBlank c = false) :
    Tight text :=
  ⟨fun c first => unblank c (List.mem_of_head? first),
    fun c last => unblank c (List.mem_of_getLast? last)⟩

theorem trimStart_eq_self {text : List Char} (unblank : ∀ c ∈ text.head?, isBlank c = false) :
    trimStart text = text := by
  cases text with
  | nil => rfl
  | cons c rest =>
    rw [trimStart, List.dropWhile_cons_of_neg]
    simp [unblank c rfl]

theorem trimEnd_eq_self {text : List Char} (unblank : ∀ c ∈ text.getLast?, isBlank c = false) :
    trimEnd text = text := by
  have start : trimStart text.reverse = text.reverse :=
    trimStart_eq_self (by simpa using unblank)
  rw [trimStart] at start
  rw [trimEnd, start, List.reverse_reverse]

theorem trim_eq_self {text : List Char} (tight : Tight text) : trim text = text := by
  rw [trim, trimStart_eq_self tight.1, trimEnd_eq_self tight.2]

theorem head?_trimStart (text : List Char) :
    ∀ c ∈ (trimStart text).head?, isBlank c = false := by
  intro c first
  have unblank := List.head?_dropWhile_not isBlank text
  rw [trimStart] at first
  rwa [Option.mem_def.1 first] at unblank

theorem trimEnd_isPrefix (text : List Char) : trimEnd text <+: text := by
  have back := (List.dropWhile_suffix (l := text.reverse) isBlank)
  rw [← List.reverse_prefix, List.reverse_reverse] at back
  exact back

theorem tight_trim (text : List Char) : Tight (trim text) := by
  constructor
  · intro c first
    -- What is left at the end starts where the text without its first blanks does.
    obtain ⟨behind, whole⟩ := trimEnd_isPrefix (trimStart text)
    refine head?_trimStart text c ?_
    rw [← whole, List.head?_append, ← trim, Option.mem_def.1 first]
    rfl
  · intro c last
    refine head?_trimStart (trimStart text).reverse c ?_
    simpa [trim, trimEnd, trimStart] using last

theorem mem_of_mem_trim {text : List Char} {c : Char} (member : c ∈ trim text) : c ∈ text := by
  have start : c ∈ trimStart text := (trimEnd_isPrefix (trimStart text)).subset member
  exact (List.dropWhile_suffix isBlank).subset start

/-! ## Blanks around a text -/

theorem trimStart_of_blank {text : List Char} (blank : ∀ c ∈ text, isBlank c = true) :
    trimStart text = [] := by
  have gone : (text ++ []).dropWhile isBlank = [].dropWhile isBlank :=
    List.dropWhile_append_of_pos blank
  simpa [trimStart] using gone

theorem trimStart_append {front : List Char} (blank : ∀ c ∈ front, isBlank c = true)
    (text : List Char) : trimStart (front ++ text) = trimStart text :=
  List.dropWhile_append_of_pos blank

theorem trimEnd_append {back : List Char} (blank : ∀ c ∈ back, isBlank c = true)
    (text : List Char) : trimEnd (text ++ back) = trimEnd text := by
  have reversed : ∀ c ∈ back.reverse, isBlank c = true := by simpa using blank
  rw [trimEnd, List.reverse_append, List.dropWhile_append_of_pos reversed, trimEnd]

theorem exists_eq_append_trimStart (text : List Char) :
    ∃ front, text = front ++ trimStart text ∧ ∀ c ∈ front, isBlank c = true :=
  ⟨text.takeWhile isBlank, List.takeWhile_append_dropWhile.symm,
    List.all_eq_true.1 List.all_takeWhile⟩

theorem exists_eq_trimEnd_append (text : List Char) :
    ∃ back, text = trimEnd text ++ back ∧ ∀ c ∈ back, isBlank c = true := by
  obtain ⟨front, whole, blank⟩ := exists_eq_append_trimStart text.reverse
  refine ⟨front.reverse, ?_, by simpa using blank⟩
  simpa [trimEnd, trimStart] using congrArg List.reverse whole

theorem trimStart_append_cons {c : Char} (unblank : isBlank c = false)
    (before behind : List Char) :
    trimStart (before ++ c :: behind) = trimStart before ++ c :: behind := by
  rw [trimStart, List.dropWhile_append]
  split
  · next gone =>
    have empty : trimStart before = [] := List.isEmpty_iff.1 gone
    simp [empty, unblank]
  · rfl

theorem trimEnd_append_cons {c : Char} (unblank : isBlank c = false)
    (before behind : List Char) :
    trimEnd (before ++ c :: behind) = before ++ c :: trimEnd behind := by
  have turned := trimStart_append_cons unblank behind.reverse before.reverse
  simpa [trimEnd, trimStart] using congrArg List.reverse turned

/-- Around a character that is no blank, the two sides are trimmed each for itself. -/
theorem trim_append_cons {c : Char} (unblank : isBlank c = false) (before behind : List Char) :
    trim (before ++ c :: behind) = trimStart before ++ c :: trimEnd behind := by
  rw [trim, trimStart_append_cons unblank, trimEnd_append_cons unblank]

theorem blank_or_exists (text : List Char) :
    (∀ c ∈ text, isBlank c = true) ∨
      ∃ before c behind, text = before ++ c :: behind ∧ isBlank c = false := by
  by_cases blank : text.all isBlank = true
  · exact .inl (List.all_eq_true.1 blank)
  · obtain ⟨c, member, unblank⟩ : ∃ c ∈ text, isBlank c = false := by simpa using blank
    obtain ⟨before, behind, whole⟩ := List.append_of_mem member
    exact .inr ⟨before, c, behind, whole, unblank⟩

theorem trim_of_blank {text : List Char} (blank : ∀ c ∈ text, isBlank c = true) :
    trim text = [] := by
  simp [trim, trimStart_of_blank blank, trimEnd]

theorem trim_eq_nil_iff {text : List Char} :
    trim text = [] ↔ ∀ c ∈ text, isBlank c = true := by
  refine ⟨fun empty => ?_, trim_of_blank⟩
  rcases blank_or_exists text with blank | ⟨before, c, behind, rfl, unblank⟩
  · exact blank
  · simp [trim_append_cons unblank] at empty

/-- What is left of the trimmed text is the text's own middle. -/
theorem exists_eq_append_trim (text : List Char) :
    ∃ front back, text = front ++ (trim text ++ back) ∧ (∀ c ∈ front, isBlank c = true) ∧
      ∀ c ∈ back, isBlank c = true := by
  obtain ⟨front, whole, blankFront⟩ := exists_eq_append_trimStart text
  obtain ⟨back, rest, blankBack⟩ := exists_eq_trimEnd_append (trimStart text)
  exact ⟨front, back, by rw [trim, ← rest, ← whole], blankFront, blankBack⟩

theorem trim_append {front : List Char} (blank : ∀ c ∈ front, isBlank c = true)
    (text : List Char) : trim (front ++ text) = trim text := by
  rw [trim, trimStart_append blank, trim]

theorem trim_append_blank {back : List Char} (blank : ∀ c ∈ back, isBlank c = true)
    (text : List Char) : trim (text ++ back) = trim text := by
  rcases blank_or_exists text with allBlank | ⟨before, c, behind, rfl, unblank⟩
  · have whole : ∀ c ∈ text ++ back, isBlank c = true := List.forall_mem_append.2 ⟨allBlank, blank⟩
    rw [trim_of_blank whole, trim_of_blank allBlank]
  · rw [List.append_assoc, List.cons_append, trim_append_cons unblank, trim_append_cons unblank,
      trimEnd_append blank]

theorem trim_trimStart (text : List Char) : trim (trimStart text) = trim text := by
  obtain ⟨front, whole, blank⟩ := exists_eq_append_trimStart text
  calc trim (trimStart text)
      = trim (front ++ trimStart text) := (trim_append blank (trimStart text)).symm
    _ = trim text := by rw [← whole]

theorem trim_trimEnd (text : List Char) : trim (trimEnd text) = trim text := by
  obtain ⟨back, whole, blank⟩ := exists_eq_trimEnd_append text
  calc trim (trimEnd text)
      = trim (trimEnd text ++ back) := (trim_append_blank blank (trimEnd text)).symm
    _ = trim text := by rw [← whole]

theorem trimmed_eq_self {text : String} (tight : Tight text.toList) : trimmed text = text := by
  rw [trimmed, trim_eq_self tight, String.ofList_toList]

theorem tight_trimmed (text : String) : Tight (trimmed text).toList := by
  rw [trimmed, String.toList_ofList]
  exact tight_trim text.toList

end PeerNet.Text
