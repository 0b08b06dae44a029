/-!
# Cutting a text

Segments between separators, the two halves around a first separator, the
lines of a text, and the search for a fixed word. Where a later recursion runs
on what is left, the cut states that the rest is shorter.
-/

set_option autoImplicit false

namespace PeerNet.Text

/-- The segments of a text between the separators; there is always one more
segment than there are separators. -/
def segments (separator : Char) : List Char → List (List Char)
  | [] => [[]]
  | c :: rest =>
    if c = separator then [] :: segments separator rest
    else
      match segments separator rest with
      | [] => [[c]]
      | first :: others => (c :: first) :: others

def join (separator : Char) : List (List Char) → List Char
  | [] => []
  | [last] => last
  | segment :: others => segment ++ separator :: join separator others

def halves? (separator : Char) : List Char → Option (List Char × List Char)
  | [] => none
  | c :: rest =>
    if c = separator then some ([], rest)
    else (halves? separator rest).map fun (before, behind) => (c :: before, behind)

def after? : List Char → List Char → Option (List Char)
  | [], text => some text
  | _ :: _, [] => none
  | s :: start, c :: text => if s = c then after? start text else none

def withoutReturn (line : List Char) : List Char :=
  match line.reverse with
  | '\r' :: rest => rest.reverse
  | _ => line

/-- Lines from segments between line feeds: the last segment is a line only if
it is not empty, and only a line feed takes a carriage return with it. -/
def linesOf : List (List Char) → List (List Char)
  | [] => []
  | [last] => if last.isEmpty then [] else [last]
  | line :: others => withoutReturn line :: linesOf others

def lines (text : List Char) : List (List Char) :=
  linesOf (segments '\n' text)

def around? (word : List Char) : List Char → Option (List Char × List Char)
  | [] => if word.isEmpty then some ([], []) else none
  | c :: rest =>
    match after? word (c :: rest) with
    | some behind => some ([], behind)
    | none => (around? word rest).map fun (before, behind) => (c :: before, behind)

def withoutEnding? (ending text : List Char) : Option (List Char) :=
  (after? ending.reverse text.reverse).map List.reverse

theorem after?_eq_append {start text rest : List Char} (found : after? start text = some rest) :
    text = start ++ rest := by
  induction start generalizing text with
  | nil => simpa [after?] using found
  | cons s start ih =>
    cases text with
    | nil => simp [after?] at found
    | cons c text =>
      simp only [after?] at found
      split at found
      · rename_i same
        rw [ih found, same, List.cons_append]
      · simp at found

theorem halves?_eq_append {separator : Char} {text before behind : List Char}
    (found : halves? separator text = some (before, behind)) :
    text = before ++ separator :: behind := by
  induction text generalizing before with
  | nil => simp [halves?] at found
  | cons c rest ih =>
    simp only [halves?] at found
    split at found
    · rename_i same
      simp only [Option.some.injEq, Prod.mk.injEq] at found
      obtain ⟨rfl, rfl⟩ := found
      simp [same]
    · obtain ⟨⟨before', behind'⟩, later, same⟩ := Option.map_eq_some_iff.1 found
      simp only [Prod.mk.injEq] at same
      obtain ⟨rfl, rfl⟩ := same
      simpa using ih later

theorem length_halves? {separator : Char} {text before behind : List Char}
    (found : halves? separator text = some (before, behind)) :
    behind.length < text.length := by
  rw [halves?_eq_append found]
  simp only [List.length_append, List.length_cons]
  omega

theorem around?_eq_append {word text before behind : List Char}
    (found : around? word text = some (before, behind)) :
    text = before ++ word ++ behind := by
  induction text generalizing before with
  | nil =>
    simp only [around?] at found
    split at found
    · rename_i empty
      simp only [List.isEmpty_iff] at empty
      simp_all
    · simp at found
  | cons c rest ih =>
    simp only [around?] at found
    split at found
    · rename_i behind' here
      simp only [Option.some.injEq, Prod.mk.injEq] at found
      obtain ⟨rfl, rfl⟩ := found
      simpa using after?_eq_append here
    · obtain ⟨⟨before', behind'⟩, later, same⟩ := Option.map_eq_some_iff.1 found
      simp only [Prod.mk.injEq] at same
      obtain ⟨rfl, rfl⟩ := same
      simpa using ih later

theorem length_after? {start text rest : List Char} (found : after? start text = some rest) :
    rest.length ≤ text.length := by
  rw [after?_eq_append found, List.length_append]
  omega

theorem length_around? {word text before behind : List Char}
    (found : around? word text = some (before, behind)) : behind.length ≤ text.length := by
  rw [around?_eq_append found, List.length_append]
  omega

end PeerNet.Text
