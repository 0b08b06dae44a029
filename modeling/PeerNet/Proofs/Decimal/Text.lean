import PeerNet.Decimal.Number
import PeerNet.Text.Blank

/-!
# The characters of written numbers

Every number has a text, and the text holds no blanks, so that taking blanks
off its ends or unifying its line breaks leaves it as it is.
-/

set_option autoImplicit false

namespace PeerNet.Decimal

def isNumberChar (c : Char) : Bool :=
  c.isDigit || "-.NaNinf".toList.contains c

theorem isBlank_of_isNumberChar {c : Char} (written : isNumberChar c = true) :
    Text.isBlank c = false := by
  rcases Bool.or_eq_true_iff.1 written with digit | mark
  · simp only [Char.isDigit, Bool.and_eq_true, decide_eq_true_eq, ge_iff_le,
      UInt32.le_iff_toNat_le] at digit
    change 48 ≤ c.toNat ∧ c.toNat ≤ 57 at digit
    simp only [Text.isBlank, Bool.or_eq_false_iff, Bool.and_eq_false_iff,
      decide_eq_false_iff_not, beq_eq_false_iff_ne]
    omega
  · have marks : "-.NaNinf".toList.all (!Text.isBlank ·) := by decide
    simpa using List.all_eq_true.1 marks c (List.contains_iff_mem.1 mark)

theorem isNumberChar_of_isDigit {c : Char} (digit : c.isDigit = true) :
    isNumberChar c = true := by
  simp [isNumberChar, digit]

/-- True of the texts that numbers are written as. -/
def IsNumberText (text : List Char) : Prop :=
  text ≠ [] ∧ ∀ c ∈ text, isNumberChar c = true

instance (text : List Char) : Decidable (IsNumberText text) :=
  decidable_of_iff (text ≠ [] ∧ text.all isNumberChar = true) (by simp [IsNumberText])

theorem isNumberText_toDigits (n : Nat) : IsNumberText (Nat.toDigits 10 n) :=
  ⟨Nat.toDigits_ne_nil, fun _ member =>
    isNumberChar_of_isDigit (Nat.isDigit_of_mem_toDigits (by decide) (by decide) member)⟩

private theorem isNumberText_append {front back : List Char} (first : IsNumberText front)
    (last : ∀ c ∈ back, isNumberChar c = true) : IsNumberText (front ++ back) :=
  ⟨List.append_ne_nil_of_left_ne_nil first.1 back, List.forall_mem_append.2 ⟨first.2, last⟩⟩

theorem isNumberText_positional (number : Scientific) :
    IsNumberText number.positional.toList := by
  have digits := isNumberText_toDigits number.digits
  have zeros (count : Nat) : ∀ c ∈ List.replicate count '0', isNumberChar c = true := by
    intro c member
    rw [List.eq_of_mem_replicate member]
    rfl
  unfold Scientific.positional
  dsimp only
  split
  · split
    · decide
    · rw [String.toList_ofList]
      exact isNumberText_append digits (zeros _)
  · rw [String.toList_ofList]
    refine ⟨by simp, ?_⟩
    intro c member
    have padded : ∀ c ∈ List.replicate ((-number.exponent).toNat + 1 -
        (Nat.toDigits 10 number.digits).length) '0' ++ Nat.toDigits 10 number.digits,
        isNumberChar c = true :=
      List.forall_mem_append.2 ⟨zeros _, digits.2⟩
    rcases List.mem_append.1 member with whole | fraction
    · exact padded c (List.mem_of_mem_take whole)
    · rcases List.mem_cons.1 fraction with rfl | behind
      · rfl
      · exact padded c (List.mem_of_mem_drop behind)

theorem isNumberText_writeFloat (x : Float) : IsNumberText (writeFloat x).toList := by
  unfold writeFloat
  dsimp only
  split
  · next value _ =>
    have magnitude := isNumberText_positional (shortest value)
    rw [String.toList_append]
    refine ⟨List.append_ne_nil_of_right_ne_nil _ magnitude.1,
      List.forall_mem_append.2 ⟨?_, magnitude.2⟩⟩
    split <;> simp [isNumberChar]
  · split
    · decide
    · split <;> decide

end PeerNet.Decimal
