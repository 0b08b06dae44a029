/-!
# What a run keeps and counts

What every step keeps, a run keeps. Of the rest it is told how many operations of a
run count for something, and a counter may keep the number modulo `2 ^ 64`. Unless it
comes round, the counter tells whether any did.
-/

set_option autoImplicit false

namespace PeerNet

/-- What every step keeps of a state, a run keeps. -/
theorem view_foldl {State Item View : Type} (view : State → View) {step : State → Item → State}
    (keeps : ∀ state item, view (step state item) = view state) (state : State)
    (items : List Item) : view (items.foldl step state) = view state := by
  induction items generalizing state with
  | nil => rfl
  | cons item rest ih => rw [List.foldl_cons, ih, keeps]

section

variable {State Operation : Type} (apply : State → Operation → State)
  (counts : State → Operation → Bool)

/-- The number of operations of a run that count, each in the state that it acts on. -/
def tally (state : State) : List Operation → Nat
  | [] => 0
  | operation :: rest => (counts state operation).toNat + tally (apply state operation) rest

theorem tally_append (state : State) (first last : List Operation) :
    tally apply counts state (first ++ last) =
      tally apply counts state first + tally apply counts (first.foldl apply state) last := by
  induction first generalizing state with
  | nil => exact (Nat.zero_add _).symm
  | cons operation rest ih =>
    rw [List.cons_append, tally, tally, ih, Nat.add_assoc]
    rfl

variable {apply counts}

/-- A counter that each counting operation advances by one. -/
theorem counter_foldl (counter : State → UInt64)
    (advances : ∀ state operation, counter (apply state operation) =
      counter state + UInt64.ofNat (counts state operation).toNat)
    (state : State) (operations : List Operation) :
    counter (operations.foldl apply state) =
      counter state + UInt64.ofNat (tally apply counts state operations) := by
  induction operations generalizing state with
  | nil => exact (UInt64.add_zero _).symm
  | cons operation rest ih =>
    rw [List.foldl_cons, ih, advances, tally, UInt64.ofNat_add, UInt64.add_assoc]

end

theorem add_ofNat_eq_self {counter : UInt64} {count : Nat} :
    counter + UInt64.ofNat count = counter ↔ count % UInt64.size = 0 := by
  rw [UInt64.add_eq_left, ← UInt64.toNat_inj, UInt64.toNat_ofNat']
  rfl

/-- Fewer steps than the counter can count are told by it. -/
theorem add_ofNat_eq_self_iff {counter : UInt64} {count : Nat} (few : count < UInt64.size) :
    counter + UInt64.ofNat count = counter ↔ count = 0 := by
  rw [add_ofNat_eq_self, Nat.mod_eq_of_lt few]

end PeerNet
