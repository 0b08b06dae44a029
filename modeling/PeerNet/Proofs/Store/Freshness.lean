import PeerNet.Store.Allocator

/-!
# Fresh ids are not taken

Whatever the allocator's counters are, the id that it hands out is none of the
taken ones: the search checks every candidate, and the id beyond the taken ones
is too long to be one of them. While more candidates are left than ids are
taken, the search ends at a candidate, since no two candidates are equal.
-/

set_option autoImplicit false

namespace PeerNet.Allocator

theorem not_taken_of_find? {taken : NodeId → Bool} {tries : Nat} {allocator after : Allocator}
    {id : NodeId} (found : find? taken tries allocator = some (id, after)) :
    taken id = false := by
  induction tries generalizing allocator with
  | zero => simp [find?] at found
  | succ tries ih =>
    simp only [find?] at found
    split at found
    · exact ih found
    · next free =>
      simp only [Option.some.injEq, Prod.mk.injEq] at found
      obtain ⟨rfl, _⟩ := found
      simpa using free

theorem beyond_not_mem (taken : List NodeId) : beyond taken ∉ taken := by
  intro member
  have part : (beyond taken).text.toList.Sublist (taken.map (·.text.toList)).flatten :=
    List.sublist_flatten_of_mem (List.mem_map_of_mem member)
  have bounded := part.length_le
  simp only [beyond, String.toList_ofList, List.length_cons, List.flatMap_def] at bounded
  omega

theorem fresh_not_mem (taken : List NodeId) (allocator : Allocator) :
    (allocator.fresh taken).1 ∉ taken := by
  unfold fresh
  cases search : find? (· ∈ taken) (taken.length + 1) allocator with
  | none => exact beyond_not_mem taken
  | some found =>
    obtain ⟨id, after⟩ := found
    simpa using not_taken_of_find? search

/-! ## Candidates -/

def numbersLeft (next? : Option UInt64) : Nat :=
  (next?.map fun n => UInt64.size - n.toNat).getD 0

/-- How many candidates are left before both counters are used up. -/
def room (allocator : Allocator) : Nat :=
  numbersLeft allocator.next? + (UInt64.size - 1 - allocator.spilled.toNat)

inductive Ahead (allocator : Allocator) : NodeId → Prop where
  | number {n : UInt64} {m : Nat} (next : allocator.next? = some n) (later : n.toNat ≤ m) :
      Ahead allocator (.ofNat m)
  | spill {m : Nat} (later : allocator.spilled.toNat < m) :
      Ahead allocator ⟨"n" ++ Nat.repr m⟩

private theorem repr_ne_spill (m n : Nat) : Nat.repr m ≠ "n" ++ Nat.repr n := by
  intro same
  have mark : 'n' ∈ Nat.toDigits 10 m := by
    rw [← Nat.toList_repr, same, String.toList_append]
    exact List.mem_append_left _ List.mem_cons_self
  have digit := Nat.isDigit_of_mem_toDigits (by decide) (by decide) mark
  cases digit

theorem toNat_of_successor? {n m : UInt64} (next : successor? n = some m) :
    m.toNat = n.toNat + 1 := by
  unfold successor? at next
  split at next
  · next fits =>
    cases next
    rw [UInt64.toNat_add]
    exact Nat.mod_eq_of_lt fits
  · cases next

theorem numbersLeft_successor? (n : UInt64) :
    numbersLeft (successor? n) + 1 = UInt64.size - n.toNat := by
  have bound := n.toNat_lt_size
  cases next : successor? n with
  | some m =>
    have following := toNat_of_successor? next
    have next := m.toNat_lt_size
    simp only [numbersLeft, Option.map_some, Option.getD_some]
    omega
  | none =>
    unfold successor? at next
    split at next
    · cases next
    · simp only [numbersLeft, Option.map_none, Option.getD_none]
      omega

theorem ahead_ofNat_iff {allocator : Allocator} {m : Nat} :
    allocator.Ahead (.ofNat m) ↔ ∃ n, allocator.next? = some n ∧ n.toNat ≤ m := by
  constructor
  · intro ahead
    generalize same : NodeId.ofNat m = id at ahead
    cases ahead with
    | number next later => exact ⟨_, next, NodeId.ofNat_inj.1 same ▸ later⟩
    | spill later => exact absurd (congrArg NodeId.text same) (repr_ne_spill _ _)
  · rintro ⟨n, next, later⟩
    exact .number next later

theorem ahead_spill_iff {allocator : Allocator} {m : Nat} :
    allocator.Ahead ⟨"n" ++ Nat.repr m⟩ ↔ allocator.spilled.toNat < m := by
  constructor
  · intro ahead
    generalize same : (⟨"n" ++ Nat.repr m⟩ : NodeId) = id at ahead
    cases ahead with
    | number next later => exact absurd (congrArg NodeId.text same.symm) (repr_ne_spill _ _)
    | spill later =>
      have numerals := String.append_right_inj "n" |>.1 (congrArg NodeId.text same)
      exact Decimal.repr_injective numerals ▸ later
  · exact .spill

theorem draw_of_room {allocator : Allocator} (left : 0 < allocator.room) :
    allocator.draw.2.room + 1 = allocator.room ∧ allocator.Ahead allocator.draw.1 ∧
      ¬ allocator.draw.2.Ahead allocator.draw.1 ∧
        ∀ id, allocator.draw.2.Ahead id → allocator.Ahead id := by
  obtain ⟨next?, spilled⟩ := allocator
  cases next? with
  | some n =>
    refine ⟨?_, .number rfl (Nat.le_refl _), ?_, ?_⟩
    · have numbers := numbersLeft_successor? n
      simp only [room, draw, numbersLeft, Option.map_some, Option.getD_some] at numbers ⊢
      omega
    · rw [draw, ahead_ofNat_iff]
      rintro ⟨m, next, later⟩
      have following := toNat_of_successor? next
      omega
    · intro id ahead
      cases ahead with
      | number next later =>
        have following := toNat_of_successor? next
        exact .number rfl (by omega)
      | spill later => exact .spill later
  | none =>
    have fits : spilled.toNat + 1 < UInt64.size := by
      simp only [room, numbersLeft, Option.map_none, Option.getD_none] at left
      omega
    have next : successor? spilled = some (spilled + 1) := if_pos fits
    have grown : spilled.toNat < (spilled + 1).toNat := by
      rw [toNat_of_successor? next]
      exact Nat.lt_succ_self _
    simp only [draw, next, Option.getD_some]
    refine ⟨?_, .spill grown, ?_, ?_⟩
    · have following := toNat_of_successor? next
      simp only [room, numbersLeft, Option.map_none, Option.getD_none]
      omega
    · rw [ahead_spill_iff]
      exact Nat.lt_irrefl _
    · intro id ahead
      cases ahead with
      | number absent later => cases absent
      | spill later => exact .spill (Nat.lt_trans grown later)

/-- A search that fails has met different candidates, all of them taken. -/
theorem candidates_of_find?_eq_none {taken : NodeId → Bool} {tries : Nat} {allocator : Allocator}
    (failed : find? taken tries allocator = none) (enough : tries ≤ allocator.room) :
    ∃ candidates : List NodeId, candidates.length = tries ∧ candidates.Nodup ∧
      ∀ id ∈ candidates, taken id = true ∧ allocator.Ahead id := by
  induction tries generalizing allocator with
  | zero => exact ⟨[], rfl, .nil, by simp⟩
  | succ tries ih =>
    obtain ⟨used, first, spent, later⟩ := draw_of_room (by omega : 0 < allocator.room)
    simp only [find?] at failed
    split at failed
    · next met =>
      obtain ⟨candidates, count, distinct, known⟩ := ih failed (by omega)
      refine ⟨allocator.draw.1 :: candidates, by rw [List.length_cons, count], ?_, ?_⟩
      · exact List.nodup_cons.2 ⟨fun again => spent (known _ again).2, distinct⟩
      · refine List.forall_mem_cons.2 ⟨⟨met, first⟩, fun id member => ?_⟩
        exact ⟨(known id member).1, later id (known id member).2⟩
    · cases failed

/-! ## Ids behind the numbers -/

theorem spilled_above (ids : List NodeId) : (above ids).spilled = 0 := by
  unfold above
  split
  · rfl
  · rfl

/-- The counter of the ids behind the numbers is advanced by candidates only. -/
theorem eq_draw_of_spilled {allocator : Allocator} {k : Nat}
    (later : allocator.spilled.toNat < k) (drawn : k ≤ allocator.draw.2.spilled.toNat) :
    (⟨"n" ++ Nat.repr k⟩ : NodeId) = allocator.draw.1 := by
  obtain ⟨next?, spilled⟩ := allocator
  dsimp only at later
  cases next? with
  | some n =>
    simp only [draw] at drawn
    omega
  | none =>
    cases next : successor? spilled with
    | none =>
      simp only [draw, next, Option.getD_none] at drawn
      omega
    | some m =>
      have following := toNat_of_successor? next
      simp only [draw, next, Option.getD_some] at drawn ⊢
      have same : k = m.toNat := by omega
      rw [same]

theorem spilled_of_find? {taken : NodeId → Bool} {tries : Nat} {allocator after : Allocator}
    {id : NodeId} (found : find? taken tries allocator = some (id, after)) {k : Nat}
    (later : allocator.spilled.toNat < k) (drawn : k ≤ after.spilled.toNat) :
    (⟨"n" ++ Nat.repr k⟩ : NodeId) = id ∨ taken ⟨"n" ++ Nat.repr k⟩ = true := by
  induction tries generalizing allocator with
  | zero => cases found
  | succ tries ih =>
    simp only [find?] at found
    split at found
    · next met =>
      by_cases first : k ≤ allocator.draw.2.spilled.toNat
      · exact .inr (eq_draw_of_spilled later first ▸ met)
      · exact ih found (by omega)
    · cases found
      exact .inl (eq_draw_of_spilled later drawn)

/-- Whatever the counter passes over is taken. -/
theorem spilled_of_fresh {taken : List NodeId} {allocator : Allocator} {k : Nat}
    (later : allocator.spilled.toNat < k)
    (drawn : k ≤ (allocator.fresh taken).2.spilled.toNat) :
    (⟨"n" ++ Nat.repr k⟩ : NodeId) = (allocator.fresh taken).1 ∨ ⟨"n" ++ Nat.repr k⟩ ∈ taken := by
  unfold fresh at drawn ⊢
  cases search : find? (· ∈ taken) (taken.length + 1) allocator with
  | none =>
    simp only [search, Option.getD_none] at drawn
    omega
  | some found =>
    rw [search] at drawn
    simpa using spilled_of_find? search later drawn

theorem le_length_of_spills {taken : List NodeId} {count : Nat}
    (spills : ∀ k, 0 < k → k ≤ count → (⟨"n" ++ Nat.repr k⟩ : NodeId) ∈ taken) :
    count ≤ taken.length := by
  let ids : List NodeId := (List.range count).map fun k => ⟨"n" ++ Nat.repr (k + 1)⟩
  have distinct : ids.Nodup := by
    refine List.pairwise_map.2 (List.nodup_range.imp fun {i j} apart same => apart ?_)
    have numerals := String.append_right_inj "n" |>.1 (congrArg NodeId.text same)
    exact Nat.succ.inj (Decimal.repr_injective numerals)
  have inside : ids ⊆ taken := by
    intro id member
    obtain ⟨k, below, rfl⟩ := List.mem_map.1 member
    exact spills (k + 1) (Nat.succ_pos k) (List.mem_range.1 below)
  simpa [ids] using distinct.length_le_of_subset inside

end PeerNet.Allocator
