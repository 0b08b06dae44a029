import Mathlib.Data.Finset.Card
import Mathlib.Data.List.Dedup
import PeerNet.Proofs.Store.Freshness
import PeerNet.Store.Basic

/-!
# The search for a fresh id ends

Candidates are drawn in turn until one is not taken, and nothing but that ends the search. No
candidate comes back in a search that ends, be it a number or an id behind the numbers, so that
all but the last are different taken ids. While more candidates are left than ids are taken the
search does end, and wherever it ends, the fresh id is the one that it ends at.
-/

set_option autoImplicit false

namespace PeerNet

namespace Allocator

/-- A whole search, without a limit: the candidates that it tries, and the last of them with the
allocator that it leaves. A search that meets only taken candidates has no derivation. -/
inductive Search (taken : List NodeId) :
    Allocator → List NodeId → NodeId × Allocator → Prop where
  | free {allocator : Allocator} :
      allocator.draw.1 ∉ taken → Search taken allocator [allocator.draw.1] allocator.draw
  | passed {allocator : Allocator} {tried : List NodeId} {result : NodeId × Allocator} :
      allocator.draw.1 ∈ taken → Search taken allocator.draw.2 tried result →
      Search taken allocator (allocator.draw.1 :: tried) result

variable {taken tried : List NodeId} {allocator : Allocator} {result : NodeId × Allocator}

/-! ## Searches with a limit -/

theorem exists_search_of_find? {tries : Nat}
    (found : find? (· ∈ taken) tries allocator = some result) :
    ∃ tried, Search taken allocator tried result ∧ tried.length ≤ tries := by
  induction tries generalizing allocator with
  | zero => cases found
  | succ tries ih =>
    simp only [find?, decide_eq_true_eq] at found
    split at found
    · next met =>
      obtain ⟨tried, search, few⟩ := ih found
      exact ⟨_, .passed met search, Nat.succ_le_succ few⟩
    · next new =>
      cases found
      exact ⟨_, .free new, Nat.succ_le_succ (Nat.zero_le tries)⟩

theorem Search.find?_eq_some (search : Search taken allocator tried result) {tries : Nat}
    (enough : tried.length ≤ tries) : find? (· ∈ taken) tries allocator = some result := by
  induction search generalizing tries with
  | free new =>
    cases tries with
    | zero => cases enough
    | succ tries => simp [find?, new]
  | passed met _ ih =>
    cases tries with
    | zero => cases enough
    | succ tries =>
      have rest := ih (Nat.le_of_succ_le_succ enough)
      simpa [find?, met] using rest

/-! ## No candidate comes back -/

/-- The candidates before the last one are taken. -/
theorem Search.exists_passed (search : Search taken allocator tried result) :
    result.1 ∉ taken ∧ ∃ passed, tried = passed ++ [result.1] ∧ ∀ id ∈ passed, id ∈ taken := by
  induction search with
  | free new => exact ⟨new, [], rfl, by simp⟩
  | passed met _ ih =>
    obtain ⟨new, passed, rfl, known⟩ := ih
    exact ⟨new, _ :: passed, rfl, List.forall_mem_cons.2 ⟨met, known⟩⟩

theorem draw_of_spent (spent : allocator.room = 0) : allocator.draw.2 = allocator := by
  obtain ⟨next?, spilled⟩ := allocator
  cases next? with
  | some n =>
    have bound := n.toNat_lt_size
    simp only [room, numbersLeft, Option.map_some, Option.getD_some] at spent
    omega
  | none =>
    have last : successor? spilled = none := by
      refine if_neg ?_
      simp only [room, numbersLeft, Option.map_none, Option.getD_none] at spent
      omega
    simp only [draw, last, Option.getD_none]

/-- An allocator with both counters used up draws one and the same candidate ever after. -/
theorem Search.room_pos (search : Search taken allocator tried result)
    (met : allocator.draw.1 ∈ taken) : 0 < allocator.room := by
  refine Nat.pos_of_ne_zero fun spent => ?_
  have stays := draw_of_spent spent
  induction search with
  | free new => exact new met
  | passed _ _ ih =>
    rw [stays] at ih
    exact ih met spent stays

theorem Search.nodup (search : Search taken allocator tried result) : tried.Nodup := by
  -- A later candidate is one that the counters still have ahead of them, unless both are used up;
  -- then it ends the search, and so it is not taken, as the earlier ones are.
  suffices distinct : tried.Nodup ∧ ∀ id ∈ tried, id ∈ taken → allocator.Ahead id from distinct.1
  induction search with
  | free new => simp [new]
  | @passed allocator tried result met search ih =>
    obtain ⟨_, first, spent, later⟩ := draw_of_room (Search.room_pos (.passed met search) met)
    obtain ⟨distinct, ahead⟩ := ih
    refine ⟨List.nodup_cons.2 ⟨fun again => spent (ahead _ again met), distinct⟩, ?_⟩
    exact List.forall_mem_cons.2
      ⟨fun _ => first, fun id member known => later id (ahead id member known)⟩

theorem length_le_card_taken {ids : List NodeId} (distinct : ids.Nodup)
    (inside : ∀ id ∈ ids, id ∈ taken) : ids.length ≤ taken.toFinset.card := by
  have bounded := distinct.length_le_of_subset fun id member =>
    List.mem_dedup.2 (inside id member)
  simpa [List.card_toFinset] using bounded

theorem Search.length_le (search : Search taken allocator tried result) :
    tried.length ≤ taken.toFinset.card + 1 := by
  have distinct := search.nodup
  obtain ⟨_, passed, rfl, known⟩ := search.exists_passed
  have bounded := length_le_card_taken (List.nodup_append.1 distinct).1 known
  simpa using bounded

/-- Wherever the search ends, the fresh id is what it ends at. -/
theorem Search.fresh_eq (search : Search taken allocator tried result) :
    allocator.fresh taken = result := by
  have enough : tried.length ≤ taken.length + 1 :=
    search.length_le.trans (Nat.succ_le_succ (List.toFinset_card_le taken))
  rw [fresh, search.find?_eq_some enough, Option.getD_some]

/-! ## Enough candidates -/

theorem exists_search (enough : taken.toFinset.card < allocator.room) :
    ∃ tried, Search taken allocator tried (allocator.fresh taken) := by
  cases found : find? (· ∈ taken) (taken.toFinset.card + 1) allocator with
  | some result =>
    obtain ⟨tried, search, _⟩ := exists_search_of_find? found
    exact ⟨tried, search.fresh_eq ▸ search⟩
  | none =>
    obtain ⟨candidates, count, distinct, known⟩ := candidates_of_find?_eq_none found enough
    have bounded := length_le_card_taken distinct fun id member => by
      simpa using (known id member).1
    omega

theorem exists_search_of_few
    (few : allocator.spilled.toNat + taken.toFinset.card < UInt64.size - 1) :
    ∃ tried, Search taken allocator tried (allocator.fresh taken) := by
  refine exists_search ?_
  unfold room
  omega

theorem find?_of_few (few : allocator.spilled.toNat + taken.length < UInt64.size - 1) :
    find? (· ∈ taken) (taken.length + 1) allocator = some (allocator.fresh taken) := by
  have distinct := List.toFinset_card_le taken
  obtain ⟨tried, search⟩ :=
    exists_search_of_few (show allocator.spilled.toNat + taken.toFinset.card < _ by omega)
  exact search.find?_eq_some (search.length_le.trans (Nat.succ_le_succ distinct))

end Allocator

namespace Store

variable {R : Type}

theorem card_taken_le (store : Store R) :
    (store.ids ++ store.retired).toFinset.card ≤
      store.topology.nodes.length + store.retired.toFinset.card := by
  have live : store.ids.toFinset.card ≤ store.topology.nodes.length := by
    simpa [ids] using List.toFinset_card_le store.ids
  calc (store.ids ++ store.retired).toFinset.card
      = (store.ids.toFinset ∪ store.retired.toFinset).card := by rw [List.toFinset_append]
    _ ≤ store.ids.toFinset.card + store.retired.toFinset.card := Finset.card_union_le _ _
    _ ≤ store.topology.nodes.length + store.retired.toFinset.card := Nat.add_le_add_right live _

/-- Whatever state a store is in, the search for a fresh id ends while its counter behind the
numbers leaves room for the ids that are live or retired. It tries at most one candidate more
than these, and none twice, also where it goes on from the numbers to the ids behind them. -/
theorem allocate_ends (store : Store R)
    (few : store.allocator.spilled.toNat + store.topology.nodes.length +
      store.retired.toFinset.card < UInt64.size - 1) :
    ∃ tried, Allocator.Search (store.ids ++ store.retired) store.allocator tried store.allocate ∧
      tried.Nodup ∧
      tried.length ≤ store.topology.nodes.length + store.retired.toFinset.card + 1 := by
  have known := store.card_taken_le
  obtain ⟨tried, search⟩ := Allocator.exists_search_of_few (show store.allocator.spilled.toNat +
    (store.ids ++ store.retired).toFinset.card < UInt64.size - 1 by omega)
  exact ⟨tried, search, search.nodup, search.length_le.trans (Nat.succ_le_succ known)⟩

/-- One number is left, and it and the first two ids behind the numbers are taken. -/
def atLastNumber : Store Float where
  topology := {
    id := 0
    name := "at the last number"
    origin := .custom
    nodes := [.plain ⟨"18446744073709551615"⟩ "a", .plain ⟨"n1"⟩ "b"] }
  options := {}
  canvas := .standard
  allocator := ⟨some 18446744073709551615, 0⟩
  retired := [⟨"n2"⟩]
  selected := none
  revision := 0

theorem allocate_ends_atLastNumber :
    atLastNumber.allocator.spilled.toNat + atLastNumber.topology.nodes.length +
        atLastNumber.retired.toFinset.card < UInt64.size - 1 ∧
      ∃ tried, Allocator.Search (atLastNumber.ids ++ atLastNumber.retired)
          atLastNumber.allocator tried (⟨"n3"⟩, ⟨none, 3⟩) ∧
        tried.Nodup ∧ tried.length ≤ 4 := by
  have few : atLastNumber.allocator.spilled.toNat + atLastNumber.topology.nodes.length +
      atLastNumber.retired.toFinset.card < UInt64.size - 1 := by decide
  have result : atLastNumber.allocate = (⟨"n3"⟩, ⟨none, 3⟩) := by decide +kernel
  refine ⟨few, ?_⟩
  obtain ⟨tried, search, distinct, bounded⟩ := allocate_ends atLastNumber few
  exact ⟨tried, result ▸ search, distinct, bounded⟩

end Store

end PeerNet
