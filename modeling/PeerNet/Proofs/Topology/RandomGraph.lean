import PeerNet.Proofs.Random.Probability
import PeerNet.Proofs.Topology.Templates

/-!
# Random graphs of different probabilities

Two random graphs drawn from the same source look at the same ordered pairs in the same order,
and both draw one word for each. So they stay in step whatever is linked, and what the smaller
probability links the larger one links as well. Only certainty draws nothing, and it links all
pairs.
-/

set_option autoImplicit false

namespace PeerNet

open Probability (held share)

/-! ## Drawing items one by one -/

namespace RandomSource

variable {R : Type} [Scalar R] {G : Type} [RandomSource G] {α : Type}

/-- The items that are kept when each is kept with a probability. -/
def kept (probability : R) : List α → G → List α
  | [], _ => []
  | item :: rest, source =>
    let (chosen, left) := chance probability source
    if chosen then item :: kept probability rest left else kept probability rest left

theorem kept_cons (probability : R) (item : α) (rest : List α) (source : G) :
    kept probability (item :: rest) source =
      if (chance probability source).1 then
        item :: kept probability rest (chance probability source).2
      else kept probability rest (chance probability source).2 :=
  rfl

theorem chance_of_uncertain {probability : R} (uncertain : (probability == 1.0) = false)
    (source : G) : chance probability source =
      (decide ((longWord source).1 < share probability), (longWord source).2) := by
  rw [chance, if_neg (Bool.eq_false_iff.1 uncertain)]
  rfl

theorem chance_of_certain {probability : R} (certain : (probability == 1.0) = true)
    (source : G) : chance probability source = (true, source) := by
  simp [chance, certain]

theorem kept_sublist (probability : R) (items : List α) (source : G) :
    (kept probability items source).Sublist items := by
  induction items generalizing source with
  | nil => exact .slnil
  | cons item rest ih =>
    rw [kept_cons]
    split
    · exact (ih _).cons_cons item
    · exact (ih _).cons item

theorem kept_of_certain {probability : R} (certain : (probability == 1.0) = true)
    (items : List α) (source : G) : kept probability items source = items := by
  induction items generalizing source with
  | nil => rfl
  | cons item rest ih => simp [kept_cons, chance_of_certain certain, ih]

theorem kept_of_no_share {probability : R} (uncertain : (probability == 1.0) = false)
    (none : share probability = 0) (items : List α) (source : G) :
    kept probability items source = [] := by
  induction items generalizing source with
  | nil => rfl
  | cons item rest ih => simp [kept_cons, chance_of_uncertain uncertain, none, ih]

/-- Below certainty both draw the same words, and each item kept for the smaller share is kept
for the larger one. -/
theorem kept_sublist_kept {smaller larger : R} (uncertain : (smaller == 1.0) = false)
    (uncertainToo : (larger == 1.0) = false) (ordered : share smaller ≤ share larger)
    (items : List α) (source : G) :
    (kept smaller items source).Sublist (kept larger items source) := by
  induction items generalizing source with
  | nil => exact .slnil
  | cons item rest ih =>
    simp only [kept_cons, chance_of_uncertain uncertain, chance_of_uncertain uncertainToo,
      decide_eq_true_eq]
    by_cases chosen : (longWord source).1 < share smaller
    · rw [if_pos chosen, if_pos (UInt64.lt_of_lt_of_le chosen ordered)]
      exact (ih _).cons_cons item
    · rw [if_neg chosen]
      split
      · exact (ih _).cons item
      · exact ih _

end RandomSource

open RandomSource

/-- Of two probabilities, what is kept for the smaller one is kept for the larger one. -/
theorem Probability.kept_sublist_kept {G : Type} [RandomSource G] {α : Type} {p q : Float}
    (first : Proportion p.toModel.unpack) (second : Proportion q.toModel.unpack)
    (ordered : p ≤ q) (items : List α) (source : G) :
    (kept p items source).Sublist (kept q items source) := by
  cases certain : q == 1.0 with
  | true =>
    rw [kept_of_certain certain]
    exact kept_sublist p items source
  | false =>
    have uncertain : (p == 1.0) = false :=
      Bool.eq_false_iff.2 fun equal => by simp [eq_one_of_le second equal ordered] at certain
    exact RandomSource.kept_sublist_kept uncertain certain (share_le_share first second ordered)
      items source

/-! ## The links of a random graph -/

namespace Topology

/-- The ordered pairs of two different numbers below a count. -/
def properPairs (count : Nat) : List (Nat × Nat) :=
  (Template.mesh.pairs count).filter fun pair => pair.1 ≠ pair.2

theorem mem_properPairs_iff {count source target : Nat} :
    (source, target) ∈ properPairs count ↔ Template.mesh.Joins count source target := by
  simp only [properPairs, List.mem_filter, decide_eq_true_eq]
  exact Template.mem_pairs_iff

theorem nodup_properPairs (count : Nat) : (properPairs count).Nodup :=
  (List.nodup_range.product List.nodup_range).filter _

section

variable {R : Type} [Scalar R] {G : Type} [RandomSource G]

/-- Loops draw nothing, and every other pair is drawn for, whatever is linked already. -/
theorem foldl_linkByChance (probability : R) (pairs : List (Nat × Nat)) (topology : Topology R)
    (source : G) :
    (pairs.foldl (linkByChance probability) (topology, source)).1 =
      (kept probability (pairs.filter fun pair => pair.1 ≠ pair.2) source).foldl link topology := by
  induction pairs generalizing topology source with
  | nil => rfl
  | cons pair rest ih =>
    rw [List.foldl_cons]
    by_cases loop : pair.1 = pair.2
    · simp [linkByChance, loop, ih]
    · rw [List.filter_cons_of_pos (by simpa using loop), kept_cons, linkByChance, if_neg loop, ih]
      split <;> rfl

theorem numbered_random (count : Nat) (probability : R) (version : String) (source : G) :
    Numbered count (kept (held probability) (properPairs count) source)
      (random count probability version source).1 := by
  have drawn : (random count probability version source).1 =
      (kept (held probability) (properPairs count) source).foldl link
        (numbered ("random_" ++ Nat.repr count) count version .empty) :=
    foldl_linkByChance (held probability) (Template.mesh.pairs count) _ source
  have proper := kept_sublist (held probability) (properPairs count) source
  have joins (pair : Nat × Nat)
      (member : pair ∈ kept (held probability) (properPairs count) source) :
      Template.mesh.Joins count pair.1 pair.2 :=
    mem_properPairs_iff.1 (proper.subset member)
  have start : Numbered count [] (numbered ("random_" ++ Nat.repr count) count version .empty :
    Topology R) := numbered_start _ count version .empty
  have linked := start.links_of_new (fun pair member => (joins pair member).inside)
    (fun pair member => (joins pair member).2.2) (proper.nodup (nodup_properPairs count))
  rw [drawn]
  exact linked

end

/-- Random graphs of larger probabilities only have more links, in the same order. All of them
are valid; those of probability zero have no link, and those of probability one link all pairs
both ways. -/
theorem random_links {G : Type} [RandomSource G] (count : Nat) (version : String) (source : G) :
    let graph (probability : Float) : Topology Float :=
      (random count probability version source).1
    (∀ p q, 0.0 ≤ p → p ≤ 1.0 → 0.0 ≤ q → q ≤ 1.0 → p ≤ q →
      (graph p).edges.Sublist (graph q).edges) ∧
    (∀ p, (graph p).validate = .ok ()) ∧
    (∀ p, (p == 0.0) = true → (graph p).edges = []) ∧
    ∀ p, (p == 1.0) = true →
      (∀ edge, edge ∈ (graph p).edges ↔ ∃ i j,
        edge = ⟨.ofNat i, .ofNat j⟩ ∧ i < count ∧ j < count ∧ i ≠ j) ∧
      (graph p).edges.length = count * (count - 1) := by
  intro graph
  have drawn (p : Float) :
      Numbered count (kept (held p) (properPairs count) source) (graph p) :=
    numbered_random count p version source
  refine ⟨fun p q low high lowToo highToo ordered => ?_,
    fun p => validate_eq_ok_iff.2 (drawn p).valid, fun p equal => ?_, fun p equal => ?_⟩
  · have first := Probability.proportion_of_between low high
    have second := Probability.proportion_of_between lowToo highToo
    rw [(drawn p).edges, (drawn q).edges, Probability.held_eq_self first,
      Probability.held_eq_self second]
    exact (Probability.kept_sublist_kept first second ordered (properPairs count) source).map _
  · obtain ⟨same, uncertain, none⟩ := Probability.share_of_eq_zero equal
    rw [(drawn p).edges, same, kept_of_no_share uncertain none, List.map_nil]
  · have all := drawn p
    rw [Probability.held_of_eq_one equal, kept_of_certain equal] at all
    refine ⟨fun edge => ?_, ?_⟩
    · simp only [all.mem_edges, mem_properPairs_iff, Template.Joins]
    · rw [all.edges, List.length_map]
      exact length_of_joins all.distinct fun _ _ => mem_properPairs_iff

theorem random_links_halves :
    let graph (probability : Float) : Topology Float :=
      (random 5 probability "26.0" (Random.Stream.ofSeed 3)).1
    (graph 0.25).edges.Sublist (graph 0.5).edges ∧ (graph 0.0).edges = [] ∧
      (graph 1.0).edges.length = 20 := by
  obtain ⟨growing, -, none, all⟩ := random_links 5 "26.0" (Random.Stream.ofSeed 3)
  refine ⟨growing 0.25 0.5 ?_ ?_ ?_ ?_ ?_, none 0.0 rfl, (all 1.0 rfl).2⟩
  all_goals decide

end Topology

end PeerNet
