import Mathlib.Order.Bounds.Basic
import PeerNet.Proofs.Layout.Acyclic
import PeerNet.Proofs.Layout.Ranks

/-!
# Ranks are lengths of longest paths

Ranks rise along the arcs, so no path into a node has more arcs than the rank of the node.
While nodes are settled, a rank that is not zero is one more than the rank of some settled
predecessor, which no longer changes; along such predecessors leads a path that has as many
arcs. The counters that drive this count arcs that are still to be seen, so none of them
falls below zero, and without a cycle every node is taken from the queue exactly once.
-/

set_option autoImplicit false

namespace PeerNet.Layout

variable {count : Nat} {arcs : List Arc}

namespace Ranking

variable {ranking : Ranking}

/-! ## Counters -/

/-- Every arc that the next step sees is still pending when it is seen. -/
def CountsDown (arcs : List Arc) (ranking : Ranking) : Prop :=
  ∀ node queue, ranking.queue = node :: queue →
    ∀ seen target rest, successors arcs node = seen ++ target :: rest →
      0 < (seen.foldl (see (ranking.ranks.getD node 0))
        { ranking with queue, settled := node :: ranking.settled }).pending.getD target 0

theorem Sound.countsDown (sound : Sound count arcs ranking) : ranking.CountsDown arcs := by
  intro node queue queued seen target rest split
  have enough := sound.count_successors_le queued target
  rw [split, List.count_append, List.count_cons_self] at enough
  rw [pending_foldl_see]
  have left : seen.count target < ranking.pending.getD target 0 := by omega
  exact Nat.sub_pos_of_lt left

/-! ## Predecessors -/

/-- A rank that is not zero comes from a settled predecessor one rank below. -/
def Attained (arcs : List Arc) (ranking : Ranking) : Prop :=
  ∀ node, 0 < ranking.ranks.getD node 0 →
    ∃ source ∈ ranking.settled, Linked arcs source node ∧
      ranking.ranks.getD source 0 + 1 = ranking.ranks.getD node 0

theorem attained_initial (count : Nat) (arcs : List Arc) : (initial count arcs).Attained arcs := by
  intro node positive
  have zero : (initial count arcs).ranks.getD node 0 = 0 := by
    simp only [initial, List.getD_eq_getElem?_getD, List.getElem?_replicate]
    split
    · rfl
    · rfl
  omega

/-- A step leaves a rank as it is, or puts it one above the rank of the settled node. -/
theorem ranks_settle_cases (arcs : List Arc) {node : Nat} {queue : List Nat}
    (queued : ranking.queue = node :: queue) (other : Nat) :
    (ranking.settle arcs).ranks.getD other 0 = ranking.ranks.getD other 0 ∨
      Linked arcs node other ∧
        (ranking.settle arcs).ranks.getD other 0 = ranking.ranks.getD node 0 + 1 := by
  by_cases known : other < ranking.ranks.length
  · rw [ranks_settle queued known]
    split
    · next member =>
      rcases Nat.le_total (ranking.ranks.getD other 0) (ranking.ranks.getD node 0 + 1) with
        below | above
      · exact .inr ⟨mem_successors.1 member, Nat.max_eq_right below⟩
      · exact .inl (Nat.max_eq_left above)
    · exact .inl rfl
  · have beyond := Nat.le_of_not_lt known
    simp [List.getD_eq_getElem?_getD, length_ranks_settle, beyond]

/-- The nodes that were queued or settled keep their ranks. -/
theorem Sound.ranks_settle_of_mem (sound : Sound count arcs ranking) {node : Nat}
    {queue : List Nat} (queued : ranking.queue = node :: queue) {other : Nat}
    (done : other ∈ ranking.settled ++ ranking.queue) :
    (ranking.settle arcs).ranks.getD other 0 = ranking.ranks.getD other 0 := by
  have known : other < ranking.ranks.length := by
    rw [sound.length]
    exact ((sound.ready other).1 done).1
  rw [ranks_settle queued known, if_neg (sound.not_mem_successors queued done)]

theorem Attained.settle (sound : Sound count arcs ranking) (attained : ranking.Attained arcs) :
    (ranking.settle arcs).Attained arcs := by
  cases queued : ranking.queue with
  | nil =>
    rw [Ranking.settle, queued]
    exact attained
  | cons node queue =>
    intro other positive
    rw [settled_settle queued]
    rcases ranks_settle_cases arcs queued other with same | ⟨linked, raised⟩
    · rw [same] at positive ⊢
      obtain ⟨source, settled, linked, above⟩ := attained other positive
      have keeps := sound.ranks_settle_of_mem queued (List.mem_append_left _ settled)
      exact ⟨source, List.mem_cons_of_mem _ settled, linked, keeps ▸ above⟩
    · have waited : node ∈ ranking.settled ++ ranking.queue := by simp [queued]
      have keeps := sound.ranks_settle_of_mem queued waited
      exact ⟨node, List.mem_cons_self, linked, by rw [keeps, raised]⟩

theorem Attained.settleAll (proper : Proper count arcs) (steps : Nat)
    (sound : Sound count arcs ranking) (attained : ranking.Attained arcs) :
    (ranking.settleAll arcs steps).Attained arcs := by
  induction steps generalizing ranking with
  | zero => exact attained
  | succ steps ih =>
    rw [Ranking.settleAll]
    split
    · exact attained
    · exact ih (sound.settle proper) (attained.settle sound)

theorem attained_final (proper : Proper count arcs) : (final count arcs).Attained arcs :=
  (attained_initial count arcs).settleAll proper count (sound_initial proper)

/-! ## The queue -/

/-- Without a cycle the nodes are taken from the queue once each, until none is left. -/
theorem settled_final_perm (proper : Proper count arcs) (founded : WellFounded (Linked arcs)) :
    (final count arcs).settled.Perm (List.range count) := by
  have sound := sound_final proper
  have distinct : (final count arcs).settled.Nodup := (List.nodup_append.1 sound.distinct).1
  refine (List.perm_ext_iff_of_nodup distinct List.nodup_range).2 fun node => ?_
  constructor
  · intro settled
    exact List.mem_range.2 ((sound.ready node).1 (List.mem_append_left _ settled)).1
  · intro known
    exact mem_settled_final proper founded node (List.mem_range.1 known)

end Ranking

/-! ## Paths -/

/-- A path with that many arcs ends in a node. -/
inductive PathTo (arcs : List Arc) : Nat → Nat → Prop where
  | start {node : Nat} : PathTo arcs 0 node
  | append {edges source target : Nat} :
      PathTo arcs edges source → Linked arcs source target → PathTo arcs (edges + 1) target

theorem PathTo.le_rank (proper : Proper count arcs) (founded : WellFounded (Linked arcs))
    {edges node : Nat} (path : PathTo arcs edges node) :
    edges ≤ (longestPathRanks count arcs).getD node 0 := by
  induction path with
  | start => exact Nat.zero_le _
  | append _ linked ih => exact Nat.succ_le_of_lt (ih.trans_lt (rank_lt_rank proper founded linked))

theorem exists_predecessor (proper : Proper count arcs) {node : Nat}
    (positive : 0 < (longestPathRanks count arcs).getD node 0) :
    ∃ source, Linked arcs source node ∧
      (longestPathRanks count arcs).getD source 0 + 1 =
        (longestPathRanks count arcs).getD node 0 := by
  obtain ⟨source, -, linked, above⟩ := Ranking.attained_final proper node positive
  exact ⟨source, linked, above⟩

theorem pathTo_rank (proper : Proper count arcs) {rank node : Nat}
    (ranked : (longestPathRanks count arcs).getD node 0 = rank) : PathTo arcs rank node := by
  induction rank generalizing node with
  | zero => exact .start
  | succ rank ih =>
    have positive : 0 < (longestPathRanks count arcs).getD node 0 := by
      rw [ranked]
      exact Nat.succ_pos rank
    obtain ⟨source, linked, above⟩ := exists_predecessor proper positive
    exact .append (ih (Nat.succ.inj (above.trans ranked))) linked

theorem isGreatest_rank (proper : Proper count arcs) (founded : WellFounded (Linked arcs))
    (node : Nat) :
    IsGreatest {edges | PathTo arcs edges node} ((longestPathRanks count arcs).getD node 0) :=
  ⟨pathTo_rank proper rfl, fun _ path => path.le_rank proper founded⟩

/-- Without a cycle the rank of a node is the number of arcs on the longest path that ends in
it. No counter falls below zero on the way, every node is taken from the queue once, an arc
leads to a higher rank, and above rank zero a node has a predecessor one rank below. -/
theorem longestPathRanks_longest (count : Nat) (arcs : List Arc)
    (inside : ∀ arc ∈ arcs, arc.1 < count ∧ arc.2 < count) (acyclic : Acyclic arcs) :
    let rank node := (longestPathRanks count arcs).getD node 0
    (longestPathRanks count arcs).length = count ∧
      (∀ node < count, IsGreatest {edges | PathTo arcs edges node} (rank node)) ∧
      (∀ steps, ((Ranking.initial count arcs).settleAll arcs steps).CountsDown arcs) ∧
      (Ranking.final count arcs).settled.Perm (List.range count) ∧
      (Ranking.final count arcs).queue = [] ∧
      (∀ source target, Linked arcs source target → rank source < rank target) ∧
      ∀ node, 0 < rank node →
        ∃ source, Linked arcs source node ∧ rank source + 1 = rank node := by
  intro rank
  have proper := acyclic.proper inside
  have founded := wellFounded_of_acyclic proper acyclic
  refine ⟨length_longestPathRanks count arcs, ?longest, ?counters,
    Ranking.settled_final_perm proper founded, Ranking.queue_final proper, ?rising, ?attained⟩
  case longest =>
    intro node _
    exact isGreatest_rank proper founded node
  case counters =>
    intro steps
    exact ((Ranking.sound_initial proper).settleAll proper steps).countsDown
  case rising =>
    intro source target linked
    exact rank_lt_rank proper founded linked
  case attained =>
    intro node positive
    exact exists_predecessor proper positive

/-- A link that is there twice, and a node that no link touches. -/
theorem longestPathRanks_longest_repeated :
    let arcs := [(0, 1), (1, 2), (0, 2), (0, 1)]
    (∀ arc ∈ arcs, arc.1 < 4 ∧ arc.2 < 4) ∧ Acyclic arcs ∧
      longestPathRanks 4 arcs = [0, 1, 2, 0] ∧ IsGreatest {edges | PathTo arcs edges 2} 2 ∧
      (Ranking.final 4 arcs).settled.Perm (List.range 4) := by
  intro arcs
  have inside : ∀ arc ∈ arcs, arc.1 < 4 ∧ arc.2 < 4 := by decide
  have forth : ∀ arc ∈ arcs, arc.1 < arc.2 := by decide
  have founded : WellFounded (Linked arcs) :=
    Subrelation.wf (fun linked => forth _ linked) Nat.lt_wfRel.wf
  have acyclic := acyclic_of_wellFounded founded
  have ranks : longestPathRanks 4 arcs = [0, 1, 2, 0] := by decide
  obtain ⟨-, longest, -, once, -⟩ := longestPathRanks_longest 4 arcs inside acyclic
  have second := longest 2 (by decide)
  rw [ranks] at second
  exact ⟨inside, acyclic, ranks, second, once⟩

end PeerNet.Layout
