import Mathlib.Data.List.Nodup
import PeerNet.Layout.Ranks
import PeerNet.Proofs.Layout.DepthFirst
import PeerNet.Proofs.Tally

/-!
# Ranks rise along arcs

While nodes are settled, the pending number of a node counts the arcs into it from
nodes that are not settled yet. So a node is queued exactly when all its predecessors
are settled, its rank no longer changes from then on, and it is below the ranks of its
successors once it is settled itself. Where no cycle is in the way, all nodes get
settled.
-/

set_option autoImplicit false

namespace PeerNet.Layout

theorem count_successors (arcs : List Arc) (source target : Nat) :
    (successors arcs source).count target =
      arcs.countP fun arc => arc.1 = source ∧ arc.2 = target := by
  rw [successors, List.count, List.countP_map, List.countP_filter]
  refine List.countP_congr fun arc _ => ?_
  simp [and_comm]

namespace Ranking

/-! ## Seeing the successors of a node -/

theorem settled_foldl_see (rank : Nat) (targets : List Nat) (ranking : Ranking) :
    (targets.foldl (see rank) ranking).settled = ranking.settled :=
  have keeps (ranking : Ranking) (target : Nat) :
      (ranking.see rank target).settled = ranking.settled := rfl
  view_foldl (fun ranking : Ranking => ranking.settled) keeps ranking targets

theorem length_ranks_foldl_see (rank : Nat) (targets : List Nat) (ranking : Ranking) :
    (targets.foldl (see rank) ranking).ranks.length = ranking.ranks.length :=
  have keeps (ranking : Ranking) (target : Nat) :
      (ranking.see rank target).ranks.length = ranking.ranks.length := List.length_modify ..
  view_foldl (fun ranking : Ranking => ranking.ranks.length) keeps ranking targets

theorem pending_see (rank : Nat) (ranking : Ranking) (target node : Nat) :
    (ranking.see rank target).pending.getD node 0 =
      ranking.pending.getD node 0 - [target].count node := by
  rw [see, List.getD_eq_getElem?_getD, List.getElem?_set, List.count_singleton]
  by_cases same : target = node
  · subst same
    rw [if_pos rfl, if_pos (beq_self_eq_true target)]
    split
    · rfl
    · next beyond =>
      rw [List.getD_eq_getElem?_getD, List.getElem?_eq_none (Nat.le_of_not_lt beyond)]
      rfl
  · rw [if_neg same, if_neg (by simpa using same), List.getD_eq_getElem?_getD, Nat.sub_zero]

theorem pending_foldl_see (rank : Nat) (targets : List Nat) (ranking : Ranking) (node : Nat) :
    (targets.foldl (see rank) ranking).pending.getD node 0 =
      ranking.pending.getD node 0 - targets.count node := by
  induction targets generalizing ranking with
  | nil => rw [List.count_nil, Nat.sub_zero, List.foldl_nil]
  | cons target rest ih =>
    rw [List.foldl_cons, ih, pending_see, Nat.sub_sub, ← List.count_append, List.singleton_append]

theorem ranks_foldl_see (rank : Nat) (targets : List Nat) (ranking : Ranking) {node : Nat}
    (known : node < ranking.ranks.length) :
    (targets.foldl (see rank) ranking).ranks.getD node 0 =
      if node ∈ targets then max (ranking.ranks.getD node 0) (rank + 1)
      else ranking.ranks.getD node 0 := by
  induction targets generalizing ranking with
  | nil => rfl
  | cons target rest ih =>
    have step : (ranking.see rank target).ranks.getD node 0 =
        if target = node then max (ranking.ranks.getD node 0) (rank + 1)
        else ranking.ranks.getD node 0 := by
      rw [see, List.getD_eq_getElem?_getD, List.getD_eq_getElem?_getD, List.getElem?_modify,
        List.getElem?_eq_getElem known]
      by_cases same : target = node
      · simp [same, List.getElem?_eq_getElem known]
      · simp [same, List.getElem?_eq_getElem known]
    rw [List.foldl_cons, ih _ (by rw [see, List.length_modify]; exact known), step]
    by_cases same : target = node
    · simp [same]
    · simp [same, Ne.symm same]

/-- Of the targets those are queued whose pending arcs are all among the arcs seen. -/
theorem queue_foldl_see (rank : Nat) (targets : List Nat) (ranking : Ranking)
    (covered : ∀ node, targets.count node ≤ ranking.pending.getD node 0) :
    ∃ added, (targets.foldl (see rank) ranking).queue = ranking.queue ++ added ∧ added.Nodup ∧
      ∀ node, node ∈ added ↔
        node ∈ targets ∧ ranking.pending.getD node 0 = targets.count node := by
  induction targets generalizing ranking with
  | nil => exact ⟨[], by simp, List.nodup_nil, by simp⟩
  | cons target rest ih =>
    have counts (node : Nat) :
        (target :: rest).count node = [target].count node + rest.count node := by
      rw [← List.count_append, List.singleton_append]
    have coveredRest (node : Nat) :
        rest.count node ≤ (ranking.see rank target).pending.getD node 0 := by
      have enough := covered node
      rw [counts] at enough
      rw [pending_see]
      omega
    obtain ⟨added, queue, distinct, members⟩ := ih (ranking.see rank target) coveredRest
    have later (node : Nat) : node ∈ added ↔
        node ∈ rest ∧ ranking.pending.getD node 0 = (target :: rest).count node := by
      have enough := covered node
      rw [counts] at enough
      rw [members, pending_see, counts]
      exact and_congr_right fun _ => by omega
    have enough := covered target
    have once : [target].count target = 1 := List.count_singleton_self
    rw [counts, once] at enough
    have queued : (ranking.see rank target).queue =
        if ranking.pending.getD target 0 - 1 = 0 then ranking.queue ++ [target]
        else ranking.queue := rfl
    rw [List.foldl_cons, queue, queued]
    by_cases last : ranking.pending.getD target 0 - 1 = 0
    · have unlisted : target ∉ rest := fun member => by
        have more := List.count_pos_iff.2 member
        omega
      have only : ranking.pending.getD target 0 = (target :: rest).count target := by
        rw [counts, once, List.count_eq_zero.2 unlisted]
        omega
      rw [if_pos last, List.append_assoc, List.singleton_append]
      refine ⟨target :: added, rfl, List.nodup_cons.2 ⟨?_, distinct⟩, fun node => ?_⟩
      · exact fun member => unlisted ((later target).1 member).1
      · rw [List.mem_cons, List.mem_cons, later]
        constructor
        · rintro (rfl | ⟨member, equal⟩)
          · exact ⟨.inl rfl, only⟩
          · exact ⟨.inr member, equal⟩
        · rintro ⟨rfl | member, equal⟩
          · exact .inl rfl
          · exact .inr ⟨member, equal⟩
    · rw [if_neg last]
      refine ⟨added, rfl, distinct, fun node => ?_⟩
      rw [later, List.mem_cons]
      constructor
      · rintro ⟨member, equal⟩
        exact ⟨.inr member, equal⟩
      · rintro ⟨rfl | member, equal⟩
        · refine ⟨List.count_pos_iff.1 ?_, equal⟩
          rw [counts, once] at equal
          omega
        · exact ⟨member, equal⟩

/-! ## Settling a node -/

section

variable {arcs : List Arc} {ranking : Ranking} {node : Nat} {queue : List Nat}

theorem length_ranks_settle (arcs : List Arc) (ranking : Ranking) :
    (ranking.settle arcs).ranks.length = ranking.ranks.length := by
  rw [settle]
  split
  · rfl
  · exact length_ranks_foldl_see ..

theorem settled_settle (queued : ranking.queue = node :: queue) :
    (ranking.settle arcs).settled = node :: ranking.settled := by
  rw [settle, queued]
  exact settled_foldl_see ..

theorem pending_settle (queued : ranking.queue = node :: queue) (other : Nat) :
    (ranking.settle arcs).pending.getD other 0 =
      ranking.pending.getD other 0 - (successors arcs node).count other := by
  rw [settle, queued]
  exact pending_foldl_see ..

theorem ranks_settle (queued : ranking.queue = node :: queue) {other : Nat}
    (known : other < ranking.ranks.length) :
    (ranking.settle arcs).ranks.getD other 0 =
      if other ∈ successors arcs node then
        max (ranking.ranks.getD other 0) (ranking.ranks.getD node 0 + 1)
      else ranking.ranks.getD other 0 := by
  rw [settle, queued]
  exact ranks_foldl_see _ _ _ known

theorem queue_settle (queued : ranking.queue = node :: queue)
    (covered : ∀ other, (successors arcs node).count other ≤ ranking.pending.getD other 0) :
    ∃ added, (ranking.settle arcs).queue = queue ++ added ∧ added.Nodup ∧
      ∀ other, other ∈ added ↔ other ∈ successors arcs node ∧
        ranking.pending.getD other 0 = (successors arcs node).count other := by
  rw [settle, queued]
  exact queue_foldl_see _ _ _ covered

end

/-- Arcs are pending from nodes that are not settled, a node without pending arcs is queued
or settled, and the settled nodes rank below their successors. -/
structure Sound (count : Nat) (arcs : List Arc) (ranking : Ranking) : Prop where
  length : ranking.ranks.length = count
  distinct : (ranking.settled ++ ranking.queue).Nodup
  pending : ∀ node, ranking.pending.getD node 0 =
    arcs.countP fun arc => arc.2 = node ∧ arc.1 ∉ ranking.settled
  ready : ∀ node, node ∈ ranking.settled ++ ranking.queue ↔
    node < count ∧ ranking.pending.getD node 0 = 0
  rising : ∀ {source target : Nat}, Linked arcs source target → source ∈ ranking.settled →
    ranking.ranks.getD source 0 < ranking.ranks.getD target 0

variable {count : Nat} {arcs : List Arc} {ranking : Ranking}

theorem sound_initial (proper : Proper count arcs) : Sound count arcs (initial count arcs) := by
  have pending (node : Nat) : (initial count arcs).pending.getD node 0 =
      arcs.countP fun arc => arc.2 = node := by
    rw [initial, List.getD_eq_getElem?_getD, List.getElem?_map]
    by_cases known : node < count
    · rw [List.getElem?_range known]
      rfl
    · rw [List.getElem?_eq_none (by rw [List.length_range]; exact Nat.le_of_not_lt known)]
      refine (List.countP_eq_zero.2 fun arc member same => known ?_).symm
      rw [← of_decide_eq_true same]
      exact proper.target arc member
  refine ⟨List.length_replicate, ?_, fun node => ?_, fun node => ?_, fun _ member => ?_⟩
  · exact List.nodup_range.filter _
  · rw [pending]
    refine List.countP_congr fun arc _ => ?_
    simp [initial]
  · simp [initial]
  · cases member

/-- The arcs into a node that are pending before its source is settled. -/
theorem countP_pending (settled : List Nat) {source : Nat} (unsettled : source ∉ settled)
    (target : Nat) :
    (arcs.countP fun arc => arc.2 = target ∧ arc.1 ∉ settled) =
      (arcs.countP fun arc => arc.2 = target ∧ arc.1 ∉ source :: settled) +
        (successors arcs source).count target := by
  rw [count_successors]
  induction arcs with
  | nil => rfl
  | cons arc rest ih =>
    rw [List.countP_cons, List.countP_cons, List.countP_cons, ih]
    by_cases same : arc.1 = source
    · simp [same, unsettled]
      omega
    · simp [same]
      omega

namespace Sound

section

variable {node : Nat} {queue : List Nat} (sound : Sound count arcs ranking)
  (queued : ranking.queue = node :: queue)

include sound queued

theorem pending_eq_add (target : Nat) :
    ranking.pending.getD target 0 =
      (arcs.countP fun arc => arc.2 = target ∧ arc.1 ∉ node :: ranking.settled) +
        (successors arcs node).count target := by
  have distinct := sound.distinct
  rw [queued] at distinct
  have unsettled : node ∉ ranking.settled := fun settled =>
    (List.nodup_append.1 distinct).2.2 node settled node List.mem_cons_self rfl
  rw [sound.pending, countP_pending _ unsettled]

theorem count_successors_le (target : Nat) :
    (successors arcs node).count target ≤ ranking.pending.getD target 0 := by
  rw [sound.pending_eq_add queued]
  exact Nat.le_add_left ..

/-- The arcs into a node that was queued have all been seen. -/
theorem not_mem_successors {other : Nat} (done : other ∈ ranking.settled ++ ranking.queue) :
    other ∉ successors arcs node := by
  intro member
  have waits := sound.count_successors_le queued other
  have counted := List.count_pos_iff.2 member
  rw [((sound.ready other).1 done).2] at waits
  omega

theorem pending_settle (target : Nat) :
    (ranking.settle arcs).pending.getD target 0 =
      arcs.countP fun arc => arc.2 = target ∧ arc.1 ∉ (ranking.settle arcs).settled := by
  rw [Ranking.pending_settle queued, settled_settle queued, sound.pending_eq_add queued]
  exact Nat.add_sub_cancel ..

/-- The nodes that are queued or settled after a step are those that were, and the
successors with no further arc pending. -/
theorem exists_added :
    ∃ added, ((ranking.settle arcs).settled ++ (ranking.settle arcs).queue).Perm
        ((ranking.settled ++ ranking.queue) ++ added) ∧ added.Nodup ∧
      ∀ other, other ∈ added ↔ other ∈ successors arcs node ∧
        (ranking.settle arcs).pending.getD other 0 = 0 := by
  obtain ⟨added, newQueue, distinct, members⟩ :=
    queue_settle queued (sound.count_successors_le queued)
  refine ⟨added, ?_, distinct, fun other => ?_⟩
  · rw [settled_settle queued, newQueue, queued, ← List.append_assoc, List.cons_append]
    exact List.perm_middle.symm.append_right added
  · rw [members, Ranking.pending_settle queued]
    have enough := sound.count_successors_le queued other
    exact and_congr_right fun _ => by omega

theorem ready_settle (proper : Proper count arcs) (other : Nat) :
    other ∈ (ranking.settle arcs).settled ++ (ranking.settle arcs).queue ↔
      other < count ∧ (ranking.settle arcs).pending.getD other 0 = 0 := by
  obtain ⟨added, moved, -, members⟩ := sound.exists_added queued
  rw [moved.mem_iff, List.mem_append, members]
  by_cases member : other ∈ successors arcs node
  · have known : other < count := proper.target (node, other) (mem_successors.1 member)
    have new : other ∉ ranking.settled ++ ranking.queue := fun done =>
      sound.not_mem_successors queued done member
    simp only [new, member, known, false_or, true_and]
  · rw [sound.ready, Ranking.pending_settle queued, List.count_eq_zero.2 member, Nat.sub_zero]
    simp only [member, false_and, or_false]

theorem rising_settle (proper : Proper count arcs) {source target : Nat}
    (linked : Linked arcs source target) (settled : source ∈ (ranking.settle arcs).settled) :
    (ranking.settle arcs).ranks.getD source 0 < (ranking.settle arcs).ranks.getD target 0 := by
  have known {other : Nat} (below : other < count) : other < ranking.ranks.length :=
    sound.length.symm ▸ below
  rw [settled_settle queued] at settled
  have still : source ∉ successors arcs node := by
    refine sound.not_mem_successors queued (List.mem_append.2 ?_)
    rw [queued]
    rcases List.mem_cons.1 settled with rfl | earlier
    · exact .inr List.mem_cons_self
    · exact .inl earlier
  rw [ranks_settle queued (known (proper.source _ linked)), if_neg still,
    ranks_settle queued (known (proper.target _ linked))]
  rcases List.mem_cons.1 settled with rfl | earlier
  · rw [if_pos (mem_successors.2 linked)]
    exact Nat.lt_of_lt_of_le (Nat.lt_succ_self _) (Nat.le_max_right ..)
  · have before := sound.rising linked earlier
    split
    · exact Nat.lt_of_lt_of_le before (Nat.le_max_left ..)
    · exact before

end

theorem settle (proper : Proper count arcs) (sound : Sound count arcs ranking) :
    Sound count arcs (ranking.settle arcs) := by
  cases queued : ranking.queue with
  | nil =>
    rw [Ranking.settle, queued]
    exact sound
  | cons node queue =>
    obtain ⟨added, moved, distinct, members⟩ := sound.exists_added queued
    have apart : (ranking.settled ++ ranking.queue).Disjoint added := fun other done new =>
      sound.not_mem_successors queued done ((members other).1 new).1
    exact {
      length := (length_ranks_settle arcs ranking).trans sound.length
      distinct := moved.nodup_iff.2 (List.nodup_append'.2 ⟨sound.distinct, distinct, apart⟩)
      pending := sound.pending_settle queued
      ready := sound.ready_settle queued proper
      rising := sound.rising_settle queued proper }

end Sound

/-! ## Settling all nodes -/

theorem length_ranks_settleAll (arcs : List Arc) (steps : Nat) (ranking : Ranking) :
    (ranking.settleAll arcs steps).ranks.length = ranking.ranks.length := by
  induction steps generalizing ranking with
  | zero => rfl
  | succ steps ih =>
    rw [settleAll]
    split
    · rfl
    · rw [ih, length_ranks_settle]

theorem Sound.settleAll (proper : Proper count arcs) (steps : Nat)
    (sound : Sound count arcs ranking) : Sound count arcs (ranking.settleAll arcs steps) := by
  induction steps generalizing ranking with
  | zero => exact sound
  | succ steps ih =>
    rw [Ranking.settleAll]
    split
    · exact sound
    · exact ih (sound.settle proper)

theorem sound_final (proper : Proper count arcs) : Sound count arcs (final count arcs) :=
  (sound_initial proper).settleAll proper count

theorem settleAll_exhausts (steps : Nat) (ranking : Ranking) :
    (ranking.settleAll arcs steps).queue = [] ∨
      (ranking.settleAll arcs steps).settled.length = ranking.settled.length + steps := by
  induction steps generalizing ranking with
  | zero => exact .inr rfl
  | succ steps ih =>
    rw [settleAll]
    cases queued : ranking.queue with
    | nil => exact .inl queued
    | cons node queue =>
      rw [List.isEmpty_cons, if_neg Bool.false_ne_true]
      have done := ih (ranking.settle arcs)
      rw [settled_settle queued, List.length_cons, Nat.add_right_comm] at done
      exact done

theorem queue_final (proper : Proper count arcs) : (final count arcs).queue = [] := by
  have sound := sound_final proper
  rcases settleAll_exhausts count (initial count arcs) with drained | spent
  · exact drained
  · have few : ((final count arcs).settled ++ (final count arcs).queue).length ≤
        (List.range count).length :=
      sound.distinct.length_le_of_subset fun node member =>
        List.mem_range.2 ((sound.ready node).1 member).1
    have all : (final count arcs).settled.length = 0 + count := spent
    rw [List.length_append, all, List.length_range] at few
    exact List.eq_nil_of_length_eq_zero (by omega)

/-- Every node is settled once its predecessors are. -/
theorem mem_settled_final (proper : Proper count arcs) (founded : WellFounded (Linked arcs))
    (node : Nat) (known : node < count) : node ∈ (final count arcs).settled := by
  have sound := sound_final proper
  have ready := sound.ready
  rw [queue_final proper, List.append_nil] at ready
  -- Along the arcs no node waits for itself.
  induction node using founded.induction with
  | _ node ih =>
    refine (ready node).2 ⟨known, ?_⟩
    rw [sound.pending]
    refine List.countP_eq_zero.2 fun arc member waits => ?_
    obtain ⟨rfl, unsettled⟩ := of_decide_eq_true waits
    exact unsettled (ih arc.1 member (proper.source arc member))

end Ranking

theorem length_longestPathRanks (count : Nat) (arcs : List Arc) :
    (longestPathRanks count arcs).length = count :=
  (Ranking.length_ranks_settleAll arcs count _).trans List.length_replicate

theorem rank_lt_rank {count : Nat} {arcs : List Arc} (proper : Proper count arcs)
    (founded : WellFounded (Linked arcs)) {source target : Nat}
    (linked : Linked arcs source target) :
    (longestPathRanks count arcs).getD source 0 < (longestPathRanks count arcs).getD target 0 :=
  (Ranking.sound_final proper).rising linked
    (Ranking.mem_settled_final proper founded source (proper.source _ linked))

end PeerNet.Layout
