import Mathlib.Data.List.Flatten
import PeerNet.Proofs.Layout.Layers
import PeerNet.Proofs.Layout.LongestPaths

/-!
# Reorderings of the layers

The sweeps are a run of reorderings, each of which sorts one row by means of the slots and
notes its new places. Whatever has been reordered so far, the rows hold each node once, in the
row of its rank, and the slots tell the place of every node in its row, also of the nodes whose
rows were left alone. On the way to a rank a longest path has a node of every lower rank, so no
row is empty where there are nodes.
-/

set_option autoImplicit false

namespace PeerNet.Layout

/-! ## Ranks that occur -/

theorem exists_rank_eq {count : Nat} {arcs : List Arc} (proper : Proper count arcs) {node : Nat}
    (known : node < count) {rank : Nat}
    (below : rank ≤ (longestPathRanks count arcs).getD node 0) :
    ∃ other < count, (longestPathRanks count arcs).getD other 0 = rank := by
  -- Predecessors one rank below lead down to each lower rank.
  induction height : (longestPathRanks count arcs).getD node 0 generalizing node with
  | zero => exact ⟨node, known, by omega⟩
  | succ last ih =>
    by_cases reached : rank = last + 1
    · exact ⟨node, known, height.trans reached.symm⟩
    · have positive : 0 < (longestPathRanks count arcs).getD node 0 := by omega
      obtain ⟨source, linked, above⟩ := exists_predecessor proper positive
      have lower : (longestPathRanks count arcs).getD source 0 = last := by omega
      have above : rank ≤ (longestPathRanks count arcs).getD source 0 := by omega
      exact ih (proper.source _ linked) above lower

theorem foldl_max_mem (ranks : List Nat) : ranks.foldl max 0 = 0 ∨ ranks.foldl max 0 ∈ ranks := by
  have greatest : (0 :: ranks).max? = some (ranks.foldl max 0) := rfl
  exact List.mem_cons.1 (List.max?_mem greatest)

/-- Where there are nodes, every rank up to the highest one is the rank of a node. -/
theorem exists_rank_of_le {count : Nat} {arcs : List Arc} (proper : Proper count arcs)
    (some : 0 < count) {rank : Nat} (below : rank ≤ (longestPathRanks count arcs).foldl max 0) :
    ∃ node < count, (longestPathRanks count arcs).getD node 0 = rank := by
  rcases foldl_max_mem (longestPathRanks count arcs) with none | member
  · exact exists_rank_eq proper some (by omega)
  · obtain ⟨node, ranked⟩ := List.mem_iff_getElem?.1 member
    have known : node < count := by
      rw [← length_longestPathRanks count arcs]
      exact (List.getElem?_eq_some_iff.1 ranked).1
    refine exists_rank_eq proper known ?_
    rwa [List.getD_eq_getElem?_getD, ranked]

namespace Layers

/-! ## What the rows hold -/

section

variable {count : Nat} {ranks : List Nat} {layers : Layers}

theorem Arranged.getD_row (arranged : Arranged count ranks layers) {rank : Nat}
    (inside : rank < layers.rows.length) : layers.rows[rank].Perm (ofRank count ranks rank) := by
  have row := arranged.row rank
  rwa [List.getD_eq_getElem _ _ inside] at row

theorem Arranged.nodup_flatten (arranged : Arranged count ranks layers) :
    layers.rows.flatten.Nodup := by
  refine List.nodup_flatten.2 ⟨fun row member => ?_, ?_⟩
  · obtain ⟨rank, inside, rfl⟩ := List.mem_iff_getElem.1 member
    exact (arranged.getD_row inside).nodup_iff.2 (nodup_ofRank count ranks rank)
  · refine List.pairwise_iff_getElem.2 fun first last firstInside lastInside before node => ?_
    rw [(arranged.getD_row firstInside).mem_iff, (arranged.getD_row lastInside).mem_iff]
    exact fun inFirst inLast => disjoint_ofRank before.ne inFirst inLast

/-- The rows together hold all nodes, each once. -/
theorem Arranged.flatten_perm (arranged : Arranged count ranks layers) :
    layers.rows.flatten.Perm (List.range count) := by
  refine (List.perm_ext_iff_of_nodup arranged.nodup_flatten List.nodup_range).2 fun node => ?_
  rw [List.mem_flatten, List.mem_range]
  constructor
  · rintro ⟨row, member, held⟩
    obtain ⟨rank, inside, rfl⟩ := List.mem_iff_getElem.1 member
    exact (mem_ofRank.1 ((arranged.getD_row inside).mem_iff.1 held)).1
  · intro known
    have held := arranged.mem_row.2 ⟨known, rfl⟩
    have inside : ranks.getD node 0 < layers.rows.length := by
      rw [arranged.depth]
      exact Nat.lt_succ_of_le (getD_le_depth ranks node)
    rw [List.getD_eq_getElem _ _ inside] at held
    exact ⟨_, List.getElem_mem inside, held⟩

/-- Where there are nodes no row is empty, and without any there is one row, which is. -/
theorem Arranged.nil_mem_rows_iff {arcs : List Arc} (proper : Proper count arcs)
    (arranged : Arranged count (longestPathRanks count arcs) layers) :
    [] ∈ layers.rows ↔ count = 0 := by
  constructor
  · intro member
    obtain ⟨rank, inside, empty⟩ := List.mem_iff_getElem.1 member
    by_contra some
    have below : rank ≤ (longestPathRanks count arcs).foldl max 0 := by
      rw [arranged.depth] at inside
      exact Nat.le_of_lt_succ inside
    obtain ⟨node, known, reached⟩ := exists_rank_of_le proper (Nat.pos_of_ne_zero some) below
    have held := (arranged.getD_row inside).mem_iff.2 (mem_ofRank.2 ⟨known, reached⟩)
    rw [empty] at held
    cases held
  · rintro rfl
    have inside : 0 < layers.rows.length := by
      rw [arranged.depth]
      exact Nat.succ_pos _
    have empty : layers.rows[0] = [] := (arranged.getD_row inside).eq_nil
    exact empty ▸ List.getElem_mem inside

/-- The slot of a node is its index in the row of its rank. -/
theorem Arranged.slot_eq_idxOf (arranged : Arranged count ranks layers) {node : Nat}
    (known : node < count) :
    layers.slots[node]? = some ((layers.rows.getD (ranks.getD node 0) []).idxOf node) := by
  have held := arranged.mem_row.2 ⟨known, rfl⟩
  exact arranged.slot (List.getElem?_idxOf held)

end

/-! ## Runs of reorderings -/

/-- The directions and ranks of all reorderings of the sweeps, in turn. -/
def reorderings (depth : Nat) : List (Direction × Nat) :=
  [Direction.down, .up, .down, .up].flatMap fun direction =>
    (sweepRanks depth direction).map (direction, ·)

section

variable (R : Type) [Scalar R]

def reordered (arcs : List Arc) (layers : Layers) (steps : List (Direction × Nat)) : Layers :=
  steps.foldl (fun layers (direction, rank) => sortRow R arcs direction layers rank) layers

theorem length_rows_sweep (arcs : List Arc) (layers : Layers) (direction : Direction) :
    (sweep R arcs layers direction).rows.length = layers.rows.length :=
  view_foldl (·.rows.length) (fun _ _ => List.length_set ..) layers _

theorem foldl_sweep (arcs : List Arc) (directions : List Direction) (layers : Layers) :
    directions.foldl (sweep R arcs) layers =
      reordered R arcs layers (directions.flatMap fun direction =>
        (sweepRanks layers.rows.length direction).map (direction, ·)) := by
  induction directions generalizing layers with
  | nil => rfl
  | cons direction rest ih =>
    have first : sweep R arcs layers direction = reordered R arcs layers
        ((sweepRanks layers.rows.length direction).map (direction, ·)) := by
      rw [reordered, List.foldl_map]
      rfl
    rw [List.foldl_cons, ih, length_rows_sweep, first, List.flatMap_cons]
    exact (List.foldl_append ..).symm

/-- The rows are ordered by the reorderings of all sweeps. -/
theorem ordered_eq_reordered (count : Nat) (arcs : List Arc) (ranks : List Nat) :
    ordered R count arcs ranks =
      reordered R arcs (initial count ranks) (reorderings (ranks.foldl max 0 + 1)) := by
  rw [← (arranged_initial count ranks).depth]
  exact foldl_sweep R arcs _ _

theorem arranged_reordered (count : Nat) (arcs : List Arc) (ranks : List Nat)
    (steps : List (Direction × Nat)) :
    Arranged count ranks (reordered R arcs (initial count ranks) steps) :=
  List.foldlRecOn _ _ (arranged_initial count ranks) fun _ before step _ =>
    before.sortRow R arcs step.1 step.2

end

end Layers

open Layers

/-- The ranks of the longest paths of an acyclic graph put the nodes into rows, by whatever arcs
the rows are sorted. After each reordering of the sweeps, and so in the end, the rows together
hold all nodes once, each row the nodes of its rank, and the slot of a node is its index in its
row. No row is empty, but for the only one that there is without any nodes, when the ranked
layout orders no rows. -/
theorem rows_after_each_reordering (R : Type) [Scalar R] (count : Nat) (ranked arcs : List Arc)
    (inside : ∀ arc ∈ ranked, arc.1 < count ∧ arc.2 < count) (acyclic : Acyclic ranked) :
    let ranks := longestPathRanks count ranked
    let steps := reorderings (ranks.foldl max 0 + 1)
    ordered R count arcs ranks = reordered R arcs (initial count ranks) steps ∧
      ∀ done, done <+: steps →
        let layers := reordered R arcs (initial count ranks) done
        layers.rows.flatten.Perm (List.range count) ∧
          (∀ rank, (layers.rows.getD rank []).Perm
            ((List.range count).filter fun node => ranks.getD node 0 = rank)) ∧
          ([] ∈ layers.rows ↔ count = 0) ∧
          ∀ node < count,
            layers.slots[node]? =
              some ((layers.rows.getD (ranks.getD node 0) []).idxOf node) := by
  intro ranks steps
  refine ⟨ordered_eq_reordered R count arcs ranks, fun done _ => ?_⟩
  have arranged := arranged_reordered R count arcs ranks done
  exact ⟨arranged.flatten_perm, arranged.row, arranged.nil_mem_rows_iff (acyclic.proper inside),
    fun node known => arranged.slot_eq_idxOf known⟩

/-- Without nodes there still is one row, and it is empty. -/
theorem ordered_without_nodes :
    Acyclic [] ∧ longestPathRanks 0 [] = [] ∧
      (ordered Float 0 [] (longestPathRanks 0 [])).rows = [[]] := by
  have founded : WellFounded (Linked []) :=
    Subrelation.wf (fun linked => absurd linked List.not_mem_nil) Nat.lt_wfRel.wf
  exact ⟨acyclic_of_wellFounded founded, rfl, rfl⟩

/-- Two crossing links, after the first reordering of the second row. -/
theorem rows_after_each_reordering_crossed :
    let arcs := [(0, 3), (1, 2)]
    let ranks := longestPathRanks 4 arcs
    let sorted := reordered Float arcs (initial 4 ranks) [(.down, 1)]
    (∀ arc ∈ arcs, arc.1 < 4 ∧ arc.2 < 4) ∧ Acyclic arcs ∧
      [(.down, 1)] <+: reorderings (ranks.foldl max 0 + 1) ∧
      sorted.rows.flatten.Perm (List.range 4) ∧ [] ∉ sorted.rows ∧
      sorted.slots[3]? = some ((sorted.rows.getD (ranks.getD 3 0) []).idxOf 3) := by
  intro arcs ranks sorted
  have inside : ∀ arc ∈ arcs, arc.1 < 4 ∧ arc.2 < 4 := by decide
  have forth : ∀ arc ∈ arcs, arc.1 < arc.2 := by decide
  have founded : WellFounded (Linked arcs) :=
    Subrelation.wf (fun linked => forth _ linked) Nat.lt_wfRel.wf
  have acyclic := acyclic_of_wellFounded founded
  have first : [(.down, 1)] <+: reorderings (ranks.foldl max 0 + 1) := by decide
  obtain ⟨-, along⟩ := rows_after_each_reordering Float 4 arcs arcs inside acyclic
  obtain ⟨whole, -, empty, slot⟩ := along _ first
  have full : [] ∉ sorted.rows := fun member => absurd (empty.1 member) (by decide)
  exact ⟨inside, acyclic, first, whole, full, slot 3 (by decide)⟩

end PeerNet.Layout
