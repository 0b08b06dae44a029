import Mathlib.Data.List.Nodup
import Mathlib.Data.List.GetD
import PeerNet.Proofs.Layout.Covers

/-!
# Rows and places

Each row of the layers holds the nodes of one rank, and the slots hold the place of
each node in its row. Sorting a row permutes it and notes the new places, so both hold
from the first rows to the end of the last sweep, whatever the sort goes by.
-/

set_option autoImplicit false

namespace PeerNet.Layout

theorem le_foldl_max (ranks : List Nat) (start : Nat) :
    start ≤ ranks.foldl max start ∧ ∀ rank ∈ ranks, rank ≤ ranks.foldl max start := by
  induction ranks generalizing start with
  | nil => simp
  | cons first rest ih =>
    obtain ⟨started, others⟩ := ih (max start first)
    rw [List.foldl_cons]
    refine ⟨Nat.le_trans (Nat.le_max_left _ _) started, fun rank member => ?_⟩
    rcases List.mem_cons.1 member with rfl | later
    · exact Nat.le_trans (Nat.le_max_right _ _) started
    · exact others rank later

namespace Layers

/-! ## Noting places -/

private theorem getElem?_noteFrom_of_not_mem {row : List Nat} {node : Nat} (absent : node ∉ row)
    (start : Nat) (slots : List Nat) :
    ((row.zipIdx start).foldl (fun slots (node, place) => slots.set node place) slots)[node]? =
      slots[node]? := by
  induction row generalizing start slots with
  | nil => rfl
  | cons first rest ih =>
    rw [List.zipIdx_cons, List.foldl_cons, ih fun later => absent (List.mem_cons_of_mem _ later)]
    have apart : first ≠ node := fun same => absent (List.mem_cons.2 (.inl same.symm))
    exact List.getElem?_set_ne apart

private theorem getElem?_noteFrom {row slots : List Nat} (distinct : row.Nodup)
    (inside : ∀ node ∈ row, node < slots.length) (start : Nat) {place node : Nat}
    (there : row[place]? = some node) :
    ((row.zipIdx start).foldl (fun slots (node, place) => slots.set node place) slots)[node]? =
      some (start + place) := by
  induction row generalizing start slots place with
  | nil => cases there
  | cons first rest ih =>
    obtain ⟨once, distinct⟩ := List.nodup_cons.1 distinct
    rw [List.zipIdx_cons, List.foldl_cons]
    cases place with
    | zero =>
      obtain rfl : first = node := Option.some.inj there
      rw [getElem?_noteFrom_of_not_mem once]
      exact List.getElem?_set_self (inside first List.mem_cons_self)
    | succ place =>
      rw [ih distinct (fun node member => ?_) (start + 1) there]
      · congr 1; omega
      · rw [List.length_set]
        exact inside node (List.mem_cons_of_mem _ member)

theorem getElem?_noteRow_of_not_mem {row : List Nat} {node : Nat} (absent : node ∉ row)
    (slots : List Nat) : (noteRow slots row)[node]? = slots[node]? :=
  getElem?_noteFrom_of_not_mem absent 0 slots

theorem getElem?_noteRow {row slots : List Nat} (distinct : row.Nodup)
    (inside : ∀ node ∈ row, node < slots.length) {place node : Nat}
    (there : row[place]? = some node) : (noteRow slots row)[node]? = some place :=
  (getElem?_noteFrom distinct inside 0 there).trans (by rw [Nat.zero_add])

theorem getElem?_foldl_noteRow_of_not_mem {rows : List (List Nat)} {node : Nat}
    (absent : ∀ row ∈ rows, node ∉ row) (slots : List Nat) :
    (rows.foldl noteRow slots)[node]? = slots[node]? := by
  induction rows generalizing slots with
  | nil => rfl
  | cons row rest ih =>
    obtain ⟨first, later⟩ := List.forall_mem_cons.1 absent
    rw [List.foldl_cons, ih later, getElem?_noteRow_of_not_mem first]

theorem getElem?_foldl_noteRow {rows : List (List Nat)} {slots : List Nat}
    (distinct : ∀ row ∈ rows, row.Nodup) (apart : rows.Pairwise List.Disjoint)
    (inside : ∀ row ∈ rows, ∀ node ∈ row, node < slots.length) {row : List Nat}
    (member : row ∈ rows) {place node : Nat} (there : row[place]? = some node) :
    (rows.foldl noteRow slots)[node]? = some place := by
  induction rows generalizing slots with
  | nil => cases member
  | cons first rest ih =>
    obtain ⟨firstDistinct, distinct⟩ := List.forall_mem_cons.1 distinct
    obtain ⟨firstInside, inside⟩ := List.forall_mem_cons.1 inside
    obtain ⟨firstApart, apart⟩ := List.pairwise_cons.1 apart
    rw [List.foldl_cons]
    rcases List.mem_cons.1 member with rfl | later
    · rw [getElem?_foldl_noteRow_of_not_mem fun other later =>
        (firstApart other later) (List.mem_of_getElem? there)]
      exact getElem?_noteRow firstDistinct firstInside there
    · refine ih distinct apart (fun row member node known => ?_) later
      rw [length_noteRow]
      exact inside row member node known

/-! ## Nodes by rank -/

/-- The nodes of a rank, in order. -/
def ofRank (count : Nat) (ranks : List Nat) (rank : Nat) : List Nat :=
  (List.range count).filter fun node => ranks.getD node 0 = rank

theorem mem_ofRank {count : Nat} {ranks : List Nat} {rank node : Nat} :
    node ∈ ofRank count ranks rank ↔ node < count ∧ ranks.getD node 0 = rank := by
  simp [ofRank]

theorem nodup_ofRank (count : Nat) (ranks : List Nat) (rank : Nat) :
    (ofRank count ranks rank).Nodup :=
  List.nodup_range.filter _

theorem getD_le_depth (ranks : List Nat) (node : Nat) :
    ranks.getD node 0 ≤ ranks.foldl max 0 := by
  rw [List.getD_eq_getElem?_getD]
  cases found : ranks[node]? with
  | none => exact Nat.zero_le _
  | some rank => exact (le_foldl_max ranks 0).2 rank (List.mem_of_getElem? found)

/-- Every row holds the nodes of one rank, and the slots tell the place of each node in
its row. -/
structure Arranged (count : Nat) (ranks : List Nat) (layers : Layers) : Prop where
  depth : layers.rows.length = ranks.foldl max 0 + 1
  slotCount : layers.slots.length = count
  row : ∀ rank, (layers.rows.getD rank []).Perm (ofRank count ranks rank)
  slot : ∀ {rank place node : Nat}, (layers.rows.getD rank [])[place]? = some node →
    layers.slots[node]? = some place

theorem getD_rows_initial (count : Nat) (ranks : List Nat) (rank : Nat) :
    (initial count ranks).rows.getD rank [] = ofRank count ranks rank := by
  have depth := getD_le_depth ranks
  rw [initial, List.getD_eq_getElem?_getD, List.getElem?_map]
  by_cases known : rank < ranks.foldl max 0 + 1
  · rw [List.getElem?_range known]
    rfl
  · rw [List.getElem?_eq_none (by rw [List.length_range]; omega)]
    refine (List.filter_eq_nil_iff.2 fun node _ same => ?_).symm
    have reached := of_decide_eq_true same
    have below := depth node
    omega

theorem disjoint_ofRank {count : Nat} {ranks : List Nat} {first last : Nat} (apart : first ≠ last) :
    List.Disjoint (ofRank count ranks first) (ofRank count ranks last) := by
  intro node inFirst inLast
  exact apart ((mem_ofRank.1 inFirst).2.symm.trans (mem_ofRank.1 inLast).2)

theorem arranged_initial (count : Nat) (ranks : List Nat) :
    Arranged count ranks (initial count ranks) where
  depth := by simp [initial]
  slotCount := length_slots_initial count ranks
  row rank := .of_eq (getD_rows_initial count ranks rank)
  slot := by
    intro rank place node there
    rw [getD_rows_initial] at there
    have reached : ranks.getD node 0 = rank := (mem_ofRank.1 (List.mem_of_getElem? there)).2
    have known : rank < ranks.foldl max 0 + 1 := by
      rw [← reached]
      exact Nat.lt_succ_of_le (getD_le_depth ranks node)
    have listed : ofRank count ranks rank ∈ (initial count ranks).rows :=
      List.mem_map.2 ⟨rank, List.mem_range.2 known, rfl⟩
    refine getElem?_foldl_noteRow ?_ ?_ ?_ listed there
    · intro row member
      obtain ⟨rank, -, rfl⟩ := List.mem_map.1 member
      exact nodup_ofRank count ranks rank
    · refine List.pairwise_map.2 (List.nodup_range.imp fun apart => disjoint_ofRank apart)
    · intro row member node inside
      obtain ⟨rank, -, rfl⟩ := List.mem_map.1 member
      rw [List.length_replicate]
      exact (mem_ofRank.1 inside).1

/-! ## Sorting a row -/

variable {count : Nat} {ranks : List Nat} {layers : Layers}

theorem Arranged.nodup (arranged : Arranged count ranks layers) (rank : Nat) :
    (layers.rows.getD rank []).Nodup :=
  (arranged.row rank).nodup_iff.2 (nodup_ofRank count ranks rank)

theorem Arranged.mem_row (arranged : Arranged count ranks layers) {rank node : Nat} :
    node ∈ layers.rows.getD rank [] ↔ node < count ∧ ranks.getD node 0 = rank :=
  (arranged.row rank).mem_iff.trans mem_ofRank

/-- A row may be put in any order, when the new places are noted. -/
theorem Arranged.replaceRow (arranged : Arranged count ranks layers) {rank : Nat} {row : List Nat}
    (reordered : row.Perm (layers.rows.getD rank [])) :
    Arranged count ranks
      { rows := layers.rows.set rank row, slots := noteRow layers.slots row } := by
  have distinct : row.Nodup := reordered.nodup_iff.2 (arranged.nodup rank)
  have members {node : Nat} : node ∈ row ↔ node < count ∧ ranks.getD node 0 = rank :=
    reordered.mem_iff.trans arranged.mem_row
  have inside : ∀ node ∈ row, node < layers.slots.length := by
    intro node member
    rw [arranged.slotCount]
    exact (members.1 member).1
  have rows (other : Nat) : (layers.rows.set rank row).getD other [] =
      if other = rank then row else layers.rows.getD other [] := by
    rw [List.getD_eq_getElem?_getD, List.getElem?_set]
    by_cases same : rank = other
    · rw [if_pos same, if_pos same.symm]
      by_cases known : rank < layers.rows.length
      · rw [if_pos known]
        rfl
      · rw [if_neg known]
        rw [List.getD_eq_default _ _ (Nat.le_of_not_lt known)] at reordered
        exact reordered.eq_nil.symm
    · rw [if_neg same, if_neg (Ne.symm same), List.getD_eq_getElem?_getD]
  refine ⟨?_, ?_, fun other => ?_, fun {other place node} there => ?_⟩
  · rw [List.length_set, arranged.depth]
  · rw [length_noteRow, arranged.slotCount]
  · rw [rows]
    split
    · next same => exact same ▸ reordered.trans (arranged.row rank)
    · exact arranged.row other
  · rw [rows] at there
    split at there
    · exact getElem?_noteRow distinct inside there
    · next apart =>
      have elsewhere : node ∉ row := by
        intro member
        exact apart ((arranged.mem_row.1 (List.mem_of_getElem? there)).2.symm.trans
          (members.1 member).2)
      rw [getElem?_noteRow_of_not_mem elsewhere]
      exact arranged.slot there

/-- Each node has a place in the row of its rank, which its slot tells. -/
theorem Arranged.exists_place (arranged : Arranged count ranks layers) {node : Nat}
    (known : node < count) :
    ∃ place, (layers.rows.getD (ranks.getD node 0) [])[place]? = some node ∧
      layers.slots[node]? = some place := by
  obtain ⟨place, there⟩ := List.mem_iff_getElem?.1 (arranged.mem_row.2 ⟨known, rfl⟩)
  exact ⟨place, there, arranged.slot there⟩

/-- A rank and a slot belong to one node. -/
theorem Arranged.getElem?_row (arranged : Arranged count ranks layers) {node rank slot : Nat}
    (cell : (ranks.zip layers.slots)[node]? = some (rank, slot)) :
    (layers.rows.getD rank [])[slot]? = some node := by
  obtain ⟨ranked, slotted⟩ := List.getElem?_zip_eq_some.1 cell
  have known : node < count := by
    rw [← arranged.slotCount]
    exact (List.getElem?_eq_some_iff.1 slotted).1
  obtain ⟨place, there, noted⟩ := arranged.exists_place known
  have reached : ranks.getD node 0 = rank := by
    rw [List.getD_eq_getElem?_getD, ranked]
    rfl
  have same : place = slot := Option.some.inj (noted.symm.trans slotted)
  rwa [reached, same] at there

theorem Arranged.nodup_cells (arranged : Arranged count ranks layers) :
    (ranks.zip layers.slots).Nodup := by
  refine List.nodup_iff_getElem?_ne_getElem?.2 fun first last apart inside same => ?_
  obtain ⟨cell, found⟩ : ∃ cell, (ranks.zip layers.slots)[last]? = some cell :=
    ⟨_, List.getElem?_eq_getElem inside⟩
  have nodes := (arranged.getElem?_row (same.trans found)).symm.trans (arranged.getElem?_row found)
  have equal : first = last := Option.some.inj nodes
  omega

/-- The length of the longest row. -/
def widest (layers : Layers) : Nat :=
  (layers.rows.map List.length).foldl max 0

theorem Arranged.cell_inside (arranged : Arranged count ranks layers) {rank slot : Nat}
    (member : (rank, slot) ∈ ranks.zip layers.slots) :
    rank < layers.rows.length ∧ slot < layers.widest := by
  obtain ⟨node, cell⟩ := List.mem_iff_getElem?.1 member
  have there := arranged.getElem?_row cell
  have slotInside : slot < (layers.rows.getD rank []).length :=
    (List.getElem?_eq_some_iff.1 there).1
  have rankInside : rank < layers.rows.length := by
    by_contra beyond
    rw [List.getD_eq_default _ _ (Nat.le_of_not_lt beyond)] at slotInside
    exact Nat.not_lt_zero _ slotInside
  refine ⟨rankInside, Nat.lt_of_lt_of_le slotInside ?_⟩
  rw [List.getD_eq_getElem _ _ rankInside]
  exact (le_foldl_max _ 0).2 _ (List.mem_map_of_mem (List.getElem_mem rankInside))

section

variable (R : Type) [Scalar R]

theorem Arranged.sortRow (arranged : Arranged count ranks layers) (arcs : List Arc)
    (direction : Direction) (rank : Nat) :
    Arranged count ranks (sortRow R arcs direction layers rank) := by
  refine arranged.replaceRow ?_
  have sorted := List.mergeSort_perm
    ((layers.rows.getD rank []).map fun node =>
      (meanPlace R layers.slots node (neighbours arcs node direction), node))
    fun a b => !decide (b.1 < a.1)
  have undone := sorted.map (·.2)
  rwa [List.map_map, List.map_id''] at undone
  exact fun _ => rfl

theorem Arranged.sweep (arranged : Arranged count ranks layers) (arcs : List Arc)
    (direction : Direction) : Arranged count ranks (sweep R arcs layers direction) :=
  List.foldlRecOn _ _ arranged fun _ before rank _ => before.sortRow R arcs direction rank

theorem arranged_ordered (count : Nat) (arcs : List Arc) (ranks : List Nat) :
    Arranged count ranks (ordered R count arcs ranks) :=
  List.foldlRecOn _ _ (arranged_initial count ranks) fun _ before direction _ =>
    before.sweep R arcs direction

end

end Layers

end PeerNet.Layout
