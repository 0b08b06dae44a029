import Mathlib.Data.List.Sort
import PeerNet.Proofs.Layout.DepthFirst

/-!
# Broken cycles

The arcs that are left once the cycles are broken are sorted and each of them stands
once, every arc is kept in one of its two directions, and the order in which the walk
got done with the nodes shows that no cycle is left. An arc that is turned round lies
on a cycle, so arcs without a cycle are only sorted.
-/

set_option autoImplicit false

namespace PeerNet.Layout

/-! ## Sorted arcs -/

/-- Arcs are ordered by their sources, and those of one source by their targets. -/
def Precedes (first last : Arc) : Prop :=
  first.1 < last.1 ∨ first.1 = last.1 ∧ first.2 < last.2

instance : Std.Irrefl Precedes where
  irrefl arc before := by
    rw [Precedes] at before
    omega

instance : Std.Antisymm Precedes where
  antisymm first last before after := by
    rw [Precedes] at before after
    omega

theorem arcLE_iff {first last : Arc} :
    arcLE first last = true ↔ first = last ∨ Precedes first last := by
  obtain ⟨source, target⟩ := first
  obtain ⟨otherSource, otherTarget⟩ := last
  simp only [arcLE, Precedes, Bool.or_eq_true, Bool.and_eq_true, decide_eq_true_eq, beq_iff_eq,
    Prod.mk.injEq]
  omega

theorem arcLE_trans (first middle last : Arc) (before : arcLE first middle = true)
    (after : arcLE middle last = true) : arcLE first last = true := by
  simp only [arcLE, Bool.or_eq_true, Bool.and_eq_true, decide_eq_true_eq, beq_iff_eq] at *
  omega

theorem arcLE_total (first last : Arc) : (arcLE first last || arcLE last first) = true := by
  simp only [arcLE, Bool.or_eq_true, Bool.and_eq_true, decide_eq_true_eq, beq_iff_eq]
  omega

theorem precedes_of_precedes_of_arcLE {first middle last : Arc} (before : Precedes first middle)
    (after : arcLE middle last = true) : Precedes first last := by
  rcases arcLE_iff.1 after with rfl | after
  · exact before
  · rw [Precedes] at before after ⊢
    omega

theorem mem_dropRepeats {arcs : List Arc} {arc : Arc} : arc ∈ dropRepeats arcs ↔ arc ∈ arcs := by
  induction arcs with
  | nil => rfl
  | cons first rest ih =>
    cases rest with
    | nil => rfl
    | cons second rest =>
      rw [dropRepeats]
      split
      · next same => rw [ih, same, List.mem_cons (l := second :: rest), List.mem_cons, or_self_left]
      · rw [List.mem_cons, ih, ← List.mem_cons]

theorem pairwise_dropRepeats {arcs : List Arc} (sorted : arcs.Pairwise (arcLE · ·)) :
    (dropRepeats arcs).Pairwise Precedes := by
  induction arcs with
  | nil => exact .nil
  | cons first rest ih =>
    obtain ⟨least, rising⟩ := List.pairwise_cons.1 sorted
    cases rest with
    | nil => exact List.pairwise_singleton _ _
    | cons second rest =>
      rw [dropRepeats]
      split
      · exact ih rising
      · next apart =>
        have next : Precedes first second :=
          (arcLE_iff.1 (least second List.mem_cons_self)).resolve_left apart
        refine List.pairwise_cons.2 ⟨fun arc member => ?_, ih rising⟩
        rcases List.mem_cons.1 (mem_dropRepeats.1 member) with rfl | later
        · exact next
        · exact precedes_of_precedes_of_arcLE next ((List.pairwise_cons.1 rising).1 arc later)

/-- Sorted arcs without repetitions are known by their members. -/
theorem dropRepeats_mergeSort_congr {first last : List Arc}
    (same : ∀ arc, arc ∈ first ↔ arc ∈ last) :
    dropRepeats (first.mergeSort arcLE) = dropRepeats (last.mergeSort arcLE) := by
  have sorted (arcs : List Arc) : (dropRepeats (arcs.mergeSort arcLE)).Pairwise Precedes :=
    pairwise_dropRepeats (List.pairwise_mergeSort arcLE_trans arcLE_total arcs)
  refine (sorted first).eq_of_mem_iff (sorted last) fun arc => ?_
  rw [mem_dropRepeats, mem_dropRepeats, List.mem_mergeSort, List.mem_mergeSort, same]

/-! ## Directions -/

variable {count : Nat} {arcs : List Arc}

theorem mem_breakCycles {arc : Arc} :
    arc ∈ breakCycles count arcs ↔ ∃ old ∈ arcs, orient (Walk.all count arcs).back old = arc := by
  rw [breakCycles, mem_dropRepeats, List.mem_mergeSort, List.mem_map]

/-- An arc is turned round only when it lies on a cycle. -/
theorem orient_of_not_reaches (proper : Proper count arcs) {arc : Arc}
    (oneWay : ¬Reaches arcs arc.2 arc.1) : orient (Walk.all count arcs).back arc = arc := by
  obtain ⟨finished, follows, -⟩ := Walk.exists_follows_all proper
  exact if_neg fun noted => oneWay (follows.back arc noted).2.1

theorem linked_breakCycles_of_not_reaches (proper : Proper count arcs) {source target : Nat}
    (linked : Linked arcs source target) (oneWay : ¬Reaches arcs target source) :
    Linked (breakCycles count arcs) source target :=
  mem_breakCycles.2 ⟨_, linked, orient_of_not_reaches proper oneWay⟩

variable (count) in
theorem linked_breakCycles {source target : Nat} (linked : Linked arcs source target) :
    Linked (breakCycles count arcs) source target ∨
      Linked (breakCycles count arcs) target source := by
  have kept : orient (Walk.all count arcs).back (source, target) ∈ breakCycles count arcs :=
    mem_breakCycles.2 ⟨_, linked, rfl⟩
  rw [orient] at kept
  split at kept
  · exact .inr kept
  · exact .inl kept

theorem linked_of_linked_breakCycles {source target : Nat}
    (linked : Linked (breakCycles count arcs) source target) :
    Linked arcs source target ∨ Linked arcs target source := by
  obtain ⟨old, known, turned⟩ := mem_breakCycles.1 linked
  rw [orient] at turned
  split at turned
  · cases turned
    exact .inr known
  · subst turned
    exact .inl known

theorem proper_breakCycles (proper : Proper count arcs) :
    Proper count (breakCycles count arcs) := by
  constructor
  · intro arc member
    rcases linked_of_linked_breakCycles member with kept | turned
    · exact proper.source arc kept
    · exact proper.target _ turned
  · intro arc member
    rcases linked_of_linked_breakCycles member with kept | turned
    · exact proper.target arc kept
    · exact proper.source _ turned
  · intro arc member
    rcases linked_of_linked_breakCycles member with kept | turned
    · exact proper.loopFree arc kept
    · exact Ne.symm (proper.loopFree _ turned)

/-! ## No cycle is left -/

theorem idxOf_lt_idxOf {order : List Nat} {first last : Nat} (distinct : order.Nodup)
    (before : [first, last].Sublist order) : order.idxOf first < order.idxOf last := by
  induction order with
  | nil => cases before
  | cons node rest ih =>
    obtain ⟨unlisted, distinct⟩ := List.nodup_cons.1 distinct
    cases before with
    | cons _ later =>
      have inRest : ∀ other ∈ [first, last], node ≠ other := fun other member same =>
        unlisted (same ▸ later.subset member)
      rw [List.idxOf_cons_ne _ (inRest first (by simp)),
        List.idxOf_cons_ne _ (inRest last (by simp))]
      exact Nat.succ_lt_succ (ih distinct later)
    | cons_cons _ later =>
      have apart : first ≠ last := fun same => unlisted (same ▸ later.subset (by simp))
      rw [List.idxOf_cons_self, List.idxOf_cons_ne _ apart]
      exact Nat.succ_pos _

/-- The arcs that are left all lead forth in one order of the nodes. -/
theorem exists_order (proper : Proper count arcs) :
    ∃ order : List Nat, order.Nodup ∧
      ∀ arc ∈ breakCycles count arcs, [arc.1, arc.2].Sublist order := by
  obtain ⟨finished, follows, done⟩ := Walk.exists_follows_all proper
  refine ⟨finished, follows.distinct, fun arc member => ?_⟩
  obtain ⟨old, known, rfl⟩ := mem_breakCycles.1 member
  rw [orient]
  split
  · next noted => exact (follows.back old noted).2.2
  · next forward => exact follows.forth old known (done _ (proper.source old known)) forward

theorem wellFounded_breakCycles (proper : Proper count arcs) :
    WellFounded (Linked (breakCycles count arcs)) := by
  obtain ⟨order, distinct, forth⟩ := exists_order proper
  refine Subrelation.wf ?_ (measure order.idxOf).wf
  intro source target linked
  exact idxOf_lt_idxOf distinct (forth _ linked)

/-! ## Arcs without a cycle -/

/-- No node can be reached again. -/
def Acyclic (arcs : List Arc) : Prop :=
  ∀ node, ¬Relation.TransGen (Linked arcs) node node

/-- A loop is a cycle. -/
theorem Acyclic.proper (acyclic : Acyclic arcs)
    (inside : ∀ arc ∈ arcs, arc.1 < count ∧ arc.2 < count) : Proper count arcs where
  source arc member := (inside arc member).1
  target arc member := (inside arc member).2
  loopFree := by
    rintro ⟨source, target⟩ member loop
    obtain rfl : source = target := loop
    exact acyclic source (.single member)

theorem acyclic_of_wellFounded (founded : WellFounded (Linked arcs)) : Acyclic arcs :=
  fun _ cycle => founded.transGen.asymmetric _ _ cycle cycle

theorem wellFounded_of_acyclic (proper : Proper count arcs) (acyclic : Acyclic arcs) :
    WellFounded (Linked arcs) := by
  -- Breaking cycles leaves every arc as it is.
  refine Subrelation.wf ?_ (wellFounded_breakCycles proper)
  intro source target linked
  exact linked_breakCycles_of_not_reaches proper linked fun back =>
    acyclic source (.head' linked back)

theorem breakCycles_of_acyclic (proper : Proper count arcs) (acyclic : Acyclic arcs) :
    breakCycles count arcs = dropRepeats (arcs.mergeSort arcLE) := by
  have kept : ∀ arc ∈ arcs, orient (Walk.all count arcs).back arc = arc := fun arc known =>
    orient_of_not_reaches proper fun reached => acyclic arc.1 (.head' known reached)
  rw [breakCycles, List.map_congr_left kept, List.map_id']

end PeerNet.Layout
