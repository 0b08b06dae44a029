import Mathlib.Data.List.Nodup
import PeerNet.Proofs.Tally
import PeerNet.Proofs.Topology.Validity
import PeerNet.Topology.Generate
import PeerNet.Topology.Peers

/-!
# Links between numbered nodes

A generated topology has its nodes numbered from zero, and its links are pairs of numbers. What
is added to it, link by link, are the pairs asked for, without loops and without repetitions, so
that it stays valid all the way.
-/

set_option autoImplicit false

namespace PeerNet

def Edge.ofPair (pair : Nat × Nat) : Edge :=
  ⟨.ofNat pair.1, .ofNat pair.2⟩

theorem Edge.ofPair_inj {first second : Nat × Nat} :
    Edge.ofPair first = Edge.ofPair second ↔ first = second := by
  simp [Edge.ofPair, NodeId.ofNat_inj, Prod.ext_iff]

namespace Topology

section

variable {R : Type} {topology : Topology R} {count : Nat} {pairs added : List (Nat × Nat)}

/-- Nodes numbered below a count, and links that are pairs of two numbers each, listed once. -/
structure Numbered (count : Nat) (pairs : List (Nat × Nat)) (topology : Topology R) : Prop where
  ids : topology.nodes.map (·.id) = (List.range count).map NodeId.ofNat
  edges : topology.edges = pairs.map Edge.ofPair
  inside : ∀ pair ∈ pairs, pair.1 < count ∧ pair.2 < count
  loopFree : ∀ pair ∈ pairs, pair.1 ≠ pair.2
  distinct : pairs.Nodup

theorem Numbered.mem_edges (numbered : Numbered count pairs topology) {edge : Edge} :
    edge ∈ topology.edges ↔ ∃ source target,
      edge = ⟨.ofNat source, .ofNat target⟩ ∧ (source, target) ∈ pairs := by
  rw [numbered.edges, List.mem_map]
  constructor
  · rintro ⟨⟨source, target⟩, member, rfl⟩
    exact ⟨source, target, rfl, member⟩
  · rintro ⟨source, target, rfl, member⟩
    exact ⟨(source, target), member, rfl⟩

theorem Numbered.mem_edges_iff (numbered : Numbered count pairs topology) {source target : Nat} :
    ⟨.ofNat source, .ofNat target⟩ ∈ topology.edges ↔ (source, target) ∈ pairs := by
  have injective : Function.Injective Edge.ofPair := fun _ _ => Edge.ofPair_inj.1
  rw [numbered.edges]
  exact List.mem_map_of_injective injective (a := (source, target))

theorem Numbered.hasEdge_iff (numbered : Numbered count pairs topology) {source target : Nat} :
    topology.hasEdge (.ofNat source) (.ofNat target) = true ↔ (source, target) ∈ pairs :=
  hasEdge_eq_true_iff.trans numbered.mem_edges_iff

theorem Numbered.hasNode (numbered : Numbered count pairs topology) {number : Nat}
    (below : number < count) : topology.hasNode (.ofNat number) = true := by
  rw [hasNode_eq_true_iff, numbered.ids]
  exact List.mem_map_of_mem (List.mem_range.2 below)

theorem Numbered.valid (numbered : Numbered count pairs topology) : topology.Valid where
  uniqueIds := by
    rw [numbered.ids]
    exact List.nodup_range.map fun _ _ same => NodeId.ofNat_inj.1 same
  endsLive := by
    simp only [numbered.edges, List.forall_mem_map]
    intro pair member
    obtain ⟨source, target⟩ := numbered.inside pair member
    exact ⟨numbered.hasNode source, numbered.hasNode target⟩
  loopFree := by
    simp only [numbered.edges, List.forall_mem_map]
    intro pair member same
    exact numbered.loopFree pair member (NodeId.ofNat_inj.1 same)
  uniqueEdges := by
    rw [numbered.edges]
    exact numbered.distinct.map fun _ _ same => Edge.ofPair_inj.1 same

/-! ## Adding links -/

theorem nodes_link (topology : Topology R) (pair : Nat × Nat) :
    (topology.link pair).nodes = topology.nodes := by
  unfold link
  dsimp only
  split <;> rfl

theorem nodes_foldl_link (topology : Topology R) (pairs : List (Nat × Nat)) :
    (pairs.foldl link topology).nodes = topology.nodes :=
  view_foldl Topology.nodes nodes_link topology pairs

theorem Numbered.link_of_known (numbered : Numbered count pairs topology) {pair : Nat × Nat}
    (known : pair.1 = pair.2 ∨ pair ∈ pairs) : topology.link pair = topology := by
  have leftOut : (decide (NodeId.ofNat pair.1 = NodeId.ofNat pair.2) ||
      topology.hasEdge (.ofNat pair.1) (.ofNat pair.2)) = true := by
    rw [Bool.or_eq_true, decide_eq_true_iff, NodeId.ofNat_inj, numbered.hasEdge_iff]
    exact known
  rw [link, if_pos leftOut]

theorem Numbered.link_of_new (numbered : Numbered count pairs topology) {pair : Nat × Nat}
    (inside : pair.1 < count ∧ pair.2 < count) (apart : pair.1 ≠ pair.2) (new : pair ∉ pairs) :
    Numbered count (pairs ++ [pair]) (topology.link pair) := by
  have linked : topology.link pair =
      { topology with edges := topology.edges ++ [Edge.ofPair pair] } := by
    rw [link, if_neg]
    · rfl
    · rw [Bool.or_eq_true, decide_eq_true_iff, NodeId.ofNat_inj, numbered.hasEdge_iff]
      exact not_or.2 ⟨apart, new⟩
  rw [linked]
  exact {
    ids := numbered.ids
    edges := by simp [numbered.edges]
    inside := List.forall_mem_append.2 ⟨numbered.inside, by simpa using inside⟩
    loopFree := List.forall_mem_append.2 ⟨numbered.loopFree, by simpa using apart⟩
    distinct := List.concat_eq_append ▸ numbered.distinct.concat new }

/-- Proper pairs that are all new are appended as they are. -/
theorem Numbered.links_of_new (numbered : Numbered count pairs topology)
    (inside : ∀ pair ∈ added, pair.1 < count ∧ pair.2 < count)
    (apart : ∀ pair ∈ added, pair.1 ≠ pair.2) (distinct : (pairs ++ added).Nodup) :
    Numbered count (pairs ++ added) (added.foldl link topology) := by
  induction added generalizing pairs topology with
  | nil => simpa using numbered
  | cons pair rest ih =>
    obtain ⟨insidePair, insideRest⟩ := List.forall_mem_cons.1 inside
    obtain ⟨apartPair, apartRest⟩ := List.forall_mem_cons.1 apart
    have regrouped : pairs ++ pair :: rest = pairs ++ [pair] ++ rest := by simp
    have new : pair ∉ pairs := fun known =>
      (List.nodup_append.1 distinct).2.2 pair known pair List.mem_cons_self rfl
    rw [regrouped] at distinct ⊢
    exact ih (numbered.link_of_new insidePair apartPair new) insideRest apartRest distinct

/-- Whatever pairs are asked for, the proper ones are linked. -/
theorem Numbered.links (numbered : Numbered count pairs topology)
    (inside : ∀ pair ∈ added, pair.1 ≠ pair.2 → pair.1 < count ∧ pair.2 < count) :
    ∃ linked, Numbered count linked (added.foldl link topology) ∧
      ∀ pair, pair ∈ linked ↔ pair ∈ pairs ∨ pair ∈ added ∧ pair.1 ≠ pair.2 := by
  induction added generalizing pairs topology with
  | nil => exact ⟨pairs, numbered, by simp⟩
  | cons first rest ih =>
    obtain ⟨insideFirst, insideRest⟩ := List.forall_mem_cons.1 inside
    by_cases known : first.1 = first.2 ∨ first ∈ pairs
    · rw [List.foldl_cons, numbered.link_of_known known]
      obtain ⟨linked, numberedLinked, listed⟩ := ih numbered insideRest
      refine ⟨linked, numberedLinked, fun pair => (listed pair).trans ?_⟩
      by_cases same : pair = first
      · subst same
        rcases known with loop | old
        · simp [loop]
        · simp [old]
      · simp [same]
    · obtain ⟨apart, new⟩ := not_or.1 known
      obtain ⟨linked, numberedLinked, listed⟩ :=
        ih (numbered.link_of_new (insideFirst apart) apart new) insideRest
      refine ⟨linked, numberedLinked, fun pair => (listed pair).trans ?_⟩
      by_cases same : pair = first
      · subst same
        simp [apart]
      · simp [same]

theorem Numbered.outbound (numbered : Numbered count pairs topology) (source : Nat) :
    (topology.degree (.ofNat source)).outbound = pairs.countP (·.1 = source) := by
  simp only [degree, numbered.edges, List.countP_map]
  exact List.countP_congr fun pair _ => by simp [Edge.ofPair, NodeId.ofNat_inj]

end

variable {R : Type} [Scalar R]

theorem ids_numberedNodes (count : Nat) (version : String) (overrides : Overrides) :
    (numberedNodes count version overrides : List (Node R)).map (·.id) =
      (List.range count).map NodeId.ofNat := by
  simp [numberedNodes, Node.plain]

theorem numbered_start (name : String) (count : Nat) (version : String) (overrides : Overrides) :
    Numbered count [] (numbered name count version overrides : Topology R) where
  ids := ids_numberedNodes count version overrides
  edges := rfl
  inside := by simp
  loopFree := by simp
  distinct := .nil

end Topology

end PeerNet
