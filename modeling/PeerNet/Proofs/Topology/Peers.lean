import Mathlib.Algebra.BigOperators.Group.Finset.Basic
import Mathlib.Algebra.GroupWithZero.Nat
import Mathlib.Data.List.Perm.Subperm
import PeerNet.Topology.Peers
import PeerNet.Proofs.Topology.Validity

/-!
# Peers and degrees

Two nodes are joined when a link leads from one to the other, and the peers of a node are
the nodes that it is joined to. In a valid topology the links at one end of a node lead to
distinct peers of it, and each peer is at the other end of a link that leaves or reaches the
node. Each link leaves one node and reaches one node, so the links can be counted at either
end.
-/

set_option autoImplicit false

namespace PeerNet

theorem Edge.eq_of_ends {first second : Edge} (sources : first.source = second.source)
    (targets : first.target = second.target) : first = second := by
  cases first
  cases second
  exact congrArg₂ Edge.mk sources targets

namespace Topology

variable {R : Type} {topology : Topology R} {id other : NodeId}

/-- A link leads from one of the nodes to the other. -/
def Joined (topology : Topology R) (first second : NodeId) : Prop :=
  ⟨first, second⟩ ∈ topology.edges ∨ ⟨second, first⟩ ∈ topology.edges

theorem joined_comm {first second : NodeId} :
    topology.Joined first second ↔ topology.Joined second first :=
  Or.comm

theorem otherEnd?_eq_some_iff {edge : Edge} (apart : other ≠ id) :
    otherEnd? id edge = some other ↔ edge = ⟨id, other⟩ ∨ edge = ⟨other, id⟩ := by
  obtain ⟨source, target⟩ := edge
  simp only [otherEnd?, Edge.mk.injEq]
  by_cases leaves : source = id
  · subst leaves
    simp [apart.symm]
  · by_cases reaches : target = id
    · simp [leaves, reaches]
    · simp [leaves, reaches]

theorem mem_filterMap_otherEnd?_iff (apart : other ≠ id) :
    other ∈ topology.edges.filterMap (otherEnd? id) ↔ topology.Joined id other := by
  simp only [List.mem_filterMap, otherEnd?_eq_some_iff apart]
  constructor
  · rintro ⟨edge, member, rfl | rfl⟩
    · exact .inl member
    · exact .inr member
  · rintro (leaves | reaches)
    · exact ⟨_, leaves, .inl rfl⟩
    · exact ⟨_, reaches, .inr rfl⟩

theorem mem_peers_iff {node : Node R} :
    node ∈ topology.peers id ↔
      node ∈ topology.nodes ∧ node.id ≠ id ∧ topology.Joined id node.id := by
  simp only [peers, List.mem_filter, decide_eq_true_iff]
  refine and_congr_right fun _ => ?_
  rw [and_comm]
  exact and_congr_right mem_filterMap_otherEnd?_iff

theorem peers_sublist (topology : Topology R) (id : NodeId) :
    (topology.peers id).Sublist topology.nodes :=
  List.filter_sublist

theorem mem_isolated_iff {node : Node R} :
    node ∈ topology.isolated ↔
      node ∈ topology.nodes ∧
        ∀ edge ∈ topology.edges, edge.source ≠ node.id ∧ edge.target ≠ node.id := by
  simp [isolated, eq_comm]

theorem total_degree_eq_zero_iff :
    (topology.degree id).total = 0 ↔
      ∀ edge ∈ topology.edges, edge.source ≠ id ∧ edge.target ≠ id := by
  simp [Degree.total, degree, forall_and]

/-! ## The links at one end -/

section

variable {α κ : Type} [DecidableEq κ] {here there : α → κ} {links : List α}

/-- What is at the far ends of the links that have a given end near. -/
def farEnds (here there : α → κ) (links : List α) (near : κ) : List κ :=
  (links.filter (here · = near)).map there

theorem mem_farEnds_iff {near far : κ} :
    far ∈ farEnds here there links near ↔ ∃ link ∈ links, here link = near ∧ there link = far := by
  simp [farEnds, and_assoc]

theorem length_farEnds (links : List α) (near : κ) :
    (farEnds here there links near).length = links.countP (here · = near) := by
  rw [farEnds, List.length_map, List.countP_eq_length_filter]

/-- Links that are known by their ends have distinct far ends. -/
theorem nodup_farEnds
    (determined : ∀ {first second}, here first = here second → there first = there second →
      first = second)
    (distinct : links.Nodup) (near : κ) : (farEnds here there links near).Nodup := by
  refine List.Nodup.map_on ?_ (distinct.filter _)
  intro first firstMember second secondMember same
  have start : here first = near := by simpa using (List.mem_filter.1 firstMember).2
  have startSecond : here second = near := by simpa using (List.mem_filter.1 secondMember).2
  exact determined (start.trans startSecond.symm) same

/-- Links are counted by their near ends, which are all among some distinct ones. -/
theorem sum_countP_eq_length {ends : List κ} (distinct : ends.Nodup)
    (inside : ∀ link ∈ links, here link ∈ ends) :
    (ends.map fun near => links.countP (here · = near)).sum = links.length := by
  have counted (near : κ) : links.countP (here · = near) =
      ((links.map here : List κ) : Multiset κ).count near := by
    rw [Multiset.coe_count, List.count_eq_countP, List.countP_map]
    rfl
  have listed : ∀ near ∈ ((links.map here : List κ) : Multiset κ), near ∈ ends.toFinset := by
    intro near counted
    obtain ⟨link, member, rfl⟩ := List.mem_map.1 (Multiset.mem_coe.1 counted)
    exact List.mem_toFinset.2 (inside link member)
  simp only [counted]
  rw [← List.sum_toFinset _ distinct, Multiset.sum_count_eq_card listed, Multiset.coe_card,
    List.length_map]

end

/-! ## Peers in a valid topology -/

section

variable (valid : topology.Valid)
include valid

theorem Valid.nodup_peers (id : NodeId) : ((topology.peers id).map (·.id)).Nodup :=
  valid.uniqueIds.sublist ((topology.peers_sublist id).map _)

/-- The peers of a node have the ids at the other ends of its links. -/
theorem Valid.mem_ids_peers_iff :
    other ∈ (topology.peers id).map (·.id) ↔ topology.Joined id other := by
  simp only [List.mem_map, mem_peers_iff]
  constructor
  · rintro ⟨node, ⟨-, -, joined⟩, rfl⟩
    exact joined
  · intro joined
    have known : topology.hasNode other = true ∧ other ≠ id := by
      rcases joined with leaves | reaches
      · exact ⟨(valid.endsLive _ leaves).2, (valid.loopFree _ leaves).symm⟩
      · exact ⟨(valid.endsLive _ reaches).1, valid.loopFree _ reaches⟩
    obtain ⟨node, member, rfl⟩ := List.mem_map.1 (hasNode_eq_true_iff.1 known.1)
    exact ⟨node, ⟨member, known.2, joined⟩, rfl⟩

/-- The links at one end of a node are no more than its peers. -/
theorem Valid.countP_le_length_peers {here there : Edge → NodeId}
    (determined : ∀ {first second : Edge},
      here first = here second → there first = there second → first = second)
    (joins : ∀ edge ∈ topology.edges, topology.Joined (here edge) (there edge)) (id : NodeId) :
    topology.edges.countP (here · = id) ≤ (topology.peers id).length := by
  have peers : farEnds here there topology.edges id ⊆ (topology.peers id).map (·.id) := by
    intro other far
    obtain ⟨edge, member, rfl, rfl⟩ := mem_farEnds_iff.1 far
    exact valid.mem_ids_peers_iff.2 (joins edge member)
  have distinct := nodup_farEnds determined valid.uniqueEdges id
  simpa [length_farEnds] using distinct.length_le_of_subset peers

theorem Valid.total_le_twice_length_peers (id : NodeId) :
    (topology.degree id).total ≤ 2 * (topology.peers id).length := by
  have outbound := valid.countP_le_length_peers Edge.eq_of_ends
    (fun _ member => .inl member) id
  have inbound := valid.countP_le_length_peers
    (fun targets sources => Edge.eq_of_ends sources targets) (fun _ member => .inr member) id
  simp only [Degree.total, degree]
  omega

theorem Valid.length_peers_le_total (id : NodeId) :
    (topology.peers id).length ≤ (topology.degree id).total := by
  have ends : (topology.peers id).map (·.id) ⊆
      farEnds Edge.source Edge.target topology.edges id ++
        farEnds Edge.target Edge.source topology.edges id := by
    intro other peer
    refine List.mem_append.2 ?_
    rcases valid.mem_ids_peers_iff.1 peer with leaves | reaches
    · exact .inl (mem_farEnds_iff.2 ⟨_, leaves, rfl, rfl⟩)
    · exact .inr (mem_farEnds_iff.2 ⟨_, reaches, rfl, rfl⟩)
  simpa [length_farEnds, Degree.total, degree] using
    (valid.nodup_peers id).length_le_of_subset ends

theorem Valid.sum_degrees :
    (topology.nodes.map fun node => (topology.degree node.id).outbound).sum =
        topology.edges.length ∧
      (topology.nodes.map fun node => (topology.degree node.id).inbound).sum =
        topology.edges.length := by
  have outbound := @sum_countP_eq_length _ _ _ Edge.source _ _ valid.uniqueIds
    fun edge member => hasNode_eq_true_iff.1 (valid.endsLive edge member).1
  have inbound := @sum_countP_eq_length _ _ _ Edge.target _ _ valid.uniqueIds
    fun edge member => hasNode_eq_true_iff.1 (valid.endsLive edge member).2
  rw [List.map_map] at outbound inbound
  exact ⟨outbound, inbound⟩

end

/-- In a valid topology the peers of a node are the other nodes that it is joined to, in node
order and each once, and being a peer goes both ways. The degrees count every link once at
either end, a node has at least as many links as peers and at most two for each, and the nodes
without links are the ones of degree zero and the ones without peers. -/
theorem peers_and_degrees (topology : Topology R) (accepted : topology.validate = .ok ()) :
    (∀ id node, node ∈ topology.peers id ↔
      node ∈ topology.nodes ∧ node.id ≠ id ∧
        (⟨id, node.id⟩ ∈ topology.edges ∨ ⟨node.id, id⟩ ∈ topology.edges)) ∧
      (∀ id, (topology.peers id).Sublist topology.nodes ∧
        ((topology.peers id).map (·.id)).Nodup) ∧
      (∀ first ∈ topology.nodes, ∀ second ∈ topology.nodes,
        second ∈ topology.peers first.id ↔ first ∈ topology.peers second.id) ∧
      (topology.nodes.map fun node => (topology.degree node.id).outbound).sum =
        topology.edges.length ∧
      (topology.nodes.map fun node => (topology.degree node.id).inbound).sum =
        topology.edges.length ∧
      ∀ node ∈ topology.nodes,
        (topology.peers node.id).length ≤ (topology.degree node.id).total ∧
          (topology.degree node.id).total ≤ 2 * (topology.peers node.id).length ∧
          (node ∈ topology.isolated ↔ (topology.degree node.id).total = 0) ∧
          ((topology.degree node.id).total = 0 ↔ topology.peers node.id = []) := by
  have valid := validate_eq_ok_iff.1 accepted
  obtain ⟨outbound, inbound⟩ := valid.sum_degrees
  refine ⟨fun _ _ => mem_peers_iff,
    fun id => ⟨topology.peers_sublist id, valid.nodup_peers id⟩, ?symmetric, outbound, inbound,
    fun node live => ⟨valid.length_peers_le_total node.id,
      valid.total_le_twice_length_peers node.id, ?isolated, ?empty⟩⟩
  case symmetric =>
    intro first firstLive second secondLive
    simp only [mem_peers_iff, firstLive, secondLive, true_and]
    exact and_congr ne_comm joined_comm
  case isolated =>
    rw [mem_isolated_iff, total_degree_eq_zero_iff]
    exact and_iff_right live
  case empty =>
    have least := valid.length_peers_le_total node.id
    have most := valid.total_le_twice_length_peers node.id
    rw [← List.length_eq_zero_iff]
    omega

/-- Links in both directions between two nodes make one peer of two links. -/
theorem peers_and_degrees_bothWays :
    let node (text : String) : Node Float := .plain ⟨text⟩ text
    let topology : Topology Float :=
      { id := 0, name := "both ways", origin := .custom
        nodes := [node "a", node "b", node "c", node "d"]
        edges := [⟨⟨"a"⟩, ⟨"b"⟩⟩, ⟨⟨"c"⟩, ⟨"a"⟩⟩, ⟨⟨"b"⟩, ⟨"a"⟩⟩] }
    topology.validate = .ok () ∧ node "b" ∈ topology.peers ⟨"a"⟩ ∧
      node "a" ∈ topology.peers ⟨"b"⟩ ∧ (topology.degree ⟨"b"⟩).total = 2 ∧
      (topology.nodes.map fun node => (topology.degree node.id).inbound).sum = 3 ∧
      node "d" ∈ topology.isolated ∧ topology.peers ⟨"d"⟩ = [] := by
  intro node topology
  have accepted : topology.validate = .ok () := by decide
  obtain ⟨member, -, symmetric, -, inbound, bounds⟩ := peers_and_degrees topology accepted
  have first : node "a" ∈ topology.nodes := by simp [topology]
  have second : node "b" ∈ topology.nodes := by simp [topology]
  have alone : node "d" ∈ topology.nodes := by simp [topology]
  have peer : node "b" ∈ topology.peers ⟨"a"⟩ :=
    (member ⟨"a"⟩ (node "b")).2 ⟨second, by decide, .inl (by decide)⟩
  obtain ⟨-, -, isolated, peerless⟩ := bounds (node "d") alone
  have unlinked : (topology.degree (node "d").id).total = 0 := by decide
  exact ⟨accepted, peer, (symmetric _ first _ second).1 peer, by decide, inbound,
    isolated.2 unlinked, peerless.1 unlinked⟩

end Topology

end PeerNet
