import PeerNet.Topology.Validity

/-!
# The validity check

The check accepts exactly the valid topologies. Each of its two passes carries
what it has seen, so each is characterized for any such list.
-/

set_option autoImplicit false

namespace PeerNet.Topology

variable {R : Type}

theorem any_id_eq_iff {nodes : List (Node R)} {id : NodeId} :
    nodes.any (·.id = id) = true ↔ id ∈ nodes.map (·.id) := by
  simp [List.any_eq_true, List.mem_map]

theorem hasNode_eq_true_iff {topology : Topology R} {id : NodeId} :
    topology.hasNode id = true ↔ id ∈ topology.nodes.map (·.id) :=
  any_id_eq_iff

theorem hasEdge_eq_true_iff {topology : Topology R} {source target : NodeId} :
    topology.hasEdge source target = true ↔ ⟨source, target⟩ ∈ topology.edges := by
  constructor
  · intro found
    simp only [hasEdge, List.any_eq_true, Bool.and_eq_true, decide_eq_true_eq] at found
    obtain ⟨⟨_, _⟩, member, rfl, rfl⟩ := found
    exact member
  · intro member
    simp only [hasEdge, List.any_eq_true, Bool.and_eq_true, decide_eq_true_eq]
    exact ⟨_, member, rfl, rfl⟩

theorem checkNodes_eq_ok_iff {seen : List NodeId} {nodes : List (Node R)} :
    checkNodes seen nodes = .ok () ↔
      (nodes.map (·.id)).Nodup ∧ ∀ id ∈ nodes.map (·.id), id ∉ seen := by
  induction nodes generalizing seen with
  | nil => simp [checkNodes]
  | cons node rest ih =>
    simp only [checkNodes, List.map_cons, List.nodup_cons, List.forall_mem_cons]
    by_cases known : node.id ∈ seen
    · simp [known]
    · simp only [known, ↓reduceIte, ih, List.mem_cons, not_or, not_false_eq_true, true_and]
      constructor
      · rintro ⟨distinct, unseen⟩
        exact ⟨⟨fun repeated => (unseen _ repeated).1 rfl, distinct⟩,
          fun id member => (unseen id member).2⟩
      · rintro ⟨⟨first, distinct⟩, unseen⟩
        refine ⟨distinct, fun id member => ⟨?_, unseen id member⟩⟩
        rintro rfl
        exact first member

theorem checkEdges_eq_ok_iff {ids : List NodeId} {seen edges : List Edge} :
    checkEdges ids seen edges = .ok () ↔
      (∀ edge ∈ edges, edge.source ∈ ids ∧ edge.target ∈ ids ∧ edge.source ≠ edge.target ∧
        edge ∉ seen) ∧ edges.Nodup := by
  induction edges generalizing seen with
  | nil => simp [checkEdges]
  | cons edge rest ih =>
    simp only [checkEdges, List.forall_mem_cons, List.nodup_cons]
    by_cases source : edge.source ∈ ids
    · by_cases target : edge.target ∈ ids
      · by_cases loop : edge.source = edge.target
        · simp [target, loop]
        · by_cases known : edge ∈ seen
          · simp [source, target, loop, known]
          · simp only [source, target, loop, known, ↓reduceIte, not_true_eq_false, ih,
              List.mem_cons, not_or, ne_eq, not_false_eq_true, and_self, true_and]
            constructor
            · rintro ⟨sound, distinct⟩
              refine ⟨fun other member => ?_, fun repeated => ?_, distinct⟩
              · obtain ⟨first, second, apart, _, unseen⟩ := sound other member
                exact ⟨first, second, apart, unseen⟩
              · exact (sound edge repeated).2.2.2.1 rfl
            · rintro ⟨sound, first, distinct⟩
              refine ⟨fun other member => ?_, distinct⟩
              obtain ⟨start, stop, apart, unseen⟩ := sound other member
              refine ⟨start, stop, apart, ?_, unseen⟩
              rintro rfl
              exact first member
      · simp [source, target]
    · simp [source]

/-- The check accepts exactly the valid topologies. -/
theorem validate_eq_ok_iff {topology : Topology R} :
    topology.validate = .ok () ↔ topology.Valid := by
  have nodesChecked := @checkNodes_eq_ok_iff R [] topology.nodes
  have edgesChecked := @checkEdges_eq_ok_iff (topology.nodes.map (·.id)) [] topology.edges
  constructor
  · intro accepted
    unfold validate at accepted
    split at accepted
    · cases accepted
    · next checked =>
      obtain ⟨distinct, _⟩ := nodesChecked.1 checked
      obtain ⟨sound, unique⟩ := edgesChecked.1 accepted
      refine ⟨distinct, fun edge member => ?_, fun edge member => ?_, unique⟩
      · obtain ⟨source, target, _⟩ := sound edge member
        exact ⟨hasNode_eq_true_iff.2 source, hasNode_eq_true_iff.2 target⟩
      · exact (sound edge member).2.2.1
  · intro valid
    have nodesOk := nodesChecked.2 ⟨valid.uniqueIds, by simp⟩
    have edgesOk := edgesChecked.2 ⟨fun edge member => by
      obtain ⟨source, target⟩ := valid.endsLive edge member
      exact ⟨hasNode_eq_true_iff.1 source, hasNode_eq_true_iff.1 target,
        valid.loopFree edge member, by simp⟩, valid.uniqueEdges⟩
    simp only [validate, nodesOk, edgesOk]

end PeerNet.Topology
