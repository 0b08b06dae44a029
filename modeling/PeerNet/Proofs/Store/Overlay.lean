import PeerNet.Proofs.Layout.Covers
import PeerNet.Proofs.Store.Frames

/-!
# Placements of all nodes

A placement that names every node of a store determines where they all stand,
wherever they stood before. So two stores that differ in nothing else are made equal
by one frame.
-/

set_option autoImplicit false

namespace PeerNet.Store

variable {R : Type}

theorem mapNodes_congr {store : Store R} {first last : Node R → Node R}
    (same : ∀ node ∈ store.topology.nodes, first node = last node) :
    store.mapNodes first = store.mapNodes last := by
  rw [mapNodes, mapNodes, List.map_congr_left same]

/-! ## Where the nodes stand -/

theorem placedNode_cons_of_ne {entry : NodeId × Point R} {node : Node R}
    (apart : node.id ≠ entry.1) (positions : Placement R) :
    placedNode (entry :: positions) node = placedNode positions node := by
  rw [placedNode, placedNode, List.lookup_cons, beq_eq_false_iff_ne.2 apart]

theorem map_position_placedNode {positions : Placement R} {nodes : List (Node R)}
    (distinct : (nodes.map (·.id)).Nodup)
    (covers : positions.map (·.1) = nodes.map (·.id)) :
    (nodes.map (placedNode positions)).map (fun node => (node.id, node.position)) = positions := by
  induction nodes generalizing positions with
  | nil => exact (List.map_eq_nil_iff.1 covers).symm
  | cons node rest ih =>
    obtain ⟨entry, others, rfl, named, coversRest⟩ := List.map_eq_cons_iff.1 covers
    obtain ⟨fresh, distinctRest⟩ := List.nodup_cons.1 distinct
    have head : (placedNode (entry :: others) node).position = entry.2 := by
      rw [placedNode, List.lookup_cons, beq_iff_eq.2 named.symm]
      rfl
    have tail : rest.map (placedNode (entry :: others)) = rest.map (placedNode others) := by
      refine List.map_congr_left fun other member => placedNode_cons_of_ne (fun same => ?_) _
      exact fresh (List.mem_map.2 ⟨other, member, same.trans named⟩)
    rw [List.map_cons, List.map_cons, tail, ih distinctRest coversRest, head]
    exact congrArg (· :: others) (Prod.ext named.symm rfl)

/-- After a placement of all nodes they stand as it says. -/
theorem positions_place {store : Store R} (distinct : store.ids.Nodup)
    {positions : Placement R} (covers : positions.map (·.1) = store.ids) :
    (store.place positions).2.topology.positions = positions := by
  rw [place_eq_placed distinct (covers ▸ distinct)]
  exact map_position_placedNode distinct covers

/-! ## All but where the nodes stand -/

variable [Scalar R]

/-- The store with every node at the origin. -/
def unplaced (store : Store R) : Store R :=
  store.mapNodes fun node => { node with position := ⟨0.0, 0.0⟩ }

theorem ids_unplaced (store : Store R) : store.unplaced.ids = store.ids :=
  List.map_map

theorem unplaced_move (store : Store R) (id : NodeId) (position : Point R) :
    (store.move id position).2.unplaced = store.unplaced := by
  unfold move
  split
  · rw [unplaced, unplaced, mapNodes, mapNodes]
    dsimp only
    rw [map_view_modifyNode]
    intro node
    rfl
  · rfl

theorem unplaced_place (store : Store R) (positions : Placement R) :
    (store.place positions).2.unplaced = store.unplaced :=
  view_foldl (fun placed : Nat × Store R => placed.2.unplaced)
    (fun placed entry => unplaced_move placed.2 entry.1 entry.2) (0, store) positions

theorem mapNodes_placedNode_unplaced {store : Store R} {positions : Placement R}
    (covers : positions.map (·.1) = store.ids) :
    store.unplaced.mapNodes (placedNode positions) = store.mapNodes (placedNode positions) := by
  rw [unplaced, mapNodes_mapNodes]
  refine mapNodes_congr fun node member => ?_
  have named : node.id ∈ positions.map (·.1) := covers ▸ List.mem_map_of_mem member
  obtain ⟨position, found⟩ := Option.isSome_iff_exists.1 (lookup_isSome_of_mem named)
  simp only [placedNode, found, Option.getD_some]

/-- A frame of all nodes leaves no trace of where they stood before it. -/
theorem applyFrame_eq_of_unplaced {first last : Store R} (firstSound : first.Sound)
    (lastSound : last.Sound) (same : last.unplaced = first.unplaced) {frame : Frame R}
    (current : frame.revision = first.revision)
    (covers : frame.positions.map (·.1) = first.ids) :
    last.applyFrame frame = first.applyFrame frame := by
  have ids : last.ids = first.ids := by rw [← ids_unplaced, same, ids_unplaced]
  have revision : last.unplaced.revision = first.unplaced.revision :=
    congrArg Store.revision same
  have coversLast : frame.positions.map (·.1) = last.ids := covers.trans ids.symm
  rw [applyFrame_current firstSound current covers,
    applyFrame_current lastSound (current.trans revision.symm) coversLast,
    ← mapNodes_placedNode_unplaced covers, ← mapNodes_placedNode_unplaced coversLast, same]

end PeerNet.Store
