import PeerNet.Proofs.Layout.Bodies
import PeerNet.Proofs.Store.Invariant
import PeerNet.Proofs.Store.Revision

/-!
# Frames for a store

A frame of a simulation is about the nodes that the store had when the
simulation was built. As long as no node or link came or went, it is applied: each
node stands where the frame has it, and nothing else changes. Afterwards it is
refused.
-/

set_option autoImplicit false

namespace PeerNet.Store

variable {R : Type}

/-- The store with each of its nodes changed. -/
def mapNodes (store : Store R) (change : Node R → Node R) : Store R :=
  { store with topology := { store.topology with nodes := store.topology.nodes.map change } }

theorem mapNodes_mapNodes (store : Store R) (first last : Node R → Node R) :
    (store.mapNodes first).mapNodes last = store.mapNodes fun node => last (first node) := by
  simp only [mapNodes, List.map_map]
  rfl

theorem mapNodes_eq_self {store : Store R} {change : Node R → Node R}
    (keeps : ∀ node ∈ store.topology.nodes, change node = node) : store.mapNodes change = store := by
  have same : store.topology.nodes.map change = store.topology.nodes :=
    List.map_congr_left keeps |>.trans (List.map_id _)
  rw [mapNodes, same]

/-! ## Moves -/

def movedNode (id : NodeId) (position : Point R) (node : Node R) : Node R :=
  if node.id = id then { node with position } else node

/-- A node where a placement has it, or where it is if the placement leaves it out. -/
def placedNode (positions : Placement R) (node : Node R) : Node R :=
  { node with position := (positions.lookup node.id).getD node.position }

theorem modifyNode_eq_map {nodes : List (Node R)} (distinct : (nodes.map (·.id)).Nodup)
    (id : NodeId) (change : Node R → Node R) :
    modifyNode id change nodes =
      nodes.map fun node => if node.id = id then change node else node := by
  induction nodes with
  | nil => rfl
  | cons node rest ih =>
    obtain ⟨fresh, distinctRest⟩ := List.nodup_cons.1 distinct
    rw [modifyNode, List.map_cons]
    by_cases same : node.id = id
    · have untouched : (rest.map fun node => if node.id = id then change node else node) = rest := by
        refine (List.map_congr_left fun other member => if_neg ?_).trans (List.map_id _)
        intro again
        exact fresh (List.mem_map.2 ⟨other, member, again.trans same.symm⟩)
      rw [if_pos same, if_pos same, untouched]
    · rw [if_neg same, if_neg same, ih distinctRest]

theorem move_eq_mapNodes {store : Store R} (distinct : store.ids.Nodup) (id : NodeId)
    (position : Point R) :
    (store.move id position).2 = store.mapNodes (movedNode id position) := by
  unfold move
  split
  · rw [modifyNode_eq_map distinct]
    rfl
  · next missing =>
    refine (mapNodes_eq_self fun node member => if_neg ?_).symm
    intro same
    have live : id ∈ store.ids := List.mem_map.2 ⟨node, member, same⟩
    exact missing (Topology.hasNode_eq_true_iff.2 live)

theorem place_eq_mapNodes {store : Store R} (distinct : store.ids.Nodup)
    (positions : Placement R) :
    (store.place positions).2 = store.mapNodes fun node =>
      positions.foldl (fun node entry => movedNode entry.1 entry.2 node) node := by
  unfold place
  generalize (0 : Nat) = count
  induction positions generalizing count store with
  | nil => exact (mapNodes_eq_self fun _ _ => rfl).symm
  | cons entry rest ih =>
    have moved := move_eq_mapNodes distinct entry.1 entry.2
    have still : (store.move entry.1 entry.2).2.ids.Nodup :=
      (sameShape_move store entry.1 entry.2).ids ▸ distinct
    refine (ih still _).trans ?_
    rw [moved, mapNodes_mapNodes]
    rfl

theorem foldl_movedNode {positions : Placement R} (distinct : (positions.map (·.1)).Nodup)
    (node : Node R) :
    positions.foldl (fun node entry => movedNode entry.1 entry.2 node) node =
      placedNode positions node := by
  induction positions generalizing node with
  | nil => rfl
  | cons entry rest ih =>
    obtain ⟨fresh, distinctRest⟩ := List.nodup_cons.1 distinct
    rw [List.foldl_cons, ih distinctRest, movedNode, placedNode, placedNode, List.lookup_cons]
    by_cases same : node.id = entry.1
    · have last : rest.lookup node.id = none := by
        refine List.lookup_eq_none_iff.2 fun other member => ?_
        rw [same]
        exact bne_iff_ne.2 fun again => fresh (List.mem_map.2 ⟨other, member, again.symm⟩)
      rw [if_pos same, last, beq_iff_eq.2 same]
      rfl
    · rw [if_neg same, beq_eq_false_iff_ne.2 same]

/-- A placement that names each node at most once puts every node where it says. -/
theorem place_eq_placed {store : Store R} (distinctIds : store.ids.Nodup)
    {positions : Placement R} (distinct : (positions.map (·.1)).Nodup) :
    (store.place positions).2 = store.mapNodes (placedNode positions) := by
  rw [place_eq_mapNodes distinctIds, funext (foldl_movedNode distinct)]

theorem lookup_isSome_of_mem {positions : Placement R} {id : NodeId}
    (named : id ∈ positions.map (·.1)) : (positions.lookup id).isSome := by
  rw [Option.isSome_iff_ne_none]
  intro missing
  obtain ⟨entry, member, rfl⟩ := List.mem_map.1 named
  have apart := List.lookup_eq_none_iff.1 missing entry member
  exact bne_iff_ne.1 apart rfl

theorem lookup_placed {positions : Placement R} {nodes : List (Node R)}
    (named : ∀ node ∈ nodes, node.id ∈ positions.map (·.1)) :
    ∀ node ∈ nodes.map (placedNode positions), positions.lookup node.id = some node.position := by
  intro placed member
  obtain ⟨node, listed, rfl⟩ := List.mem_map.1 member
  obtain ⟨position, found⟩ := Option.isSome_iff_exists.1 (lookup_isSome_of_mem (named node listed))
  change positions.lookup node.id = some ((positions.lookup node.id).getD node.position)
  rw [found, Option.getD_some]

/-! ## Frames of an earlier store -/

theorem applyFrame_current {store : Store R} (sound : store.Sound) {frame : Frame R}
    (current : frame.revision = store.revision) (covers : frame.positions.map (·.1) = store.ids) :
    store.applyFrame frame = (true, store.mapNodes (placedNode frame.positions)) := by
  have distinct : store.ids.Nodup := sound.valid.uniqueIds
  rw [applyFrame, placeAt, if_pos current, place_eq_placed distinct (covers ▸ distinct)]

theorem applyFrame_stale {store : Store R} {frame : Frame R}
    (stale : frame.revision ≠ store.revision) : store.applyFrame frame = (false, store) := by
  rw [applyFrame, placeAt, if_neg stale]

variable [Scalar R]

/-- A frame of a simulation of an earlier store is applied just when no node or
link came or went since, unless as many did as the revision can count. Then every
node stands where the frame has it, and nothing else changes; otherwise nothing
changes. -/
theorem applyFrame_of_earlier (topology : Option (Topology R)) (options : NodeOptions)
    (canvas area : Canvas R) (settings : ForceSettings R) (before after : List (StoreOperation R))
    (steps : List (SimulationOperation R)) (frame : Frame R) :
    let earlier := (start topology options canvas).run before
    let later := earlier.run after
    let simulation := Simulation.new earlier.topology earlier.revision settings area
    (simulation.run steps).Emits frame → earlier.setChanges after < UInt64.size →
      ((later.applyFrame frame).1 = true ↔ earlier.setChanges after = 0) ∧
      ((later.applyFrame frame).1 = true →
        (later.applyFrame frame).2 = later.mapNodes (placedNode frame.positions) ∧
        ∀ node ∈ (later.applyFrame frame).2.topology.nodes,
          frame.positions.lookup node.id = some node.position) ∧
      ((later.applyFrame frame).1 = false → (later.applyFrame frame).2 = later) := by
  intro earlier later simulation emitted few
  have about : simulation.FrameOf frame :=
    (Simulation.sameBodies_run simulation steps).frameOf (Simulation.frameOf_emitted emitted)
  have told : later.revision = earlier.revision ↔ earlier.setChanges after = 0 :=
    revision_run_eq_iff few
  have current : frame.revision = earlier.revision := about.revision
  by_cases still : earlier.setChanges after = 0
  · have same : SameSets earlier later := sameSets_run still
    have sound : later.Sound := ((sound_start topology options canvas).run before).run after
    have covers : frame.positions.map (·.1) = later.ids :=
      about.ids.trans ((Simulation.ids_new ..).trans same.ids.symm)
    have applied := applyFrame_current sound (current.trans same.revision.symm) covers
    rw [applied]
    refine ⟨⟨fun _ => still, fun _ => rfl⟩, fun _ => ⟨rfl, ?_⟩, fun refused => by cases refused⟩
    refine lookup_placed fun node member => ?_
    rw [covers]
    exact List.mem_map_of_mem member
  · have stale : frame.revision ≠ later.revision := by
      rw [current]
      exact fun same => still (told.1 same.symm)
    rw [applyFrame_stale stale]
    exact ⟨⟨fun applied => (by cases applied), fun empty => absurd empty still⟩,
      fun applied => (by cases applied), fun _ => rfl⟩

theorem applyFrame_of_earlier_row :
    let store := start (some row) {} .standard
    let simulation := (Simulation.new store.topology store.revision .standard .standard).run
      [.tick, .dragStart ⟨"b"⟩, .dragTo ⟨"b"⟩ ⟨1.0, 2.0⟩]
    let frame := simulation.tick.2.frame
    simulation.Emits frame ∧
      ((store.run [.move ⟨"a"⟩ ⟨3.0, 4.0⟩, .select ⟨"c"⟩]).applyFrame frame).1 = true ∧
      ((store.run [.move ⟨"a"⟩ ⟨3.0, 4.0⟩, .delete ⟨"c"⟩]).applyFrame frame).1 = false := by
  intro store simulation frame
  have emitted : simulation.Emits frame :=
    .inl (Simulation.tick_of_running (by decide +kernel))
  have kept := applyFrame_of_earlier (some row) {} .standard .standard .standard []
    [.move ⟨"a"⟩ ⟨3.0, 4.0⟩, .select ⟨"c"⟩] _ frame emitted (by decide +kernel)
  have shrunk := applyFrame_of_earlier (some row) {} .standard .standard .standard []
    [.move ⟨"a"⟩ ⟨3.0, 4.0⟩, .delete ⟨"c"⟩] _ frame emitted (by decide +kernel)
  refine ⟨emitted, kept.1.2 (by decide +kernel), Bool.eq_false_iff.2 fun applied => ?_⟩
  have still := shrunk.1.1 applied
  revert still
  decide +kernel

end PeerNet.Store
