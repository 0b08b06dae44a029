import PeerNet.Layout.Strategy
import PeerNet.Proofs.Layout.Bodies
import PeerNet.Proofs.Layout.Ranks

/-!
# Where layouts and simulations put the nodes

Every layout of a topology that is not prebuilt gives each node one position, in
node order. A new simulation takes each node where it stands, unless two of them
stand at one place.
-/

set_option autoImplicit false

namespace PeerNet

variable {R : Type}

namespace Topology

/-- Where the nodes stand, in node order. -/
def positions (topology : Topology R) : Placement R :=
  topology.nodes.map fun node => (node.id, node.position)

/-- True of a topology in which no two nodes stand at one place. -/
def Spread [Scalar R] (topology : Topology R) : Prop :=
  (topology.nodes.map (·.position)).Pairwise fun first last =>
    (first.x == last.x && first.y == last.y) = false

instance [Scalar R] (topology : Topology R) : Decidable topology.Spread :=
  inferInstanceAs (Decidable (List.Pairwise _ _))

end Topology

namespace Layout

/-! ## The ranked layout -/

namespace Layers

theorem length_noteRow (slots row : List Nat) : (noteRow slots row).length = slots.length :=
  view_foldl List.length (fun _ _ => List.length_set ..) slots row.zipIdx

theorem length_slots_initial (count : Nat) (ranks : List Nat) :
    (initial count ranks).slots.length = count :=
  (view_foldl List.length length_noteRow _ _).trans List.length_replicate

variable (R) [Scalar R]

theorem length_slots_sortRow (arcs : List Arc) (direction : Direction) (layers : Layers)
    (rank : Nat) : (sortRow R arcs direction layers rank).slots.length = layers.slots.length :=
  length_noteRow _ _

theorem length_slots_sweep (arcs : List Arc) (layers : Layers) (direction : Direction) :
    (sweep R arcs layers direction).slots.length = layers.slots.length :=
  view_foldl (·.slots.length) (length_slots_sortRow R arcs direction) layers _

theorem length_slots_ordered (count : Nat) (arcs : List Arc) (ranks : List Nat) :
    (ordered R count arcs ranks).slots.length = count := by
  have kept := view_foldl (fun layers => layers.slots.length) (length_slots_sweep R arcs)
    (initial count ranks) [.down, .up, .down, .up]
  exact kept.trans (length_slots_initial count ranks)

end Layers

variable [Scalar R]

theorem length_centred (center : R × R) (points : List (Point R)) :
    (centred center points).length = points.length :=
  List.length_map _

theorem length_gridPoints (settings : RankedSettings R) (canvas : Canvas R) (ranks : List Nat)
    (layers : Layers) :
    (gridPoints settings canvas ranks layers).length = min ranks.length layers.slots.length := by
  rw [gridPoints, List.length_map, List.length_zip]

/-- The places of a number of nodes with given arcs, in node order. -/
def drawing (settings : RankedSettings R) (canvas : Canvas R) (count : Nat) (arcs : List Arc) :
    List (Point R) :=
  let ranks := longestPathRanks count arcs
  centred canvas.center (gridPoints settings canvas ranks (Layers.ordered R count arcs ranks))

theorem length_drawing (settings : RankedSettings R) (canvas : Canvas R) (count : Nat)
    (arcs : List Arc) : (drawing settings canvas count arcs).length = count := by
  rw [drawing, length_centred, length_gridPoints, length_longestPathRanks,
    Layers.length_slots_ordered, Nat.min_self]

theorem rankedLayout_of_several (settings : RankedSettings R) (canvas : Canvas R)
    {topology : Topology R} (several : 2 ≤ topology.nodes.length) :
    rankedLayout settings canvas topology =
      (topology.nodes.map (·.id)).zip (drawing settings canvas topology.nodes.length
        (breakCycles topology.nodes.length (indexedLinks topology))) := by
  unfold rankedLayout
  dsimp only
  split
  · next empty => simp [empty] at several
  · next only single => simp [single] at several
  · rfl

theorem map_fst_rankedLayout (settings : RankedSettings R) (canvas : Canvas R)
    (topology : Topology R) :
    (rankedLayout settings canvas topology).map (·.1) = topology.nodes.map (·.id) := by
  unfold rankedLayout
  dsimp only
  split
  · next empty => rw [empty]; rfl
  · next only single => rw [single]; rfl
  · next nodes _ _ =>
    refine List.map_fst_zip (Nat.le_of_eq ?_)
    exact (List.length_map _).trans (length_drawing settings canvas _ _).symm

/-! ## All layouts -/

/-- A layout is refused to prebuilt topologies alone, and leaves no node out. -/
theorem exists_layout_eq {topology : Topology R} (custom : topology.origin = .custom)
    (strategy : Strategy) (settings : LayoutSettings R) (canvas : Canvas R) :
    ∃ positions, layout topology strategy settings canvas = .ok positions ∧
      positions.map (·.1) = topology.nodes.map (·.id) := by
  cases strategy with
  | ranked =>
    refine ⟨rankedLayout settings.ranked canvas topology, ?_, map_fst_rankedLayout _ _ _⟩
    rw [layout, custom]
  | force =>
    refine ⟨_, rfl, ?_⟩
    rw [Simulation.map_fst_positions, Simulation.runUntilSettled,
      (Simulation.sameBodies_runFrom _ _ _).ids, Simulation.ids_new]

end Layout

namespace Simulation

variable [Scalar R]

/-! ## Starts -/

theorem startAt_of_free {earlier : List (Body R)} {position : Point R}
    (free : ∀ body ∈ earlier,
      (body.position.x == position.x && body.position.y == position.y) = false) (place : Nat) :
    startAt earlier place position = position := by
  refine if_neg fun taken => ?_
  obtain ⟨body, member, same⟩ := List.any_eq_true.1 taken
  rw [free body member] at same
  cases same

theorem positions_addBodies {earlier : List (Body R)} {nodes : List (Node R)}
    (spread : (earlier.map (·.position) ++ nodes.map (·.position)).Pairwise fun first last =>
      (first.x == last.x && first.y == last.y) = false) :
    (addBodies earlier nodes).map (fun body => (body.id, body.position)) =
      earlier.map (fun body => (body.id, body.position)) ++
        nodes.map fun node => (node.id, node.position) := by
  induction nodes generalizing earlier with
  | nil => rw [addBodies, List.map_nil, List.append_nil]
  | cons node rest ih =>
    have free : startAt earlier earlier.length node.position = node.position := by
      refine startAt_of_free (fun body member => ?_) _
      exact (List.pairwise_append.1 spread).2.2 _ (List.mem_map_of_mem member) _
        List.mem_cons_self
    rw [addBodies, ih, List.map_append, List.append_assoc]
    · rw [free]
      rfl
    · rw [List.map_append, List.append_assoc, free]
      exact spread

/-- A new simulation starts from where the nodes stand. -/
theorem positions_new {topology : Topology R} (spread : topology.Spread) (revision : UInt64)
    (settings : ForceSettings R) (canvas : Canvas R) :
    (new topology revision settings canvas).positions = topology.positions :=
  @positions_addBodies R _ [] topology.nodes spread

end Simulation

end PeerNet
