import PeerNet.Proofs.Session.Store
import PeerNet.Proofs.Store.Overlay

/-!
# Opened topologies

What a session makes of a topology that it opens. One with links is arranged by ranks
under a simulation at rest, one without gets a simulation that runs, and one whose
places come from outside gets none. All of it depends on what the store keeps of the
topology, except the choice between the first two: that looks at the links as they
are given, before the invalid ones are dropped.
-/

set_option autoImplicit false

namespace PeerNet.Session

variable {R : Type} [Scalar R]

/-- A simulation of what a store holds, by the measures of a session. -/
def simulationOf (session : Session R) (store : Store R) : Simulation R :=
  .new store.topology store.revision session.settings.layout.force session.settings.canvas

/-- Where the ranked layout puts the nodes of a topology, by the measures of a session. -/
def ranked (session : Session R) (topology : Topology R) : Placement R :=
  Layout.rankedLayout session.settings.layout.ranked session.settings.canvas topology

theorem startSimulation_of_custom {session : Session R}
    (custom : session.store.topology.origin = .custom) :
    session.startSimulation =
      { session with simulation := some (session.simulationOf session.store) } := by
  rw [startSimulation, custom]
  rfl

/-! ## One opening for each strategy -/

omit [Scalar R] in
theorem hasEdges_iff {topology : Topology R} :
    (!topology.edges.isEmpty) = true ↔ topology.edges ≠ [] := by
  rw [Bool.not_eq_true', List.isEmpty_eq_false_iff]

/-- A topology with links is arranged by ranks, under a simulation at rest. -/
theorem openTopology_of_linked (session : Session R) {topology : Topology R}
    (custom : topology.origin = .custom) (linked : topology.edges ≠ []) :
    let arranged := ((session.store.seed topology).place (session.ranked topology.sanitized)).2
    session.openTopology topology false =
      { session with
        store := arranged, simulation := some (session.simulationOf arranged).rest } := by
  intro arranged
  have strategy : Layout.initialStrategy topology.origin (!topology.edges.isEmpty) false =
      some .ranked := by
    rw [custom, hasEdges_iff.2 linked]
    rfl
  have computed : Layout.layout (session.store.seed topology).topology .ranked
      session.settings.layout session.settings.canvas =
        .ok (session.ranked topology.sanitized) := by
    have seeded : (session.store.seed topology).topology.origin = .custom := custom
    rw [Layout.layout, seeded]
    rfl
  have kept : arranged.topology.origin = .custom := (Store.origin_place _ _).trans custom
  unfold openTopology applyLayout
  dsimp only [teardown]
  rw [strategy, computed]
  dsimp only
  rw [startSimulation_of_custom kept]
  rfl

/-- A topology without links stays where it is, under a simulation that runs. -/
theorem openTopology_of_unlinked (session : Session R) {topology : Topology R}
    (custom : topology.origin = .custom) (unlinked : topology.edges = []) :
    let seeded := session.store.seed topology
    session.openTopology topology false =
      { session with store := seeded, simulation := some (session.simulationOf seeded) } := by
  intro seeded
  have strategy : Layout.initialStrategy topology.origin (!topology.edges.isEmpty) false =
      some .force := by
    rw [custom, unlinked]
    rfl
  have kept : seeded.topology.origin = .custom := custom
  unfold openTopology
  dsimp only [teardown]
  rw [strategy]
  dsimp only
  rw [startSimulation_of_custom kept]
  rfl

/-- A topology whose places come from outside stays where it is, and no simulation
starts. -/
theorem openTopology_of_placed (session : Session R) (topology : Topology R) {laidOut : Bool}
    (placed : topology.origin.isPrebuilt = true ∨ laidOut = true) :
    session.openTopology topology laidOut =
      { session with store := session.store.seed topology, simulation := none } := by
  have strategy : Layout.initialStrategy topology.origin (!topology.edges.isEmpty) laidOut =
      none := by
    rcases placed with prebuilt | rfl
    · cases origin : topology.origin with
      | custom => rw [origin] at prebuilt; cases prebuilt
      | prebuilt asset => rfl
    · cases topology.origin with
      | custom => rfl
      | prebuilt asset => rfl
  unfold openTopology
  dsimp only [teardown]
  rw [strategy]

/-! ## What an opening depends on -/

omit [Scalar R] in
theorem seed_sanitized (store : Store R) (topology : Topology R) :
    store.seed topology.sanitized = store.seed topology := by
  rw [Store.seed, Store.seed, topology.sanitized_sanitized]

theorem openCustom_of_start {session : Session R} (start : session.step = .chooseStart)
    (topology : Topology R) :
    session.openCustom topology =
      (true, openTopology { session with step := .editGraph } topology false) := by
  rw [openCustom, openFromStart, if_pos start]

theorem positions_arranged (session : Session R) (topology : Topology R) :
    ((session.store.seed topology).place (session.ranked topology.sanitized)).2.topology.positions =
      session.ranked topology.sanitized := by
  have distinct : (session.store.seed topology).ids.Nodup := topology.valid_sanitized.uniqueIds
  exact Store.positions_place distinct (Layout.map_fst_rankedLayout _ _ topology.sanitized)

omit [Scalar R] in
theorem edges_sanitized_of_unlinked {topology : Topology R} (unlinked : topology.edges = []) :
    topology.sanitized.edges = [] := by
  rw [Topology.sanitized, unlinked]
  rfl

/-- Without links, or with one that is kept, the dropped parts make no difference. -/
theorem openCustom_sanitized {session : Session R} (start : session.step = .chooseStart)
    {topology : Topology R} (custom : topology.origin = .custom)
    (settled : topology.edges = [] ∨ topology.sanitized.edges ≠ []) :
    session.openCustom topology = session.openCustom topology.sanitized := by
  have customKept : topology.sanitized.origin = .custom := custom
  rw [openCustom_of_start start, openCustom_of_start start]
  rcases settled with unlinked | linkedKept
  · have unlinkedKept := edges_sanitized_of_unlinked unlinked
    rw [openTopology_of_unlinked _ custom unlinked,
      openTopology_of_unlinked _ customKept unlinkedKept, seed_sanitized]
  · have linked : topology.edges ≠ [] := fun unlinked =>
      linkedKept (edges_sanitized_of_unlinked unlinked)
    rw [openTopology_of_linked _ custom linked, openTopology_of_linked _ customKept linkedKept,
      seed_sanitized, topology.sanitized_sanitized]

/-- Where all links are dropped, the nodes are arranged by ranks and at rest with them,
and stay in place and are simulated without them. -/
theorem openCustom_of_dropped {session : Session R} (start : session.step = .chooseStart)
    {topology : Topology R} (custom : topology.origin = .custom) (linked : topology.edges ≠ [])
    (dropped : topology.sanitized.edges = []) :
    let opened := session.openCustom topology
    let kept := session.openCustom topology.sanitized
    (opened.2.simulation.isSome = true ∧ opened.2.isSimulating = false ∧
      opened.2.store.topology.positions = session.ranked topology.sanitized) ∧
    kept.2.simulation.isSome = true ∧ kept.2.isSimulating = true ∧
      kept.2.store.topology = topology.sanitized := by
  intro opened kept
  have openedEq := openTopology_of_linked { session with step := .editGraph } custom linked
  have customKept : topology.sanitized.origin = .custom := custom
  have keptEq := openTopology_of_unlinked { session with step := .editGraph } customKept dropped
  rw [seed_sanitized] at keptEq
  refine ⟨?_, ?_⟩
  · rw [show opened = _ from openCustom_of_start start topology, openedEq]
    exact ⟨rfl, rfl, positions_arranged session topology⟩
  · rw [show kept = _ from openCustom_of_start start topology.sanitized, keptEq]
    exact ⟨rfl, rfl, rfl⟩

/-- A custom topology and what the store keeps of it open to one and the same session,
unless it has links and the store drops them all. Then its nodes are arranged by ranks
and come to rest, where those of the kept part stay in place and are simulated. -/
theorem openCustom_sanitized_iff (session : Session R) (topology : Topology R) :
    let opened := session.openCustom topology
    let kept := session.openCustom topology.sanitized
    session.step = .chooseStart → topology.origin = .custom →
      (opened = kept ↔ topology.edges = [] ∨ topology.sanitized.edges ≠ []) ∧
        (topology.edges ≠ [] → topology.sanitized.edges = [] →
          (opened.2.simulation.isSome = true ∧ opened.2.isSimulating = false ∧
            opened.2.store.topology.positions = session.ranked topology.sanitized) ∧
          kept.2.simulation.isSome = true ∧ kept.2.isSimulating = true ∧
            kept.2.store.topology = topology.sanitized) := by
  intro opened kept start custom
  refine ⟨⟨fun same => ?_, openCustom_sanitized start custom⟩, openCustom_of_dropped start custom⟩
  by_cases unlinked : topology.edges = []
  · exact .inl unlinked
  · refine .inr fun dropped => ?_
    obtain ⟨⟨_, rests, _⟩, _, runs, _⟩ := openCustom_of_dropped start custom unlinked dropped
    rw [show session.openCustom topology = _ from same, runs] at rests
    cases rests

/-- Two nodes beside each other, with a link from the first one to itself. -/
def loopedPair : Topology Float :=
  { pair with edges := [⟨⟨"a"⟩, ⟨"a"⟩⟩] }

theorem openCustom_sanitized_iff_pair :
    let session := new (.standard : Settings Float) {} []
    let tangled := { pair with edges := [⟨⟨"a"⟩, ⟨"a"⟩⟩, ⟨⟨"a"⟩, ⟨"b"⟩⟩, ⟨⟨"a"⟩, ⟨"b"⟩⟩] }
    tangled.sanitized.edges = [⟨⟨"a"⟩, ⟨"b"⟩⟩] ∧
      session.openCustom tangled = session.openCustom tangled.sanitized ∧
      loopedPair.sanitized.edges = [] ∧
      (session.openCustom loopedPair).2.store.topology.positions =
        session.ranked loopedPair.sanitized := by
  intro session tangled
  have linked : tangled.sanitized.edges = [⟨⟨"a"⟩, ⟨"b"⟩⟩] := by decide +kernel
  have unlinked : loopedPair.sanitized.edges = [] := by decide +kernel
  obtain ⟨same, -⟩ := openCustom_sanitized_iff session tangled rfl rfl
  obtain ⟨-, apart⟩ := openCustom_sanitized_iff session loopedPair rfl rfl
  exact ⟨linked, same.2 (.inr (by rw [linked]; exact List.cons_ne_nil _ _)), unlinked,
    (apart (List.cons_ne_nil _ _) unlinked).1.2.2⟩

/-- A link from a node to itself, which the store drops, makes a session arrange two
nodes by ranks and hold them at rest. Without it they stay in place and are simulated. -/
theorem openCustom_loopedPair_ne :
    let session := new (.standard : Settings Float) {} []
    let opened := (session.openCustom loopedPair).2
    let kept := (session.openCustom loopedPair.sanitized).2
    session.step = .chooseStart ∧ loopedPair.origin = .custom ∧
      opened.store.topology.edges = kept.store.topology.edges ∧
      opened.store.topology.positions ≠ kept.store.topology.positions ∧
      opened.isSimulating = false ∧ kept.isSimulating = true := by
  decide +kernel

end PeerNet.Session
