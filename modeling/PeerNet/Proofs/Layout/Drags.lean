import PeerNet.Proofs.Layout.Pins

/-!
# Drags in a simulation

A drag pins a node where it takes hold of it, or where it moves it to. Until it is released
the node stands at its pin, in the simulation and in every frame, and it is released there.
Without a pinned node nothing keeps the simulation warm.
-/

set_option autoImplicit false

namespace PeerNet

variable {R : Type}

namespace SimulationOperation

def releases (id : NodeId) : SimulationOperation R → Bool
  | .dragEnd other => other = id
  | _ => false

/-- Where an operation moves a node to. -/
def target? (id : NodeId) : SimulationOperation R → Option (Point R)
  | .dragTo other position => if other = id then some position else none
  | _ => none

/-- The last place that operations move a node to, or the one where it stood before. -/
def lastTarget (id : NodeId) (stood : Point R) (operations : List (SimulationOperation R)) :
    Point R :=
  (operations.filterMap (·.target? id)).getLast?.getD stood

theorem lastTarget_cons (id : NodeId) (stood : Point R) (operation : SimulationOperation R)
    (rest : List (SimulationOperation R)) :
    lastTarget id stood (operation :: rest) =
      lastTarget id ((operation.target? id).getD stood) rest := by
  rw [lastTarget, List.filterMap_cons]
  cases operation.target? id with
  | none => rfl
  | some position => rw [List.getLast?_cons]; rfl

end SimulationOperation

/-- Of a body that is pinned: it stands at its pin. -/
def Body.AtPin (body : Body R) : Prop :=
  ∀ pin, body.pin = some pin → body.position = pin

namespace Simulation

/-- No body is pinned. -/
def Free (simulation : Simulation R) : Prop :=
  ∀ body ∈ simulation.bodies, body.pin = none

instance (simulation : Simulation R) : Decidable simulation.Free :=
  inferInstanceAs (Decidable (∀ body ∈ simulation.bodies, body.pin = none))

/-- Pinned bodies stand at their pins, and the energy cools to nothing while there are
none. -/
structure Anchored [Scalar R] (simulation : Simulation R) : Prop where
  atPins : ∀ body ∈ simulation.bodies, body.AtPin
  cools : simulation.Free → simulation.alphaTarget = 0.0

theorem atPin_of_mem_modify {bodies : List (Body R)} (kept : ∀ body ∈ bodies, body.AtPin)
    {change : Body R → Body R} (changes : ∀ body, body.AtPin → (change body).AtPin) {place : Nat} :
    ∀ body ∈ bodies.modify place change, body.AtPin := by
  intro body member
  obtain ⟨index, old, listed, rfl⟩ := exists_of_mem_modify member
  have before : old.AtPin := kept old (List.mem_of_getElem? listed)
  split
  · exact changes old before
  · exact before

/-- A change that pins a body of a simulation leaves it with a pinned body. -/
theorem not_free_modify {simulation : Simulation R} {id : NodeId} {place : Nat}
    (found : simulation.place? id = some place) {change : Body R → Body R}
    (pins : ∀ body, (change body).pin ≠ none) :
    ¬∀ body ∈ simulation.bodies.modify place change, body.pin = none := by
  intro free
  obtain ⟨body, placed, _⟩ := exists_of_place? found
  have changed : (simulation.bodies.modify place change)[place]? = some (change body) := by
    simp [placed]
  exact pins body (free _ (List.mem_of_getElem? changed))

theorem map_pin_of_map_stance {before after : List (Body R)}
    (same : after.map stance = before.map stance) :
    after.map (·.pin) = before.map (·.pin) := by
  have pins := congrArg (List.map (·.2.2)) same
  rwa [List.map_map, List.map_map] at pins

theorem forall_pin_eq_none_iff {bodies : List (Body R)} :
    (∀ body ∈ bodies, body.pin = none) ↔ ∀ pin ∈ bodies.map (·.pin), pin = none :=
  (List.forall_mem_map (P := (· = none))).symm

variable [Scalar R]

/-! ## Single operations -/

theorem pin_integrate (retain : R) (body : Body R) : (integrate retain body).pin = body.pin := by
  unfold integrate
  split
  · rfl
  · rfl

theorem atPin_integrate (retain : R) (body : Body R) : (integrate retain body).AtPin := by
  intro pin pinned
  rw [pin_integrate] at pinned
  exact (integrate_of_pinned pinned).2

theorem map_pin_advance (simulation : Simulation R) (alpha : R) :
    (simulation.advance alpha).1.map (·.pin) = simulation.bodies.map (·.pin) := by
  obtain ⟨bodies, same, advanced⟩ := exists_advance_eq simulation alpha
  rw [advanced, map_view_map (pin_integrate _)]
  exact map_pin_of_map_stance same

theorem free_tick {simulation : Simulation R} : simulation.tick.2.Free ↔ simulation.Free := by
  unfold tick
  split
  · exact Iff.rfl
  · rw [Free, Free, forall_pin_eq_none_iff, forall_pin_eq_none_iff, map_pin_advance]

theorem alphaTarget_tick (simulation : Simulation R) :
    simulation.tick.2.alphaTarget = simulation.alphaTarget := by
  unfold tick
  split
  · rfl
  · rfl

theorem Anchored.tick {simulation : Simulation R} (anchored : simulation.Anchored) :
    simulation.tick.2.Anchored := by
  refine ⟨?_, fun free => ?_⟩
  · unfold Simulation.tick
    split
    · exact anchored.atPins
    · intro body member
      obtain ⟨bodies, _, advanced⟩ := exists_advance_eq simulation simulation.cooled
      dsimp only at member
      rw [advanced] at member
      obtain ⟨pulled, _, rfl⟩ := List.mem_map.1 member
      exact atPin_integrate _ pulled
  · rw [alphaTarget_tick]
    exact anchored.cools (free_tick.1 free)

theorem Anchored.dragStart {simulation : Simulation R} (anchored : simulation.Anchored)
    (id : NodeId) : (simulation.dragStart id).2.Anchored := by
  unfold Simulation.dragStart
  split
  · exact anchored
  · next found =>
    refine ⟨atPin_of_mem_modify anchored.atPins fun body _ pin pinned => Option.some.inj pinned,
      fun free => absurd free (not_free_modify found fun body none => ?_)⟩
    cases none

theorem Anchored.dragTo {simulation : Simulation R} (anchored : simulation.Anchored)
    (id : NodeId) (position : Point R) : (simulation.dragTo id position).2.Anchored := by
  unfold Simulation.dragTo
  split
  · exact anchored
  · next found =>
    refine ⟨atPin_of_mem_modify anchored.atPins fun body _ pin pinned => Option.some.inj pinned,
      fun free => absurd free (not_free_modify found fun body none => ?_)⟩
    cases none

theorem Anchored.dragEnd {simulation : Simulation R} (anchored : simulation.Anchored)
    (id : NodeId) : (simulation.dragEnd id).2.Anchored := by
  unfold Simulation.dragEnd
  split
  · exact anchored
  · refine ⟨atPin_of_mem_modify anchored.atPins fun body _ pin pinned => ?_, fun free => ?_⟩
    · cases pinned
    · exact if_pos (List.all_eq_true.2 fun body member => by rw [free body member]; rfl)

theorem Anchored.apply {simulation : Simulation R} (anchored : simulation.Anchored)
    (operation : SimulationOperation R) : (simulation.apply operation).Anchored := by
  cases operation with
  | tick => exact anchored.tick
  | runUntilSettled limit => exact runFrom_induction (fun _ before => before.tick) anchored none limit
  | dragStart id => exact anchored.dragStart id
  | dragTo id position => exact anchored.dragTo id position
  | dragEnd id => exact anchored.dragEnd id
  | stop => exact ⟨anchored.atPins, anchored.cools⟩
  | rest => exact ⟨anchored.atPins, fun _ => rfl⟩
  | reheat alpha => exact ⟨anchored.atPins, anchored.cools⟩

theorem Anchored.run {simulation : Simulation R} (anchored : simulation.Anchored)
    (operations : List (SimulationOperation R)) : (simulation.run operations).Anchored := by
  induction operations generalizing simulation with
  | nil => exact anchored
  | cons operation rest ih => exact ih (anchored.apply operation)

theorem anchored_new (topology : Topology R) (revision : UInt64) (settings : ForceSettings R)
    (canvas : Canvas R) : (new topology revision settings canvas).Anchored := by
  refine ⟨fun body member pin pinned => ?_, fun _ => rfl⟩
  rw [pin_new topology revision settings canvas body member] at pinned
  cases pinned

/-! ## Held nodes -/

/-- Taking hold of a node pins it where it stands. -/
theorem holds_dragStart {simulation : Simulation R} (distinct : simulation.ids.Nodup) {id : NodeId}
    {position : Point R} (stands : ∀ body ∈ simulation.bodies, body.id = id →
      body.position = position) : (simulation.dragStart id).2.Holds id position := by
  unfold Simulation.dragStart
  split
  · next missing =>
    intro body member named
    have listed : id ∈ simulation.ids := named ▸ List.mem_map_of_mem member
    exact absurd listed (Layout.lastPlace?_eq_none missing)
  · next place found =>
    intro body member named
    obtain ⟨index, old, listed, rfl⟩ := exists_of_mem_modify member
    by_cases here : place = index
    · rw [if_pos here] at named ⊢
      exact congrArg some (stands old (List.mem_of_getElem? listed) named)
    · rw [if_neg here] at named
      exact absurd (eq_place_of_distinct distinct found listed named).symm here

/-- A held body of an anchored simulation stands where it is held. -/
theorem Holds.stands {simulation : Simulation R} {id : NodeId} {position : Point R}
    (holds : simulation.Holds id position) (anchored : simulation.Anchored) :
    ∀ body ∈ simulation.bodies, body.id = id → body.position = position :=
  fun body member named => anchored.atPins body member position (holds body member named)

/-- Whatever does not release a held node holds it, at the place that it is moved to if it
is moved. -/
theorem Holds.apply {simulation : Simulation R} (anchored : simulation.Anchored)
    (distinct : simulation.ids.Nodup) {id : NodeId} {position : Point R}
    (holds : simulation.Holds id position) {operation : SimulationOperation R}
    (kept : operation.releases id = false) :
    (simulation.apply operation).Holds id ((operation.target? id).getD position) := by
  cases operation with
  | tick => exact holds.tick
  | runUntilSettled limit => exact holds.runUntilSettled limit
  | dragStart other =>
    by_cases same : other = id
    · subst same
      exact holds_dragStart distinct (holds.stands anchored)
    · exact holds.dragStart same
  | dragTo other place =>
    by_cases same : other = id
    · subst same
      rw [SimulationOperation.target?, if_pos rfl]
      exact holds_dragTo distinct other place
    · rw [SimulationOperation.target?, if_neg same]
      exact holds.dragTo same place
  | dragEnd other => exact holds.dragEnd (of_decide_eq_false kept)
  | stop | rest | reheat => exact holds

theorem Holds.run {simulation : Simulation R} (anchored : simulation.Anchored)
    (distinct : simulation.ids.Nodup) {id : NodeId} {position : Point R}
    (holds : simulation.Holds id position) {operations : List (SimulationOperation R)}
    (kept : ∀ operation ∈ operations, operation.releases id = false) :
    (simulation.run operations).Holds id
      (SimulationOperation.lastTarget id position operations) := by
  induction operations generalizing simulation position with
  | nil => exact holds
  | cons operation rest ih =>
    have same := sameBodies_apply simulation operation
    rw [SimulationOperation.lastTarget_cons]
    exact ih (anchored.apply operation) (same.ids ▸ distinct)
      (holds.apply anchored distinct (kept operation List.mem_cons_self))
      fun other member => kept other (List.mem_cons_of_mem operation member)

/-! ## Reports -/

omit [Scalar R] in
theorem lookup_of_mem {placement : Placement R} (distinct : (placement.map (·.1)).Nodup)
    {entry : NodeId × Point R} (member : entry ∈ placement) :
    placement.lookup entry.1 = some entry.2 := by
  induction placement with
  | nil => cases member
  | cons first rest ih =>
    obtain ⟨fresh, distinctRest⟩ := List.nodup_cons.1 distinct
    rw [List.lookup_cons]
    rcases List.mem_cons.1 member with rfl | later
    · rw [beq_self_eq_true]
    · have apart : entry.1 ≠ first.1 := fun same =>
        fresh (List.mem_map.2 ⟨entry, later, same⟩)
      rw [beq_eq_false_iff_ne.2 apart]
      exact ih distinctRest later

omit [Scalar R] in
/-- Where ids differ, every body is reported where it stands. -/
theorem lookup_positions {simulation : Simulation R} (distinct : simulation.ids.Nodup)
    {body : Body R} (member : body ∈ simulation.bodies) :
    simulation.positions.lookup body.id = some body.position :=
  lookup_of_mem (simulation.map_fst_positions ▸ distinct)
    (List.mem_map_of_mem (f := fun body => (body.id, body.position)) member)

/-- A held node is reported where it is held. -/
theorem Holds.lookup {simulation : Simulation R} (anchored : simulation.Anchored)
    (distinct : simulation.ids.Nodup) {id : NodeId} (known : id ∈ simulation.ids)
    {position : Point R} (holds : simulation.Holds id position) :
    simulation.positions.lookup id = some position := by
  obtain ⟨body, member, rfl⟩ := List.mem_map.1 known
  rw [lookup_positions distinct member, holds.stands anchored body member rfl]

/-- A node that is released stays where it was held. -/
theorem positions_dragEnd (simulation : Simulation R) (id : NodeId) :
    (simulation.dragEnd id).2.positions = simulation.positions := by
  unfold dragEnd
  split
  · rfl
  · exact map_view_modify (by intro body; rfl) _ _

omit [Scalar R] in
theorem mem_ids_of_place? {simulation : Simulation R} {id : NodeId} {place : Nat}
    (found : simulation.place? id = some place) : id ∈ simulation.ids :=
  List.mem_of_getElem? (Layout.getElem?_of_lastPlace? found)

omit [Scalar R] in
theorem place?_isSome {simulation : Simulation R} {id : NodeId} (known : id ∈ simulation.ids) :
    (simulation.place? id).isSome = true :=
  Option.isSome_iff_ne_none.2 fun missing => Layout.lastPlace?_eq_none missing known

/-- A drag that does not fail knows its node. -/
theorem dragEnd_of_mem {simulation : Simulation R} {id : NodeId} (known : id ∈ simulation.ids) :
    (simulation.dragEnd id).1 = true := by
  obtain ⟨place, found⟩ := Option.isSome_iff_exists.1 (place?_isSome known)
  rw [dragEnd, found]

/-- True of the starts and moves of a drag of a node that succeed. -/
def takesHold (simulation : Simulation R) (id : NodeId) : SimulationOperation R → Bool
  | .dragStart other => other = id && (simulation.dragStart other).1
  | .dragTo other position => other = id && (simulation.dragTo other position).1
  | _ => false

theorem takesHold_dragStart {simulation : Simulation R} {id other : NodeId} :
    simulation.takesHold id (.dragStart other) = true ↔
      other = id ∧ (simulation.dragStart other).1 = true := by
  simp [takesHold]

theorem takesHold_dragTo {simulation : Simulation R} {id other : NodeId} {position : Point R} :
    simulation.takesHold id (.dragTo other position) = true ↔
      other = id ∧ (simulation.dragTo other position).1 = true := by
  simp [takesHold]

theorem mem_ids_of_takesHold {simulation : Simulation R} {id : NodeId}
    {grab : SimulationOperation R} (taken : simulation.takesHold id grab = true) :
    id ∈ simulation.ids := by
  cases grab with
  | dragStart other =>
    obtain ⟨rfl, started⟩ := takesHold_dragStart.1 taken
    unfold dragStart at started
    split at started
    · cases started
    · next found => exact mem_ids_of_place? found
  | dragTo other position =>
    obtain ⟨rfl, moved⟩ := takesHold_dragTo.1 taken
    unfold dragTo at moved
    split at moved
    · cases moved
    · next found => exact mem_ids_of_place? found
  | _ => cases taken

/-- A drag holds its node where it moves it to, or where it stands. -/
theorem holds_of_takesHold {simulation : Simulation R} (distinct : simulation.ids.Nodup)
    {id : NodeId} {grab : SimulationOperation R} (taken : simulation.takesHold id grab = true)
    {position : Point R} (stood : simulation.positions.lookup id = some position) :
    (simulation.apply grab).Holds id ((grab.target? id).getD position) := by
  cases grab with
  | dragStart other =>
    obtain ⟨rfl, _⟩ := takesHold_dragStart.1 taken
    refine holds_dragStart distinct fun body member named => ?_
    subst named
    exact Option.some.inj ((lookup_positions distinct member).symm.trans stood)
  | dragTo other place =>
    obtain ⟨rfl, _⟩ := takesHold_dragTo.1 taken
    rw [SimulationOperation.target?, if_pos rfl]
    exact holds_dragTo distinct other place
  | _ => cases taken

/-! ## Reached simulations -/

/-- In every run over nodes with different ids, a node that a drag has taken hold of is
reported at its pin until it is released, by the simulation and by every frame, whatever else
happens. The pin is the last place that the node was dragged to, or where it stood when the
drag began, and the node is released there. While no node is pinned the simulation cools to
nothing. -/
theorem dragged_node_reported_at_pin (topology : Topology R)
    (distinct : (topology.nodes.map (·.id)).Nodup) (revision : UInt64)
    (settings : ForceSettings R) (canvas : Canvas R) (before : List (SimulationOperation R)) :
    let reached := (new topology revision settings canvas).run before
    (reached.Free → reached.alphaTarget = 0.0) ∧
      ∀ (id : NodeId) (grab : SimulationOperation R) (during : List (SimulationOperation R)),
        reached.takesHold id grab = true →
        (∀ operation ∈ during, operation.releases id = false) →
        ∃ stood, reached.positions.lookup id = some stood ∧
          let held := reached.run (grab :: during)
          let pin := SimulationOperation.lastTarget id stood (grab :: during)
          held.positions.lookup id = some pin ∧
            (∀ frame, held.Emits frame → frame.positions.lookup id = some pin) ∧
            (held.dragEnd id).1 = true ∧ (held.dragEnd id).2.positions.lookup id = some pin := by
  intro reached
  have anchored : reached.Anchored := (anchored_new topology revision settings canvas).run before
  have same := sameBodies_run (new topology revision settings canvas) before
  have apart : reached.ids.Nodup := by
    rw [same.ids, ids_new]
    exact distinct
  refine ⟨anchored.cools, fun id grab during taken kept => ?_⟩
  have known : id ∈ reached.ids := mem_ids_of_takesHold taken
  obtain ⟨body, member, rfl⟩ := List.mem_map.1 known
  refine ⟨body.position, lookup_positions apart member, ?_⟩
  intro held pin
  have heldSame : SameBodies reached held := sameBodies_run reached (grab :: during)
  have heldApart : held.ids.Nodup := heldSame.ids ▸ apart
  have heldKnown : body.id ∈ held.ids := heldSame.ids ▸ known
  have heldAnchored : held.Anchored := anchored.run (grab :: during)
  have holds : held.Holds body.id pin := by
    have grabbed := holds_of_takesHold apart taken (lookup_positions apart member)
    have grabbedApart := (sameBodies_apply reached grab).ids ▸ apart
    have run := grabbed.run (anchored.apply grab) grabbedApart kept
    rwa [← SimulationOperation.lastTarget_cons] at run
  refine ⟨holds.lookup heldAnchored heldApart heldKnown, fun frame emitted => ?_,
    dragEnd_of_mem heldKnown, ?_⟩
  · obtain ⟨limit, rfl⟩ := exists_eq_frame_of_emits emitted
    have settled : SameBodies held (held.runUntilSettled limit).2 :=
      sameBodies_apply held (.runUntilSettled limit)
    exact (holds.runUntilSettled limit).lookup (heldAnchored.apply (.runUntilSettled limit))
      (settled.ids ▸ heldApart) (settled.ids ▸ heldKnown)
  · rw [positions_dragEnd]
    exact holds.lookup heldAnchored heldApart heldKnown

/-- Three nodes apart from each other, with two links. -/
def chained (R : Type) [Scalar R] : Topology R where
  id := 0
  name := "chained"
  origin := .custom
  nodes := [.plain ⟨"a"⟩ "a", { Node.plain ⟨"b"⟩ "b" with position := ⟨100.0, 40.0⟩ },
    { Node.plain ⟨"c"⟩ "c" with position := ⟨60.0, 200.0⟩ }]
  edges := [⟨⟨"a"⟩, ⟨"b"⟩⟩, ⟨⟨"b"⟩, ⟨"c"⟩⟩]

theorem dragged_node_reported_at_pin_released :
    let reached := (new (chained Float) 0 .standard .standard).run [.tick, .dragStart ⟨"c"⟩, .tick]
    let during : List (SimulationOperation Float) := [.tick, .dragEnd ⟨"c"⟩,
      .dragTo ⟨"b"⟩ ⟨7.0, 8.0⟩, .reheat 0.5, .dragTo ⟨"a"⟩ ⟨1.0, 1.0⟩, .dragStart ⟨"b"⟩, .rest,
      .reheat 1.0, .runUntilSettled 2]
    let held := reached.run (.dragStart ⟨"b"⟩ :: during)
    ((chained Float).nodes.map (·.id)).Nodup ∧ reached.takesHold ⟨"b"⟩ (.dragStart ⟨"b"⟩) = true ∧
      held.positions.lookup ⟨"b"⟩ = some ⟨7.0, 8.0⟩ ∧
      (held.dragEnd ⟨"b"⟩).2.positions.lookup ⟨"b"⟩ = some ⟨7.0, 8.0⟩ := by
  intro reached during held
  have distinct : ((chained Float).nodes.map (·.id)).Nodup := by decide
  have taken : reached.takesHold ⟨"b"⟩ (.dragStart ⟨"b"⟩) = true := by decide +kernel
  obtain ⟨_, reported⟩ := dragged_node_reported_at_pin (chained Float) distinct 0 .standard
    .standard [.tick, .dragStart ⟨"c"⟩, .tick]
  obtain ⟨stood, _, there, _, _, released⟩ :=
    reported ⟨"b"⟩ (.dragStart ⟨"b"⟩) during taken (by decide)
  exact ⟨distinct, taken, there, released⟩

end Simulation

end PeerNet
