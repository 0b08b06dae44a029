import PeerNet.Layout.Simulation
import PeerNet.Proofs.Tally

/-!
# Bodies of a simulation

A simulation has one body for each node of the topology that it was built from,
in node order, and belongs to one revision. Ticks and drags move its bodies, but
neither add nor drop nor reorder them, so that every frame is about these nodes
and this revision.
-/

set_option autoImplicit false

namespace PeerNet.Simulation

variable {R : Type}

def ids (simulation : Simulation R) : List NodeId :=
  simulation.bodies.map (·.id)

theorem map_fst_positions (simulation : Simulation R) :
    simulation.positions.map (·.1) = simulation.ids :=
  List.map_map

/-- Two simulations of the same nodes for one revision. -/
structure SameBodies (before after : Simulation R) : Prop where
  ids : after.ids = before.ids
  revision : after.revision = before.revision

theorem SameBodies.refl (simulation : Simulation R) : SameBodies simulation simulation :=
  ⟨rfl, rfl⟩

theorem SameBodies.trans {before middle after : Simulation R} (first : SameBodies before middle)
    (last : SameBodies middle after) : SameBodies before after :=
  ⟨last.ids.trans first.ids, last.revision.trans first.revision⟩

/-- Changes that keep a view of each body keep the views of all bodies. -/
theorem map_view_modify {α : Type} {view : Body R → α} {change : Body R → Body R}
    (keeps : ∀ body, view (change body) = view body) (place : Nat) (bodies : List (Body R)) :
    (bodies.modify place change).map view = bodies.map view := by
  induction bodies generalizing place with
  | nil => rw [List.modify_nil]
  | cons body rest ih =>
    cases place with
    | zero => rw [List.modify_zero_cons, List.map_cons, List.map_cons, keeps]
    | succ place => rw [List.modify_succ_cons, List.map_cons, List.map_cons, ih]

theorem map_view_map {α : Type} {view : Body R → α} {change : Body R → Body R}
    (keeps : ∀ body, view (change body) = view body) (bodies : List (Body R)) :
    (bodies.map change).map view = bodies.map view := by
  rw [List.map_map]
  exact List.map_congr_left fun body _ => keeps body

/-- All of a body but its velocity. -/
def stance (body : Body R) : NodeId × Point R × Option (Point R) :=
  (body.id, body.position, body.pin)

theorem map_id_of_map_stance {before after : List (Body R)}
    (same : after.map stance = before.map stance) :
    after.map (·.id) = before.map (·.id) := by
  have ids := congrArg (List.map Prod.fst) same
  rwa [List.map_map, List.map_map] at ids

variable [Scalar R]

/-! ## Forces -/

theorem map_stance_pullSpring (alpha distance : R) (state : List (Body R) × Random.Stream)
    (spring : Spring R) :
    (pullSpring alpha distance state spring).1.map stance = state.1.map stance := by
  unfold pullSpring
  dsimp only
  split
  · refine (map_view_modify ?_ _ _).trans (map_view_modify ?_ _ _)
    · intro body
      rfl
    · intro body
      rfl
  · rfl

theorem map_stance_chargeAll (strength : R) (points : List (Nat × Point R)) (place : Nat)
    (bodies : List (Body R)) (noise : Random.Stream) :
    (chargeAll strength points place bodies noise).1.map stance = bodies.map stance := by
  induction bodies generalizing place noise with
  | nil => rfl
  | cons body rest ih =>
    rw [chargeAll, List.map_cons, List.map_cons, ih]
    rfl

theorem stance_pullCenter (center : Point R) (strength : R) (body : Body R) :
    stance (pullCenter center strength body) = stance body :=
  rfl

/-- An advance accelerates the bodies where they are, and then lets each one go
where its pin or its velocity takes it. -/
theorem exists_advance_eq (simulation : Simulation R) (alpha : R) :
    ∃ bodies : List (Body R), bodies.map stance = simulation.bodies.map stance ∧
      (simulation.advance alpha).1 =
        bodies.map (integrate (1.0 - simulation.settings.velocityDecay)) := by
  refine ⟨_, ?_, rfl⟩
  rw [map_view_map (stance_pullCenter _ _), map_stance_chargeAll]
  -- The springs pull one after the other, each on the bodies that the ones before it left.
  let view (state : List (Body R) × Random.Stream) := state.1.map stance
  exact view_foldl view (map_stance_pullSpring _ _) _ _

theorem id_integrate (retain : R) (body : Body R) : (integrate retain body).id = body.id := by
  unfold integrate
  split
  · rfl
  · rfl

theorem map_id_advance (simulation : Simulation R) (alpha : R) :
    (simulation.advance alpha).1.map (·.id) = simulation.ids := by
  obtain ⟨bodies, same, advanced⟩ := exists_advance_eq simulation alpha
  rw [advanced, map_view_map (id_integrate _)]
  exact map_id_of_map_stance same

/-! ## Operations -/

theorem tick_of_stopped {simulation : Simulation R} (stopped : simulation.running = false) :
    simulation.tick = (none, simulation) := by
  rw [tick, stopped]
  rfl

theorem tick_of_running {simulation : Simulation R} (running : simulation.running = true) :
    simulation.tick.1 = some simulation.tick.2.frame := by
  rw [tick, running]
  rfl

theorem tick_eq_of_running {simulation : Simulation R} (running : simulation.running = true) :
    simulation.tick = (some simulation.tick.2.frame, simulation.tick.2) :=
  Prod.ext (tick_of_running running) rfl

/-- What every tick keeps, a run of ticks keeps. -/
theorem runFrom_induction {motive : Simulation R → Prop}
    (ticked : ∀ simulation : Simulation R, motive simulation → motive simulation.tick.2)
    {simulation : Simulation R} (start : motive simulation) (last : Option (Frame R))
    (limit : Nat) : motive (runFrom last simulation limit).2 := by
  induction limit generalizing last simulation with
  | zero => exact start
  | succ limit ih =>
    have next := ticked simulation start
    rw [runFrom]
    split
    · next tick =>
      rwa [tick] at next
    · next tick =>
      rw [tick] at next
      exact ih next _

theorem sameBodies_tick (simulation : Simulation R) : SameBodies simulation simulation.tick.2 := by
  unfold tick
  split
  · exact .refl simulation
  · exact ⟨map_id_advance simulation simulation.cooled, rfl⟩

theorem sameBodies_runFrom (last : Option (Frame R)) (simulation : Simulation R) (limit : Nat) :
    SameBodies simulation (runFrom last simulation limit).2 :=
  runFrom_induction (fun before same => same.trans (sameBodies_tick before)) (.refl simulation)
    last limit

theorem sameBodies_dragStart (simulation : Simulation R) (id : NodeId) :
    SameBodies simulation (simulation.dragStart id).2 := by
  unfold dragStart
  split
  · exact .refl simulation
  · exact ⟨map_view_modify (by intro body; rfl) _ _, rfl⟩

theorem sameBodies_dragTo (simulation : Simulation R) (id : NodeId) (position : Point R) :
    SameBodies simulation (simulation.dragTo id position).2 := by
  unfold dragTo
  split
  · exact .refl simulation
  · exact ⟨map_view_modify (by intro body; rfl) _ _, rfl⟩

theorem sameBodies_dragEnd (simulation : Simulation R) (id : NodeId) :
    SameBodies simulation (simulation.dragEnd id).2 := by
  unfold dragEnd
  split
  · exact .refl simulation
  · exact ⟨map_view_modify (by intro body; rfl) _ _, rfl⟩

theorem sameBodies_apply (simulation : Simulation R) (operation : SimulationOperation R) :
    SameBodies simulation (simulation.apply operation) := by
  cases operation with
  | tick => exact sameBodies_tick simulation
  | runUntilSettled limit => exact sameBodies_runFrom none simulation limit
  | dragStart id => exact sameBodies_dragStart simulation id
  | dragTo id position => exact sameBodies_dragTo simulation id position
  | dragEnd id => exact sameBodies_dragEnd simulation id
  | stop | rest | reheat => exact ⟨rfl, rfl⟩

theorem sameBodies_run (simulation : Simulation R) (operations : List (SimulationOperation R)) :
    SameBodies simulation (simulation.run operations) := by
  induction operations generalizing simulation with
  | nil => exact .refl simulation
  | cons operation rest ih => exact (sameBodies_apply simulation operation).trans (ih _)

/-- A drag of a node that has no body does nothing. -/
theorem dragStart_of_not_mem {simulation : Simulation R} {id : NodeId}
    (unknown : id ∉ simulation.ids) : simulation.dragStart id = (false, simulation) := by
  unfold dragStart
  split
  · rfl
  · next place found =>
    exact absurd (List.mem_of_getElem? (Layout.getElem?_of_lastPlace? found)) unknown

/-- Only the start of a drag sets a simulation going. -/
theorem running_dragTo (simulation : Simulation R) (id : NodeId) (position : Point R) :
    (simulation.dragTo id position).2.running = simulation.running := by
  unfold dragTo
  split
  · rfl
  · rfl

theorem running_dragEnd (simulation : Simulation R) (id : NodeId) :
    (simulation.dragEnd id).2.running = simulation.running := by
  unfold dragEnd
  split
  · rfl
  · rfl

/-! ## Start -/

theorem map_id_addBodies (earlier : List (Body R)) (nodes : List (Node R)) :
    (addBodies earlier nodes).map (·.id) = earlier.map (·.id) ++ nodes.map (·.id) := by
  induction nodes generalizing earlier with
  | nil => rw [addBodies, List.map_nil, List.append_nil]
  | cons node rest ih =>
    rw [addBodies, ih, List.map_append, List.append_assoc]
    rfl

theorem ids_new (topology : Topology R) (revision : UInt64) (settings : ForceSettings R)
    (canvas : Canvas R) :
    (new topology revision settings canvas).ids = topology.nodes.map (·.id) :=
  map_id_addBodies [] topology.nodes

/-! ## Frames -/

/-- A frame that is about the nodes and the revision of a simulation. -/
structure FrameOf (simulation : Simulation R) (frame : Frame R) : Prop where
  ids : frame.positions.map (·.1) = simulation.ids
  revision : frame.revision = simulation.revision

omit [Scalar R] in
theorem frameOf_frame (simulation : Simulation R) : FrameOf simulation simulation.frame :=
  ⟨simulation.map_fst_positions, rfl⟩

omit [Scalar R] in
theorem SameBodies.frameOf {before after : Simulation R} (same : SameBodies before after)
    {frame : Frame R} (emitted : FrameOf after frame) : FrameOf before frame :=
  ⟨emitted.ids.trans same.ids, emitted.revision.trans same.revision⟩

/-- True of the frames that a simulation gives next, by one tick or by many. -/
def Emits (simulation : Simulation R) (frame : Frame R) : Prop :=
  simulation.tick.1 = some frame ∨ ∃ limit, (simulation.runUntilSettled limit).1 = some frame

theorem eq_frame_of_tick {simulation : Simulation R} {frame : Frame R}
    (emitted : simulation.tick.1 = some frame) : frame = simulation.tick.2.frame := by
  cases running : simulation.running with
  | false =>
    rw [tick_of_stopped running] at emitted
    cases emitted
  | true =>
    rw [tick_of_running running] at emitted
    exact (Option.some.inj emitted).symm

theorem eq_frame_of_runFrom {last : Option (Frame R)} {simulation : Simulation R} {limit : Nat}
    (before : ∀ frame, last = some frame → frame = simulation.frame) {frame : Frame R}
    (emitted : (runFrom last simulation limit).1 = some frame) :
    frame = (runFrom last simulation limit).2.frame := by
  induction limit generalizing last simulation with
  | zero => exact before frame emitted
  | succ limit ih =>
    cases running : simulation.running with
    | false =>
      rw [runFrom, tick_of_stopped running] at emitted ⊢
      exact before frame emitted
    | true =>
      rw [runFrom, tick_eq_of_running running] at emitted ⊢
      exact ih (fun shown known => (Option.some.inj known).symm) emitted

/-- A frame shows the simulation as the ticks before it leave it. -/
theorem exists_eq_frame_of_emits {simulation : Simulation R} {frame : Frame R}
    (emitted : simulation.Emits frame) :
    ∃ limit, frame = (simulation.runUntilSettled limit).2.frame := by
  rcases emitted with ticked | ⟨limit, settled⟩
  · refine ⟨1, (eq_frame_of_tick ticked).trans ?_⟩
    rw [runUntilSettled, runFrom]
    split
    · next tick => rw [tick]
    · next tick => rw [tick]; rfl
  · exact ⟨limit, eq_frame_of_runFrom (fun frame none => by cases none) settled⟩

theorem frameOf_tick {simulation : Simulation R} {frame : Frame R}
    (emitted : simulation.tick.1 = some frame) : FrameOf simulation frame := by
  rw [eq_frame_of_tick emitted]
  exact (sameBodies_tick simulation).frameOf (frameOf_frame _)

theorem frameOf_emitted {simulation : Simulation R} {frame : Frame R}
    (emitted : simulation.Emits frame) : FrameOf simulation frame := by
  obtain ⟨limit, rfl⟩ := exists_eq_frame_of_emits emitted
  exact (sameBodies_runFrom none simulation limit).frameOf (frameOf_frame _)

end PeerNet.Simulation
