import PeerNet.Proofs.Session.Store
import PeerNet.Proofs.Store.Overlay

/-!
# Layouts beside a simulation

Positions are kept twice, by the store and by the simulation. A layout reaches the
store alone, so the simulation goes on from where the nodes were: its next frame
undoes the layout, whatever is dragged in between. Only an accepted structural edit,
which builds the simulation anew, makes it continue from the layout.
-/

set_option autoImplicit false

namespace PeerNet

variable {R : Type}

/-- True of ticks and drags. -/
def SessionOperation.isMotion : SessionOperation R → Bool
  | .tick | .dragStart _ | .dragTo _ _ | .dragEnd _ => true
  | _ => false

namespace Session

variable [Scalar R]

/-! ## Layouts -/

/-- A layout is refused to prebuilt topologies alone, and changes nothing but the
store. -/
theorem exists_applyLayout_eq {session : Session R}
    (custom : session.store.topology.origin = .custom) (strategy : Strategy) :
    ∃ positions, Layout.layout session.store.topology strategy session.settings.layout
        session.settings.canvas = .ok positions ∧
      positions.map (·.1) = session.store.ids ∧
      session.applyLayout strategy =
        (true, { session with store := (session.store.place positions).2 }) := by
  obtain ⟨positions, computed, covers⟩ := Layout.exists_layout_eq custom strategy
    session.settings.layout session.settings.canvas
  refine ⟨positions, computed, covers, ?_⟩
  rw [applyLayout, computed]

/-! ## Sessions that differ in places -/

/-- Two sessions that differ at most in where the nodes of the store stand. -/
def SameButPlaces (first last : Session R) : Prop :=
  ∃ store : Store R, store.unplaced = first.store.unplaced ∧ last = { first with store }

theorem sameButPlaces_applyLayout (session : Session R) (strategy : Strategy) :
    SameButPlaces session (session.applyLayout strategy).2 := by
  rcases session.applyLayout_cases strategy with refused | ⟨positions, _, placed⟩
  · rw [refused]
    exact ⟨session.store, rfl, rfl⟩
  · rw [placed]
    exact ⟨_, session.store.unplaced_place positions, rfl⟩

/-- A frame makes two such sessions one. -/
theorem SameButPlaces.tick_eq {first last : Session R} (same : SameButPlaces first last)
    (sound : first.Sound) (firstSound : first.store.Sound) (lastSound : last.store.Sound)
    (simulating : first.isSimulating = true) : last.tick = first.tick := by
  obtain ⟨store, unplaced, rfl⟩ := same
  obtain ⟨simulation, held, running⟩ := exists_of_isSimulating simulating
  have attached := (sound.attached simulation held).2
  have emitted : simulation.FrameOf simulation.tick.2.frame :=
    Simulation.frameOf_tick (Simulation.tick_of_running running)
  have current : simulation.tick.2.frame.revision = first.store.revision :=
    emitted.revision.trans attached.revision
  have covers : simulation.tick.2.frame.positions.map (·.1) = first.store.ids :=
    emitted.ids.trans attached.ids
  have merged : store.applyFrame simulation.tick.2.frame =
      first.store.applyFrame simulation.tick.2.frame :=
    Store.applyFrame_eq_of_unplaced firstSound lastSound unplaced current covers
  have ticked : Session.tick { first with store } = _ := tick_of_running held running
  rw [ticked, tick_of_running held running, merged]

theorem SameButPlaces.tick {first last : Session R} (same : SameButPlaces first last)
    (sound : first.Sound) (firstSound : first.store.Sound) (lastSound : last.store.Sound) :
    SameButPlaces first.tick.2 last.tick.2 := by
  cases simulating : first.isSimulating with
  | true =>
    rw [same.tick_eq sound firstSound lastSound simulating]
    exact ⟨_, rfl, rfl⟩
  | false =>
    have still : last.isSimulating = false := by
      obtain ⟨store, _, rfl⟩ := same
      exact simulating
    rw [tick_of_not_isSimulating simulating, tick_of_not_isSimulating still]
    exact same

variable [NumberText R]

theorem SameButPlaces.apply {first last : Session R} (same : SameButPlaces first last)
    (sound : first.Sound) (firstSound : first.store.Sound) (lastSound : last.store.Sound)
    {operation : SessionOperation R} (moves : operation.isMotion = true) :
    SameButPlaces (first.apply operation) (last.apply operation) := by
  cases operation with
  | tick => exact same.tick sound firstSound lastSound
  | dragStart id | dragEnd id =>
    obtain ⟨store, unplaced, rfl⟩ := same
    exact ⟨store, unplaced, rfl⟩
  | dragTo id position =>
    obtain ⟨store, unplaced, rfl⟩ := same
    refine ⟨(store.move id position).2, ?_, rfl⟩
    exact (store.unplaced_move id position).trans
      (unplaced.trans (first.store.unplaced_move id position).symm)
  | _ => cases moves

theorem SameButPlaces.run {first last : Session R} (same : SameButPlaces first last)
    (sound : first.Sound) (firstSound : first.store.Sound) (lastSound : last.store.Sound)
    {operations : List (SessionOperation R)}
    (moves : ∀ operation ∈ operations, operation.isMotion = true) :
    SameButPlaces (first.run operations) (last.run operations) := by
  induction operations generalizing first last with
  | nil => exact same
  | cons operation rest ih =>
    refine ih ?_ (sound.apply operation) (storeSound_apply firstSound operation)
      (storeSound_apply lastSound operation) fun other member => moves other (.tail _ member)
    exact same.apply sound firstSound lastSound (moves operation List.mem_cons_self)

/-! ## Rebuilt simulations -/

/-- An accepted structural edit makes the simulation start from where the store has the
nodes, if they stand apart. -/
theorem exists_of_restructures_of_spread {session : Session R} (sound : session.Sound)
    {replaced : Simulation R} (held : session.simulation = some replaced)
    {operation : SessionOperation R} (restructures : session.restructures operation = true)
    (spread : (session.apply operation).store.topology.Spread) :
    ∃ simulation, (session.apply operation).simulation = some simulation ∧
      simulation.running = true ∧
      simulation.positions = (session.apply operation).store.topology.positions := by
  obtain ⟨store, restructured, edited⟩ := exists_of_restructures restructures
  rw [edited, sound.update_eq restructured, held] at spread ⊢
  exact ⟨_, rfl, rfl, Simulation.positions_new spread _ _ _⟩

/-! ## Reached sessions -/

/-- In every run, a layout beside a simulation is accepted and places the nodes of the
store, while the simulation stays as it is. After any ticks and drags the next frame
has then the same outcome with the layout as without it. The simulation continues from the
layout only when a structural edit is accepted before, and the nodes stand apart. -/
theorem layout_beside_simulation (settings : Settings R) (files : FileTree) (root : FilePath)
    (operations : List (SessionOperation R)) (strategy : Strategy) (simulation : Simulation R) :
    let session := (new settings files root).run operations
    let laid := (session.applyLayout strategy).2
    session.simulation = some simulation →
      (∃ positions, Layout.layout session.store.topology strategy session.settings.layout
          session.settings.canvas = .ok positions ∧ laid.store.topology.positions = positions) ∧
        (session.applyLayout strategy).1 = true ∧ laid.simulation = some simulation ∧
        (∀ motions, (∀ motion ∈ motions, motion.isMotion = true) →
          (session.run motions).isSimulating = true →
            (laid.run motions).tick = (session.run motions).tick) ∧
        ∀ edit, laid.restructures edit = true → (laid.apply edit).store.topology.Spread →
          ∃ rebuilt, (laid.apply edit).simulation = some rebuilt ∧ rebuilt.running = true ∧
            rebuilt.positions = (laid.apply edit).store.topology.positions := by
  intro session laid held
  have sound : session.Sound := (sound_new settings files root).run operations
  have storeSound : session.store.Sound := storeSound_reached settings files root operations
  have laidSound : laid.Sound := sound.applyLayout strategy
  have laidStoreSound : laid.store.Sound := storeSound_apply storeSound (.applyLayout strategy)
  obtain ⟨positions, computed, covers, applied⟩ :=
    exists_applyLayout_eq (sound.attached simulation held).2.custom strategy
  have placed : laid = { session with store := (session.store.place positions).2 } :=
    congrArg Prod.snd applied
  have kept : laid.simulation = some simulation := by rw [placed]; exact held
  refine ⟨⟨positions, computed, ?_⟩, congrArg Prod.fst applied, kept, ?_, ?_⟩
  · rw [placed]
    exact Store.positions_place storeSound.valid.uniqueIds covers
  · intro motions moves simulating
    have same : SameButPlaces (session.run motions) (laid.run motions) :=
      (session.sameButPlaces_applyLayout strategy).run sound storeSound laidStoreSound moves
    exact same.tick_eq (sound.run motions) (storeSound_run storeSound motions)
      (storeSound_run laidStoreSound motions) simulating
  · intro edit restructures spread
    exact exists_of_restructures_of_spread laidSound kept restructures spread

theorem layout_beside_simulation_pair :
    let session := (new (.standard : Settings Float) {} []).run [.openCustom pair]
    let laid := (session.applyLayout .ranked).2
    let linked := laid.apply (.connect ⟨"a"⟩ ⟨"b"⟩)
    (session.applyLayout .ranked).1 = true ∧
      (laid.run [.dragStart ⟨"a"⟩]).tick = (session.run [.dragStart ⟨"a"⟩]).tick ∧
      ∃ rebuilt, linked.simulation = some rebuilt ∧
        rebuilt.positions = linked.store.topology.positions := by
  intro session laid linked
  have present : session.simulation.isSome = true := by decide +kernel
  obtain ⟨simulation, held⟩ := Option.isSome_iff_exists.1 present
  obtain ⟨-, accepted, -, undone, continued⟩ := layout_beside_simulation
    (.standard : Settings Float) {} [] [.openCustom pair] .ranked simulation held
  obtain ⟨rebuilt, started, -, placed⟩ :=
    continued (.connect ⟨"a"⟩ ⟨"b"⟩) (by decide +kernel) (by decide +kernel)
  refine ⟨accepted, undone [.dragStart ⟨"a"⟩] (by decide +kernel) (by decide +kernel),
    rebuilt, started, ?_⟩
  rw [placed]

/-- A layout is accepted and sets two nodes apart, but the simulation has them elsewhere
and its next frame takes them back. -/
theorem layout_not_continued :
    let session := (new (.standard : Settings Float) {} []).run [.openCustom pair]
    let laid := (session.applyLayout .ranked).2
    (session.applyLayout .ranked).1 = true ∧ laid.store.topology.Spread ∧
      laid.simulation.isSome = true ∧
      laid.simulation.map (·.positions) ≠ some laid.store.topology.positions ∧
      laid.tick.2.store.topology.positions = session.tick.2.store.topology.positions := by
  decide +kernel

end Session

end PeerNet
