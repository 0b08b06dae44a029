import PeerNet.Proofs.Session.Effects
import PeerNet.Proofs.Store.Revision

/-!
# What every session keeps

The preview belongs to the step that shows it. A simulation belongs to the editor
and to the topology that the store holds now: it is of the store's revision, and
its bodies are the store's nodes. A structural edit replaces the simulation; ticks,
drags, layouts and edits of fields move nodes and bodies alone.
-/

set_option autoImplicit false

namespace PeerNet.Session

variable {R : Type}

/-- A simulation of the topology that a store holds now. -/
structure Attached (store : Store R) (simulation : Simulation R) : Prop where
  custom : store.topology.origin = .custom
  revision : simulation.revision = store.revision
  ids : simulation.ids = store.ids

/-- The invariant of a session. -/
structure Sound (session : Session R) : Prop where
  previewed : session.preview.isSome = true ↔ session.step = .presetInfo
  attached : ∀ simulation ∈ session.simulation,
    session.step = .editGraph ∧ Attached session.store simulation

theorem custom_of_not_isPrebuilt {origin : Origin} (custom : ¬origin.isPrebuilt = true) :
    origin = .custom := by
  cases origin with
  | custom => rfl
  | prebuilt asset => exact absurd rfl custom

theorem Attached.moved {before after : Store R} {simulation moved : Simulation R}
    (attached : Attached before simulation) (same : Store.SameShape before after)
    (origin : after.topology.origin = before.topology.origin)
    (bodies : Simulation.SameBodies simulation moved) : Attached after moved where
  custom := origin.trans attached.custom
  revision := (bodies.revision.trans attached.revision).trans same.revision.symm
  ids := (bodies.ids.trans attached.ids).trans same.ids.symm

/-! ## Sessions without a simulation -/

theorem sound_of_idle {session : Session R}
    (previewed : session.preview.isSome = true ↔ session.step = .presetInfo)
    (idle : session.simulation = none) : session.Sound := by
  refine ⟨previewed, fun simulation member => ?_⟩
  rw [idle] at member
  cases member

theorem sound_new (settings : Settings R) (files : FileTree) (root : FilePath) :
    (new settings files root).Sound :=
  sound_of_idle (by simp [new]) rfl

theorem Sound.preview_eq_none {session : Session R} (sound : session.Sound)
    (away : session.step ≠ .presetInfo) : session.preview = none := by
  cases shown : session.preview with
  | none => rfl
  | some topology => exact absurd (sound.previewed.1 (by rw [shown]; rfl)) away

theorem Sound.simulation_eq_none {session : Session R} (sound : session.Sound)
    (away : session.step ≠ .editGraph) : session.simulation = none := by
  cases held : session.simulation with
  | none => rfl
  | some simulation => exact absurd (sound.attached simulation held).1 away

theorem Sound.teardown {session : Session R} (sound : session.Sound) : session.teardown.Sound :=
  sound_of_idle sound.previewed rfl

/-! ## Steps -/

theorem Sound.browse {session : Session R} (sound : session.Sound) : session.browse.2.Sound := by
  unfold Session.browse
  split
  · next start =>
    refine sound_of_idle ?_ (sound.simulation_eq_none (by simp [start]))
    simp [sound.preview_eq_none (by simp [start])]
  · exact sound

theorem Sound.requestPreset {session : Session R} (sound : session.Sound) (name : String) :
    (session.requestPreset name).2.Sound := by
  unfold Session.requestPreset
  split
  · exact ⟨sound.previewed, sound.attached⟩
  · exact sound

theorem Sound.completePreset {session : Session R} (sound : session.Sound)
    (ticket : GraphML.Ticket) (read : Partial R) :
    (session.completePreset ticket read).2.Sound := by
  rcases session.completePreset_cases ticket read with refused | ⟨topology, selecting, _, taken⟩
  · rw [refused]
    exact sound
  · rw [taken]
    exact sound_of_idle (by simp) (sound.simulation_eq_none (by simp [selecting]))

theorem Sound.back {session : Session R} (sound : session.Sound) : session.back.Sound := by
  unfold Session.back
  split
  · exact sound
  · next selecting =>
    refine sound_of_idle ?_ (sound.simulation_eq_none (by simp [selecting]))
    simp [sound.preview_eq_none (by simp [selecting])]
  · next inspecting =>
    exact sound_of_idle (by simp) (sound.simulation_eq_none (by simp [inspecting]))
  · next editing =>
    refine sound_of_idle ?_ rfl
    simp [Session.teardown, sound.preview_eq_none (by simp [editing])]

/-! ## Moves -/

/-- Whatever moves nodes and bodies alone leaves the simulation attached. -/
theorem Sound.moved {session : Session R} (sound : session.Sound) {store : Store R}
    {simulation : Option (Simulation R)} (same : Store.SameShape session.store store)
    (origin : store.topology.origin = session.store.topology.origin)
    (bodies : ∀ after ∈ simulation,
      ∃ before ∈ session.simulation, Simulation.SameBodies before after) :
    Sound { session with store, simulation } := by
  refine ⟨sound.previewed, fun after member => ?_⟩
  obtain ⟨before, held, kept⟩ := bodies after member
  obtain ⟨editing, attached⟩ := sound.attached before held
  exact ⟨editing, attached.moved same origin kept⟩

theorem Sound.mapSimulation {session : Session R} (sound : session.Sound) {store : Store R}
    {change : Simulation R → Simulation R} (same : Store.SameShape session.store store)
    (origin : store.topology.origin = session.store.topology.origin)
    (keeps : ∀ simulation, Simulation.SameBodies simulation (change simulation)) :
    Sound { session with store, simulation := session.simulation.map change } := by
  refine sound.moved same origin fun after member => ?_
  obtain ⟨before, held, rfl⟩ := Option.map_eq_some_iff.1 member
  exact ⟨before, held, keeps before⟩

theorem Sound.replaceStore {session : Session R} (sound : session.Sound) {store : Store R}
    (same : Store.SameShape session.store store)
    (origin : store.topology.origin = session.store.topology.origin) :
    Sound { session with store } :=
  sound.moved same origin fun held member => ⟨held, member, .refl held⟩

theorem Sound.edit {session : Session R} (sound : session.Sound) (id : NodeId) (patch : Patch) :
    (session.edit id patch).Sound :=
  sound.replaceStore (session.store.sameShape_edit id patch) (session.store.origin_edit id patch)

variable [Scalar R]

theorem Sound.applyLayout {session : Session R} (sound : session.Sound) (strategy : Strategy) :
    (session.applyLayout strategy).2.Sound := by
  rcases session.applyLayout_cases strategy with refused | ⟨positions, _, placed⟩
  · rw [refused]
    exact sound
  · rw [placed]
    exact sound.replaceStore (Store.sameShape_place _ positions) (Store.origin_place _ positions)

theorem Sound.dragStart {session : Session R} (sound : session.Sound) (id : NodeId) :
    (session.dragStart id).2.Sound :=
  sound.mapSimulation (.refl session.store) rfl fun held => held.sameBodies_dragStart id

theorem Sound.dragTo {session : Session R} (sound : session.Sound) (id : NodeId)
    (position : Point R) : (session.dragTo id position).2.Sound :=
  sound.mapSimulation (Store.sameShape_move session.store id position)
    (Store.origin_move session.store id position) fun held => held.sameBodies_dragTo id position

theorem Sound.dragEnd {session : Session R} (sound : session.Sound) (id : NodeId) :
    (session.dragEnd id).2.Sound :=
  sound.mapSimulation (.refl session.store) rfl fun held => held.sameBodies_dragEnd id

theorem Sound.tick {session : Session R} (sound : session.Sound) : session.tick.2.Sound := by
  rcases session.tick_cases with idle | ⟨simulation, held, _, ticked⟩
  · rw [idle]
    exact sound
  · rw [ticked]
    refine sound.moved (Store.sameShape_placeAt session.store _ _)
      (Store.origin_placeAt session.store _ _) ?_
    rintro after ⟨⟩
    exact ⟨simulation, held, simulation.sameBodies_tick⟩

/-! ## Starts of a simulation -/

theorem Sound.startSimulation {session : Session R} (sound : session.Sound)
    (editing : session.step = .editGraph) : session.startSimulation.Sound := by
  unfold Session.startSimulation
  split
  · exact sound
  · next custom =>
    refine ⟨sound.previewed, ?_⟩
    rintro simulation ⟨⟩
    exact ⟨editing, custom_of_not_isPrebuilt custom, rfl, Simulation.ids_new ..⟩

theorem step_applyLayout (session : Session R) (strategy : Strategy) :
    (session.applyLayout strategy).2.step = session.step := by
  rcases session.applyLayout_cases strategy with refused | ⟨_, _, placed⟩
  · rw [refused]
  · rw [placed]

theorem sound_openTopology (session : Session R) (editing : session.step = .editGraph)
    (unshown : session.preview = none) (topology : Topology R) (laidOut : Bool) :
    (session.openTopology topology laidOut).Sound := by
  have seeded : Sound { session.teardown with store := session.store.seed topology } :=
    sound_of_idle (by simp [Session.teardown, editing, unshown]) rfl
  rcases session.openTopology_cases topology laidOut with kept | started | arranged
  · rw [kept]
    exact seeded
  · rw [started]
    exact seeded.startSimulation editing
  · rw [arranged]
    have laid := seeded.applyLayout .ranked
    have started := laid.startSimulation ((step_applyLayout _ _).trans editing)
    exact started.mapSimulation (.refl _) rfl fun held => ⟨rfl, rfl⟩

theorem Sound.openFromStart {session : Session R} (sound : session.Sound)
    (topology : Topology R) (laidOut : Bool) : (session.openFromStart topology laidOut).2.Sound := by
  rcases session.openFromStart_cases topology laidOut with refused | ⟨start, opened⟩
  · rw [refused]
    exact sound
  · rw [opened]
    have unshown : session.preview = none := sound.preview_eq_none (by simp [start])
    exact sound_openTopology { session with step := .editGraph } rfl unshown topology laidOut

theorem Sound.confirmPreset {session : Session R} (sound : session.Sound) :
    session.confirmPreset.2.Sound := by
  rcases session.confirmPreset_cases with refused | ⟨topology, _, _, opened⟩
  · rw [refused]
    exact sound
  · rw [opened]
    exact sound_openTopology _ rfl rfl topology false

/-! ## Structural edits -/

/-- A changed store has a new simulation if it had one, so that none is left
behind. -/
theorem Sound.update_eq {session : Session R} (sound : session.Sound) {store : Store R}
    (restructured : Store.Restructured session.store store) :
    session.update store =
      { session with
        store
        simulation := session.simulation.map fun _ =>
          .new store.topology store.revision session.settings.layout.force
            session.settings.canvas } := by
  have changed : store.revision ≠ session.store.revision := by simp [restructured.revision]
  cases held : session.simulation with
  | none => simp [Session.update, held]
  | some simulation =>
    have custom : store.topology.origin = .custom :=
      restructured.origin.trans (sound.attached simulation held).2.custom
    have unbuilt : ¬store.topology.origin.isPrebuilt = true := by
      rw [custom]
      exact Bool.false_ne_true
    simp [Session.update, held, changed, Session.startSimulation, unbuilt]

theorem Sound.update {session : Session R} (sound : session.Sound) {store : Store R}
    (restructured : Store.Restructured session.store store) : (session.update store).Sound := by
  rw [sound.update_eq restructured]
  refine ⟨sound.previewed, fun simulation member => ?_⟩
  obtain ⟨replaced, held, rfl⟩ := Option.map_eq_some_iff.1 member
  obtain ⟨editing, attached⟩ := sound.attached replaced held
  exact ⟨editing, restructured.origin.trans attached.custom, rfl, Simulation.ids_new ..⟩

/-- A store that is as it was is no reason to start a simulation. -/
theorem update_self (session : Session R) : session.update session.store = session := by
  simp [Session.update]

theorem Sound.updateStore {session : Session R} (sound : session.Sound)
    (operation : StoreOperation R) (structural : operation.isStructural = true)
    (edits : operation.isSeed = false) :
    (session.update (session.store.apply operation)).Sound := by
  rcases session.store.apply_cases operation with same | accepted
  · rw [same, update_self]
    exact sound
  · exact sound.update (Store.restructured_attempt structural edits accepted)

/-! ## Runs -/

variable [NumberText R]

theorem Sound.loadPreset {session : Session R} (sound : session.Sound) (name : String) :
    (session.loadPreset name).2.Sound := by
  have asked : (session.requestPreset name).2.Sound := sound.requestPreset name
  rcases session.loadPreset_cases name with refused | ⟨ticket, read, completed⟩
  · rw [refused]
    exact asked
  · rw [completed]
    exact asked.completePreset ticket read

/-- Every operation preserves the invariant. -/
theorem Sound.apply {session : Session R} (sound : session.Sound)
    (operation : SessionOperation R) : (session.apply operation).Sound := by
  cases operation with
  | startFromScratch => exact sound.openFromStart _ _
  | openCustom topology => exact sound.openFromStart topology false
  | openSaved topology => exact sound.openFromStart topology true
  | browse => exact sound.browse
  | requestPreset name => exact sound.requestPreset name
  | completePreset ticket read => exact sound.completePreset ticket read
  | loadPreset name => exact sound.loadPreset name
  | confirmPreset => exact sound.confirmPreset
  | back => exact sound.back
  | teardown => exact sound.teardown
  | applyLayout strategy => exact sound.applyLayout strategy
  | tick => exact sound.tick
  | dragStart id => exact sound.dragStart id
  | dragTo id position => exact sound.dragTo id position
  | dragEnd id => exact sound.dragEnd id
  | add template => exact sound.updateStore (.add template) rfl rfl
  | edit id patch => exact sound.edit id patch
  | duplicate id => exact sound.updateStore (.duplicate id) rfl rfl
  | delete id => exact sound.updateStore (.delete id) rfl rfl
  | connect source target => exact sound.updateStore (.connect source target) rfl rfl
  | disconnect source target => exact sound.updateStore (.disconnect source target) rfl rfl

theorem Sound.run {session : Session R} (sound : session.Sound)
    (operations : List (SessionOperation R)) : (session.run operations).Sound := by
  induction operations generalizing session with
  | nil => exact sound
  | cons operation rest ih => exact ih (sound.apply operation)

/-! ## What is reported -/

omit [NumberText R] in
theorem Sound.confirmPreset_iff {session : Session R} (sound : session.Sound) :
    session.confirmPreset.1 = true ↔ session.step = .presetInfo := by
  unfold Session.confirmPreset
  split
  · next inspecting =>
    obtain ⟨topology, shown⟩ := Option.isSome_iff_exists.1 (sound.previewed.2 inspecting)
    rw [shown]
    exact ⟨fun _ => inspecting, fun _ => rfl⟩
  · next away =>
    exact ⟨fun confirmed => (by cases confirmed), fun inspecting => absurd inspecting away⟩

omit [NumberText R] in
theorem Sound.tick_iff {session : Session R} (sound : session.Sound) :
    session.tick.1 = true ↔ session.isSimulating = true := by
  cases simulating : session.isSimulating with
  | false => rw [tick_of_not_isSimulating simulating]
  | true =>
    obtain ⟨simulation, held, running⟩ := exists_of_isSimulating simulating
    have emitted : simulation.FrameOf simulation.tick.2.frame :=
      Simulation.frameOf_tick (Simulation.tick_of_running running)
    have current : simulation.tick.2.frame.revision = session.store.revision :=
      emitted.revision.trans (sound.attached simulation held).2.revision
    rw [tick_of_running held running, Store.applyFrame, Store.placeAt, if_pos current]

/-- In every run, the preview is there just at the step that shows it. A simulation is there
only in the editor of a topology that is not prebuilt, with the store's revision
and a body for each node. So a confirmation at that step is never refused, nor a
frame of a running simulation. -/
theorem preview_and_simulation_of_run (settings : Settings R) (files : FileTree)
    (root : FilePath) (operations : List (SessionOperation R)) :
    let session := (new settings files root).run operations
    (session.preview.isSome = true ↔ session.step = .presetInfo) ∧
      (∀ simulation, session.simulation = some simulation →
        session.step = .editGraph ∧ session.store.topology.origin = .custom ∧
          simulation.revision = session.store.revision ∧
          simulation.bodies.map (·.id) = session.store.topology.nodes.map (·.id)) ∧
      (session.confirmPreset.1 = true ↔ session.step = .presetInfo) ∧
      (session.tick.1 = true ↔ session.isSimulating = true) := by
  intro session
  have sound : session.Sound := (sound_new settings files root).run operations
  refine ⟨sound.previewed, fun simulation held => ?_, sound.confirmPreset_iff, sound.tick_iff⟩
  obtain ⟨editing, attached⟩ := sound.attached simulation held
  exact ⟨editing, attached.custom, attached.revision, attached.ids⟩

/-- One run into the editor, and one up to a preset that is read but not opened. -/
theorem preview_and_simulation_of_run_opened :
    let editor := (new (.standard : Settings Float) {} []).run
      [.startFromScratch, .add none, .dragStart ⟨"0"⟩]
    let presets := (new (.standard : Settings Float) {} []).run
      [.browse, .requestPreset "trio", .completePreset ⟨"trio", [], 1⟩ ⟨[.plain ⟨"a"⟩ "a"], []⟩]
    (editor.simulation.isSome = true ∧ editor.step = .editGraph ∧ editor.tick.1 = true) ∧
      presets.preview.isSome = true ∧ presets.confirmPreset.1 = true := by
  intro editor presets
  have edited := preview_and_simulation_of_run (.standard : Settings Float) {} []
    [.startFromScratch, .add none, .dragStart ⟨"0"⟩]
  have read := preview_and_simulation_of_run (.standard : Settings Float) {} []
    [.browse, .requestPreset "trio", .completePreset ⟨"trio", [], 1⟩ ⟨[.plain ⟨"a"⟩ "a"], []⟩]
  have inspecting : presets.step = .presetInfo := by decide +kernel
  have present : editor.simulation.isSome = true := by decide +kernel
  obtain ⟨simulation, held⟩ := Option.isSome_iff_exists.1 present
  exact ⟨⟨present, (edited.2.1 simulation held).1, edited.2.2.2.2 (by decide +kernel)⟩,
    read.1.2 inspecting, read.2.2.1.2 inspecting⟩

end PeerNet.Session
