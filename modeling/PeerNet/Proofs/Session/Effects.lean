import PeerNet.Session.Operation
import PeerNet.Store.Operation
import PeerNet.Proofs.Layout.Bodies

/-!
# Effects of session operations

What the operations of a session can come to, said once for each of them. What an
operation keeps is then shown effect by effect.
-/

set_option autoImplicit false

namespace PeerNet.Session

variable {R : Type}

theorem exists_of_isSimulating {session : Session R}
    (simulating : session.isSimulating = true) :
    ∃ simulation, session.simulation = some simulation ∧ simulation.running = true := by
  cases held : session.simulation with
  | none =>
    rw [isSimulating, held] at simulating
    cases simulating
  | some simulation =>
    rw [isSimulating, held] at simulating
    exact ⟨simulation, rfl, simulating⟩

theorem completePreset_cases (session : Session R) (ticket : GraphML.Ticket)
    (read : Partial R) :
    session.completePreset ticket read = (false, session) ∨
      ∃ topology, session.step = .selectPreset ∧
        session.presets.complete? ticket read = some topology ∧
        session.completePreset ticket read =
          (true, { session with preview := some topology, step := .presetInfo }) := by
  by_cases selecting : session.step = .selectPreset
  · rw [completePreset, if_pos selecting]
    cases outcome : session.presets.complete? ticket read with
    | none => exact .inl rfl
    | some topology => exact .inr ⟨topology, selecting, rfl, rfl⟩
  · rw [completePreset, if_neg selecting]
    exact .inl rfl

variable [Scalar R]

theorem tick_of_running {session : Session R} {simulation : Simulation R}
    (held : session.simulation = some simulation) (running : simulation.running = true) :
    session.tick = ((session.store.applyFrame simulation.tick.2.frame).1,
      { session with
        simulation := some simulation.tick.2
        store := (session.store.applyFrame simulation.tick.2.frame).2 }) := by
  rw [tick, held]
  dsimp only
  rw [Simulation.tick_of_running running]

theorem tick_of_not_isSimulating {session : Session R}
    (still : session.isSimulating = false) : session.tick = (false, session) := by
  cases held : session.simulation with
  | none => rw [tick, held]
  | some simulation =>
    have stopped : simulation.running = false := by
      rw [isSimulating, held] at still
      exact still
    rw [tick, held]
    dsimp only
    rw [Simulation.tick_of_stopped stopped]
    dsimp only
    rw [← held]

/-- A tick changes nothing, or applies the next frame of a running simulation. -/
theorem tick_cases (session : Session R) :
    session.tick = (false, session) ∨
      ∃ simulation, session.simulation = some simulation ∧ simulation.running = true ∧
        session.tick = ((session.store.applyFrame simulation.tick.2.frame).1,
          { session with
            simulation := some simulation.tick.2
            store := (session.store.applyFrame simulation.tick.2.frame).2 }) := by
  cases simulating : session.isSimulating with
  | false => exact .inl (tick_of_not_isSimulating simulating)
  | true =>
    obtain ⟨simulation, held, running⟩ := exists_of_isSimulating simulating
    exact .inr ⟨simulation, held, running, tick_of_running held running⟩

theorem applyLayout_cases (session : Session R) (strategy : Strategy) :
    session.applyLayout strategy = (false, session) ∨
      ∃ positions, Layout.layout session.store.topology strategy session.settings.layout
          session.settings.canvas = .ok positions ∧
        session.applyLayout strategy =
          (true, { session with store := (session.store.place positions).2 }) := by
  unfold applyLayout
  split
  · next positions computed => exact .inr ⟨positions, computed, rfl⟩
  · exact .inl rfl

/-- A topology that is opened stays as it is, gets a simulation, or is arranged by ranks
and gets one at rest. -/
theorem openTopology_cases (session : Session R) (topology : Topology R) (laidOut : Bool) :
    let seeded := { session.teardown with store := session.store.seed topology }
    let started := (seeded.applyLayout .ranked).2.startSimulation
    session.openTopology topology laidOut = seeded ∨
      session.openTopology topology laidOut = seeded.startSimulation ∨
      session.openTopology topology laidOut =
        { started with simulation := started.simulation.map Simulation.rest } := by
  intro seeded started
  unfold openTopology
  dsimp only
  split
  · exact .inr (.inr rfl)
  · exact .inr (.inl rfl)
  · exact .inl rfl

theorem openFromStart_cases (session : Session R) (topology : Topology R) (laidOut : Bool) :
    session.openFromStart topology laidOut = (false, session) ∨
      session.step = .chooseStart ∧
        session.openFromStart topology laidOut =
          (true, openTopology { session with step := .editGraph } topology laidOut) := by
  unfold openFromStart
  split
  · next start => exact .inr ⟨start, rfl⟩
  · exact .inl rfl

theorem confirmPreset_cases (session : Session R) :
    session.confirmPreset = (false, session) ∨
      ∃ topology, session.step = .presetInfo ∧ session.preview = some topology ∧
        session.confirmPreset =
          (true, openTopology { session with preview := none, step := .editGraph }
            topology false) := by
  by_cases inspecting : session.step = .presetInfo
  · rw [confirmPreset, if_pos inspecting]
    cases shown : session.preview with
    | none => exact .inl rfl
    | some topology => exact .inr ⟨topology, inspecting, rfl, rfl⟩
  · rw [confirmPreset, if_neg inspecting]
    exact .inl rfl

variable [NumberText R]

theorem loadPreset_cases (session : Session R) (name : String) :
    let issued := (session.requestPreset name).2
    (session.loadPreset name).2 = issued ∨
      ∃ ticket read, (session.loadPreset name).2 = (issued.completePreset ticket read).2 := by
  intro issued
  unfold loadPreset
  split
  · next ticket after requested =>
    have same : after = issued := (congrArg Prod.snd requested).symm
    rw [same]
    exact .inr ⟨ticket, _, rfl⟩
  · next after refused => exact .inl (congrArg Prod.snd refused).symm

end PeerNet.Session
