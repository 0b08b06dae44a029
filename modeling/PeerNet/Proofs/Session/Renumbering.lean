import PeerNet.Proofs.Session.Effects

/-!
# Sessions with shifted generations

The generation of a preset load matters only for whether its ticket is current. A
session that has counted on by some offset does the same as before with tickets
whose generations are shifted by that offset: every operation commutes with the shift.
-/

set_option autoImplicit false

namespace PeerNet

variable {R : Type}

namespace GraphML

def Ticket.shifted (ticket : Ticket) (offset : UInt64) : Ticket :=
  { ticket with generation := ticket.generation + offset }

namespace Presets

def shifted (presets : Presets) (offset : UInt64) : Presets :=
  { presets with generation := presets.generation + offset }

theorem next_shifted (generation offset : UInt64) :
    generation + offset + 1 = generation + 1 + offset := by
  ac_rfl

theorem request_shifted (presets : Presets) (offset : UInt64) (name : String) :
    (presets.shifted offset).request name =
      ((presets.request name).1.shifted offset, (presets.request name).2.shifted offset) := by
  simp only [request, shifted, Ticket.shifted, next_shifted]
  rfl

theorem cancel_shifted (presets : Presets) (offset : UInt64) :
    (presets.shifted offset).cancel = presets.cancel.shifted offset := by
  simp only [cancel, shifted, next_shifted]

theorem isCurrent_shifted (presets : Presets) (ticket : Ticket) (offset : UInt64) :
    (presets.shifted offset).isCurrent (ticket.shifted offset) = presets.isCurrent ticket := by
  simp only [isCurrent, shifted, Ticket.shifted, UInt64.add_left_inj]

theorem complete?_shifted (presets : Presets) (ticket : Ticket) (offset : UInt64)
    (read : Partial R) :
    (presets.shifted offset).complete? (ticket.shifted offset) read =
      presets.complete? ticket read := by
  rw [complete?, complete?, isCurrent_shifted]
  rfl

end Presets

end GraphML

/-- The same operation, with a ticket of a shifted generation if it delivers for one. -/
def SessionOperation.shifted (offset : UInt64) : SessionOperation R → SessionOperation R
  | .completePreset ticket read => .completePreset (ticket.shifted offset) read
  | operation => operation

namespace Session

def shifted (offset : UInt64) (session : Session R) : Session R :=
  { session with presets := session.presets.shifted offset }

@[simp] theorem settings_shifted (session : Session R) (offset : UInt64) :
    (session.shifted offset).settings = session.settings :=
  rfl

@[simp] theorem store_shifted (session : Session R) (offset : UInt64) :
    (session.shifted offset).store = session.store :=
  rfl

@[simp] theorem step_shifted (session : Session R) (offset : UInt64) :
    (session.shifted offset).step = session.step :=
  rfl

@[simp] theorem simulation_shifted (session : Session R) (offset : UInt64) :
    (session.shifted offset).simulation = session.simulation :=
  rfl

@[simp] theorem presets_shifted (session : Session R) (offset : UInt64) :
    (session.shifted offset).presets = session.presets.shifted offset :=
  rfl

@[simp] theorem preview_shifted (session : Session R) (offset : UInt64) :
    (session.shifted offset).preview = session.preview :=
  rfl

/-! ## Moves of the wizard -/

theorem browse_shifted (session : Session R) (offset : UInt64) :
    (session.shifted offset).browse = session.browse.map id (shifted offset) := by
  unfold browse
  rw [step_shifted]
  split
  · rfl
  · rfl

theorem requestPreset_shifted (session : Session R) (offset : UInt64) (name : String) :
    (session.shifted offset).requestPreset name =
      (session.requestPreset name).map (Option.map (·.shifted offset)) (shifted offset) := by
  unfold requestPreset
  rw [step_shifted, presets_shifted, GraphML.Presets.request_shifted]
  split
  · rfl
  · rfl

theorem completePreset_shifted (session : Session R) (offset : UInt64)
    (ticket : GraphML.Ticket) (read : Partial R) :
    (session.shifted offset).completePreset (ticket.shifted offset) read =
      (session.completePreset ticket read).map id (shifted offset) := by
  unfold completePreset
  rw [step_shifted, presets_shifted, GraphML.Presets.complete?_shifted]
  split
  · cases session.presets.complete? ticket read with
    | none | some topology => rfl
  · rfl

theorem back_shifted (session : Session R) (offset : UInt64) :
    (session.shifted offset).back = session.back.shifted offset := by
  unfold back
  rw [step_shifted, presets_shifted, GraphML.Presets.cancel_shifted]
  cases session.step with
  | chooseStart | selectPreset | presetInfo | editGraph => rfl

/-! ## Openings -/

variable [Scalar R]

theorem startSimulation_shifted (session : Session R) (offset : UInt64) :
    (session.shifted offset).startSimulation = session.startSimulation.shifted offset := by
  unfold startSimulation
  rw [store_shifted]
  split
  · rfl
  · rfl

theorem applyLayout_shifted (session : Session R) (offset : UInt64) (strategy : Strategy) :
    (session.shifted offset).applyLayout strategy =
      (session.applyLayout strategy).map id (shifted offset) := by
  unfold applyLayout
  rw [store_shifted, settings_shifted]
  cases Layout.layout session.store.topology strategy session.settings.layout
      session.settings.canvas with
  | ok positions => rfl
  | error refusal => rfl

theorem openTopology_shifted (session : Session R) (offset : UInt64) (topology : Topology R)
    (laidOut : Bool) :
    (session.shifted offset).openTopology topology laidOut =
      (session.openTopology topology laidOut).shifted offset := by
  let seeded : Session R := { session.teardown with store := session.store.seed topology }
  have started := seeded.startSimulation_shifted offset
  have arranged : ((seeded.shifted offset).applyLayout .ranked).2.startSimulation =
      (seeded.applyLayout .ranked).2.startSimulation.shifted offset := by
    rw [applyLayout_shifted, Prod.map_snd, startSimulation_shifted]
  unfold openTopology
  dsimp only
  cases Layout.initialStrategy topology.origin (!topology.edges.isEmpty) laidOut with
  | none => rfl
  | some strategy =>
    cases strategy with
    | force => exact started
    | ranked =>
      exact congrArg (fun laid : Session R =>
        { laid with simulation := laid.simulation.map Simulation.rest }) arranged

theorem openFromStart_shifted (session : Session R) (offset : UInt64) (topology : Topology R)
    (laidOut : Bool) :
    (session.shifted offset).openFromStart topology laidOut =
      (session.openFromStart topology laidOut).map id (shifted offset) := by
  unfold openFromStart
  rw [step_shifted]
  split
  · exact congrArg (true, ·)
      (openTopology_shifted { session with step := .editGraph } offset topology laidOut)
  · rfl

theorem confirmPreset_shifted (session : Session R) (offset : UInt64) :
    (session.shifted offset).confirmPreset = session.confirmPreset.map id (shifted offset) := by
  unfold confirmPreset
  rw [step_shifted, preview_shifted]
  split
  · cases session.preview with
    | none => rfl
    | some topology =>
      exact congrArg (true, ·) (openTopology_shifted
        { session with preview := none, step := .editGraph } offset topology false)
  · rfl

/-! ## The editor -/

theorem tick_shifted (session : Session R) (offset : UInt64) :
    (session.shifted offset).tick = session.tick.map id (shifted offset) := by
  unfold tick
  rw [simulation_shifted, store_shifted]
  cases session.simulation with
  | none => rfl
  | some simulation =>
    dsimp only
    cases simulation.tick.1 with
    | none | some frame => rfl

theorem update_shifted (session : Session R) (offset : UInt64) (store : Store R) :
    (session.shifted offset).update store = (session.update store).shifted offset := by
  unfold update
  rw [store_shifted, simulation_shifted]
  dsimp only
  split
  · exact startSimulation_shifted { session with store } offset
  · rfl

variable [NumberText R]

theorem loadPreset_shifted (session : Session R) (offset : UInt64) (name : String) :
    (session.shifted offset).loadPreset name =
      (session.loadPreset name).map id (shifted offset) := by
  unfold loadPreset
  rw [requestPreset_shifted]
  rcases session.requestPreset name with ⟨_ | ticket, issued⟩
  · rfl
  · exact issued.completePreset_shifted offset ticket (issued.presets.fetchSoft ticket)

/-- Every operation commutes with the shift. -/
theorem apply_shifted (session : Session R) (offset : UInt64)
    (operation : SessionOperation R) :
    (session.shifted offset).apply (operation.shifted offset) =
      (session.apply operation).shifted offset := by
  cases operation with
  | startFromScratch | openCustom | openSaved =>
    exact congrArg Prod.snd (session.openFromStart_shifted offset ..)
  | browse => exact congrArg Prod.snd (session.browse_shifted offset)
  | requestPreset name => exact congrArg Prod.snd (session.requestPreset_shifted offset name)
  | completePreset ticket read =>
    exact congrArg Prod.snd (session.completePreset_shifted offset ticket read)
  | loadPreset name => exact congrArg Prod.snd (session.loadPreset_shifted offset name)
  | confirmPreset => exact congrArg Prod.snd (session.confirmPreset_shifted offset)
  | back => exact session.back_shifted offset
  | applyLayout strategy => exact congrArg Prod.snd (session.applyLayout_shifted offset strategy)
  | tick => exact congrArg Prod.snd (session.tick_shifted offset)
  | teardown | dragStart | dragTo | dragEnd | edit => rfl
  | add | duplicate | delete | connect | disconnect => exact session.update_shifted offset _

end Session

end PeerNet
