import PeerNet.Proofs.Session.Store
import PeerNet.Proofs.Tally

/-!
# Steps and presets

The step of a session and its preset loader change by the moves of the wizard
alone; whatever the editor does leaves them as they are. Only a step back leaves the preview
or the editor for an earlier step. What a session was given at its start never changes.
-/

set_option autoImplicit false

namespace PeerNet

variable {R : Type}

/-- True of the operations that act within the editor. -/
def SessionOperation.isEditing : SessionOperation R → Bool
  | .teardown | .applyLayout _ | .tick | .dragStart _ | .dragTo _ _ | .dragEnd _ => true
  | .add _ | .edit _ _ | .duplicate _ | .delete _ | .connect _ _ | .disconnect _ _ => true
  | _ => false

namespace Session

/-- Two sessions that differ at most in the store and the simulation. -/
structure SameWizard (before after : Session R) : Prop where
  settings : after.settings = before.settings
  step : after.step = before.step
  presets : after.presets = before.presets
  preview : after.preview = before.preview

theorem SameWizard.refl (session : Session R) : SameWizard session session :=
  ⟨rfl, rfl, rfl, rfl⟩

theorem SameWizard.trans {before middle after : Session R} (first : SameWizard before middle)
    (last : SameWizard middle after) : SameWizard before after :=
  ⟨last.settings.trans first.settings, last.step.trans first.step,
    last.presets.trans first.presets, last.preview.trans first.preview⟩

variable [Scalar R]

theorem sameWizard_startSimulation (session : Session R) :
    SameWizard session session.startSimulation := by
  unfold startSimulation
  split
  · exact .refl session
  · exact ⟨rfl, rfl, rfl, rfl⟩

theorem sameWizard_applyLayout (session : Session R) (strategy : Strategy) :
    SameWizard session (session.applyLayout strategy).2 := by
  rcases session.applyLayout_cases strategy with refused | ⟨_, _, placed⟩
  · rw [refused]
    exact .refl session
  · rw [placed]
    exact ⟨rfl, rfl, rfl, rfl⟩

theorem sameWizard_tick (session : Session R) : SameWizard session session.tick.2 := by
  rcases session.tick_cases with idle | ⟨simulation, _, _, ticked⟩
  · rw [idle]
    exact .refl session
  · rw [ticked]
    exact ⟨rfl, rfl, rfl, rfl⟩

theorem sameWizard_update (session : Session R) (store : Store R) :
    SameWizard session (session.update store) := by
  have edited : SameWizard session { session with store } := ⟨rfl, rfl, rfl, rfl⟩
  unfold update
  dsimp only
  split
  · exact edited.trans (sameWizard_startSimulation _)
  · exact edited

theorem sameWizard_openTopology (session : Session R) (topology : Topology R) (laidOut : Bool) :
    SameWizard session (session.openTopology topology laidOut) := by
  have seeded : SameWizard session
      { session.teardown with store := session.store.seed topology } := ⟨rfl, rfl, rfl, rfl⟩
  rcases session.openTopology_cases topology laidOut with kept | started | arranged
  · rw [kept]
    exact seeded
  · rw [started]
    exact seeded.trans (sameWizard_startSimulation _)
  · rw [arranged]
    have laid := seeded.trans (sameWizard_applyLayout _ .ranked)
    exact laid.trans ((sameWizard_startSimulation _).trans ⟨rfl, rfl, rfl, rfl⟩)

variable [NumberText R]

/-- Nothing that the editor does concerns the wizard. -/
theorem sameWizard_apply (session : Session R) {operation : SessionOperation R}
    (editing : operation.isEditing = true) : SameWizard session (session.apply operation) := by
  cases asked : operation.structuralEdit? with
  | some edit =>
    rw [session.apply_of_structuralEdit? asked]
    exact sameWizard_update session _
  | none =>
    cases operation with
    | applyLayout strategy => exact sameWizard_applyLayout session strategy
    | tick => exact sameWizard_tick session
    | teardown | dragStart | dragTo | dragEnd | edit => exact ⟨rfl, rfl, rfl, rfl⟩
    | add | duplicate | delete | connect | disconnect => cases asked
    | _ => cases editing

/-- At the editor no move of the wizard but a step back does anything. -/
theorem apply_of_outside {session : Session R} (editor : session.step = .editGraph)
    {operation : SessionOperation R} (outside : operation.isEditing = false) :
    operation = .back ∨ session.apply operation = session := by
  cases operation with
  | back => exact .inl rfl
  | startFromScratch | openCustom | openSaved =>
    refine .inr ?_
    simp [apply, startFromScratch, openCustom, openSaved, openFromStart, editor]
  | browse | requestPreset | completePreset | loadPreset | confirmPreset =>
    refine .inr ?_
    simp [apply, browse, requestPreset, completePreset, loadPreset, confirmPreset, editor]
  | _ => cases outside

/-- Nothing that the editor does starts a simulation where there is none. -/
theorem simulation_apply_eq_none {session : Session R} {operation : SessionOperation R}
    (editing : operation.isEditing = true) (idle : session.simulation = none) :
    (session.apply operation).simulation = none := by
  cases asked : operation.structuralEdit? with
  | some edit =>
    rw [session.apply_of_structuralEdit? asked]
    simp [update, idle]
  | none =>
    cases operation with
    | teardown => rfl
    | applyLayout strategy =>
      rcases session.applyLayout_cases strategy with refused | ⟨_, _, placed⟩
      · exact (congrArg (·.2.simulation) refused).trans idle
      · exact (congrArg (·.2.simulation) placed).trans idle
    | tick => simp [apply, tick, idle]
    | dragStart | dragTo | dragEnd => simp [apply, dragStart, dragTo, dragEnd, idle]
    | edit => exact idle
    | add | duplicate | delete | connect | disconnect => cases asked
    | _ => cases editing

/-! ## Surroundings -/

/-- What a session is given at its start, and never changes. -/
def surroundings (session : Session R) : Settings R × FileTree × FilePath :=
  (session.settings, session.presets.files, session.presets.directory)

omit [Scalar R] [NumberText R] in
theorem SameWizard.surroundings {before after : Session R} (same : SameWizard before after) :
    after.surroundings = before.surroundings := by
  rw [Session.surroundings, Session.surroundings, same.settings, same.presets]

omit [NumberText R] in
theorem surroundings_openFromStart (session : Session R) (topology : Topology R)
    (laidOut : Bool) :
    (session.openFromStart topology laidOut).2.surroundings = session.surroundings := by
  rcases session.openFromStart_cases topology laidOut with refused | ⟨_, opened⟩
  · rw [refused]
  · rw [opened]
    exact (sameWizard_openTopology { session with step := .editGraph } _ _).surroundings

omit [Scalar R] [NumberText R] in
theorem surroundings_requestPreset (session : Session R) (name : String) :
    (session.requestPreset name).2.surroundings = session.surroundings := by
  unfold requestPreset
  split
  · rfl
  · rfl

omit [Scalar R] [NumberText R] in
theorem surroundings_completePreset (session : Session R) (ticket : GraphML.Ticket)
    (read : Partial R) :
    (session.completePreset ticket read).2.surroundings = session.surroundings := by
  rcases session.completePreset_cases ticket read with refused | ⟨_, _, _, taken⟩
  · rw [refused]
  · rw [taken]
    rfl

theorem surroundings_apply (session : Session R) (operation : SessionOperation R) :
    (session.apply operation).surroundings = session.surroundings := by
  cases editing : operation.isEditing with
  | true => exact (session.sameWizard_apply editing).surroundings
  | false =>
    cases operation with
    | startFromScratch => exact session.surroundings_openFromStart _ false
    | openCustom topology => exact session.surroundings_openFromStart topology false
    | openSaved topology => exact session.surroundings_openFromStart topology true
    | browse =>
      simp only [apply, browse]
      split
      · rfl
      · rfl
    | requestPreset name => exact session.surroundings_requestPreset name
    | completePreset ticket read => exact session.surroundings_completePreset ticket read
    | loadPreset name =>
      change (session.loadPreset name).2.surroundings = _
      rcases session.loadPreset_cases name with refused | ⟨ticket, read, completed⟩
      · rw [refused, surroundings_requestPreset]
      · rw [completed, surroundings_completePreset, surroundings_requestPreset]
    | confirmPreset =>
      change session.confirmPreset.2.surroundings = _
      rcases session.confirmPreset_cases with refused | ⟨topology, _, _, opened⟩
      · rw [refused]
      · rw [opened]
        exact (sameWizard_openTopology
          { session with preview := none, step := .editGraph } _ _).surroundings
    | back =>
      simp only [apply, back]
      split
      · rfl
      · rfl
      · rfl
      · rfl
    | _ => cases editing

theorem surroundings_run (session : Session R) (operations : List (SessionOperation R)) :
    (session.run operations).surroundings = session.surroundings :=
  view_foldl surroundings surroundings_apply session operations

/-! ## Generations -/

omit [NumberText R] in
theorem presets_openFromStart (session : Session R) (topology : Topology R) (laidOut : Bool) :
    (session.openFromStart topology laidOut).2.presets = session.presets := by
  rcases session.openFromStart_cases topology laidOut with refused | ⟨_, opened⟩
  · rw [refused]
  · rw [opened]
    exact (sameWizard_openTopology { session with step := .editGraph } topology laidOut).presets

omit [NumberText R] in
theorem presets_confirmPreset (session : Session R) :
    session.confirmPreset.2.presets = session.presets := by
  rcases session.confirmPreset_cases with refused | ⟨topology, _, _, opened⟩
  · rw [refused]
  · rw [opened]
    exact (sameWizard_openTopology { session with preview := none, step := .editGraph } _ _).presets

omit [Scalar R] [NumberText R] in
theorem presets_completePreset (session : Session R) (ticket : GraphML.Ticket)
    (read : Partial R) : (session.completePreset ticket read).2.presets = session.presets := by
  rcases session.completePreset_cases ticket read with refused | ⟨_, _, _, taken⟩
  · rw [refused]
  · rw [taken]

theorem presets_loadPreset (session : Session R) (name : String) :
    (session.loadPreset name).2.presets = (session.requestPreset name).2.presets := by
  rcases session.loadPreset_cases name with refused | ⟨ticket, read, completed⟩
  · rw [refused]
  · rw [completed, presets_completePreset]

/-- True of an operation that supersedes the tickets issued before it: an accepted
request, or a step back from the selection. -/
def supersedes (session : Session R) : SessionOperation R → Bool
  | .requestPreset _ => session.step = .selectPreset
  | .loadPreset _ => session.step = .selectPreset
  | .back => session.step = .selectPreset
  | _ => false

/-- The number of operations of a run that supersede earlier tickets. -/
def supersessions (session : Session R) (operations : List (SessionOperation R)) : Nat :=
  tally apply supersedes session operations

theorem generation_of_supersedes {session : Session R} {operation : SessionOperation R}
    (supersedes : session.supersedes operation = true) :
    (session.apply operation).presets.generation = session.presets.generation + 1 := by
  cases operation with
  | requestPreset name =>
    change (session.requestPreset name).2.presets.generation = _
    rw [requestPreset, if_pos (of_decide_eq_true supersedes)]
    rfl
  | loadPreset name =>
    change (session.loadPreset name).2.presets.generation = _
    rw [presets_loadPreset, requestPreset, if_pos (of_decide_eq_true supersedes)]
    rfl
  | back =>
    have selecting : session.step = .selectPreset := of_decide_eq_true supersedes
    simp only [apply, back, selecting]
    rfl
  | _ => cases supersedes

theorem presets_of_not_supersedes {session : Session R} {operation : SessionOperation R}
    (keeps : session.supersedes operation = false) :
    (session.apply operation).presets = session.presets := by
  cases editing : operation.isEditing with
  | true => exact (session.sameWizard_apply editing).presets
  | false =>
    cases operation with
    | startFromScratch => exact session.presets_openFromStart _ false
    | openCustom topology => exact session.presets_openFromStart topology false
    | openSaved topology => exact session.presets_openFromStart topology true
    | browse =>
      simp only [apply, browse]
      split
      · rfl
      · rfl
    | requestPreset name =>
      simp only [apply, requestPreset]
      rw [if_neg (of_decide_eq_false keeps)]
    | completePreset ticket read => exact session.presets_completePreset ticket read
    | loadPreset name =>
      refine (session.presets_loadPreset name).trans ?_
      rw [requestPreset, if_neg (of_decide_eq_false keeps)]
    | confirmPreset => exact session.presets_confirmPreset
    | back =>
      simp only [apply, back]
      split
      · rfl
      · next selecting => exact absurd selecting (of_decide_eq_false keeps)
      · rfl
      · rfl
    | _ => cases editing

/-- The loader counts what supersedes its tickets, and nothing else. -/
theorem generation_apply (session : Session R) (operation : SessionOperation R) :
    (session.apply operation).presets.generation =
      session.presets.generation + UInt64.ofNat (session.supersedes operation).toNat := by
  cases kind : session.supersedes operation with
  | true => exact generation_of_supersedes kind
  | false =>
    rw [presets_of_not_supersedes kind]
    exact (UInt64.add_zero _).symm

theorem generation_run (session : Session R) (operations : List (SessionOperation R)) :
    (session.run operations).presets.generation =
      session.presets.generation + UInt64.ofNat (session.supersessions operations) :=
  counter_foldl (fun session => session.presets.generation) generation_apply session
    operations

end Session

end PeerNet
