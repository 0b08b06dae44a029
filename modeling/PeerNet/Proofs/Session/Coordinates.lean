import Mathlib.Data.List.Infix
import PeerNet.Proofs.Session.Rest

/-!
# Places from outside

A preset and a saved topology bring places that mean something. As long as they are
edited there is no simulation, whatever is edited: a structural edit starts one anew
only where there was one. So a node leaves its place only by a drag of its own or by a
layout that is asked for, and a preset refuses the ranked layout.
-/

set_option autoImplicit false

namespace PeerNet.Session

variable {R : Type}

/-- True of the operations that open a topology in the places it brings: a saved one,
or a preset that is shown. -/
inductive OpensPlaced (session : Session R) (topology : Topology R) :
    SessionOperation R → Prop where
  | saved (start : session.step = .chooseStart) : OpensPlaced session topology (.openSaved topology)
  | preset (shown : session.preview = some topology) : OpensPlaced session topology .confirmPreset

/-- True of a session in which only presets are shown. -/
def ShowsPresets (session : Session R) : Prop :=
  ∀ topology ∈ session.preview, topology.origin.isPrebuilt = true

/-- An editor without a simulation, in which a topology of some origin is open. -/
structure Unsimulated (session : Session R) (origin : Origin) : Prop where
  editor : session.step = .editGraph
  idle : session.simulation = none
  storeSound : session.store.Sound
  origin : session.store.topology.origin = origin

theorem Unsimulated.still {session : Session R} {origin : Origin}
    (unsimulated : session.Unsimulated origin) : session.isSimulating = false := by
  rw [isSimulating, unsimulated.idle]
  rfl

/-! ## Previews -/

theorem ShowsPresets.completePreset {session : Session R} (shows : session.ShowsPresets)
    (ticket : GraphML.Ticket) (read : Partial R) :
    (session.completePreset ticket read).2.ShowsPresets := by
  rcases session.completePreset_cases ticket read with refused | ⟨topology, _, completed, taken⟩
  · rwa [refused]
  · rw [taken]
    rintro shown ⟨⟩
    obtain ⟨_, _, rfl⟩ := complete?_eq_some_iff.1 completed
    rfl

theorem ShowsPresets.requestPreset {session : Session R} (shows : session.ShowsPresets)
    (name : String) : (session.requestPreset name).2.ShowsPresets := by
  unfold Session.requestPreset
  split
  · exact shows
  · exact shows

variable [Scalar R]

theorem ShowsPresets.openFromStart {session : Session R} (shows : session.ShowsPresets)
    (topology : Topology R) (laidOut : Bool) :
    (session.openFromStart topology laidOut).2.ShowsPresets := by
  rcases session.openFromStart_cases topology laidOut with refused | ⟨_, opened⟩
  · rwa [refused]
  · rw [opened, ShowsPresets, (sameWizard_openTopology _ topology laidOut).preview]
    exact shows

variable [NumberText R]

theorem ShowsPresets.apply {session : Session R} (shows : session.ShowsPresets)
    (operation : SessionOperation R) : (session.apply operation).ShowsPresets := by
  cases editing : operation.isEditing with
  | true =>
    rw [ShowsPresets, (session.sameWizard_apply editing).preview]
    exact shows
  | false =>
    cases operation with
    | startFromScratch => exact shows.openFromStart _ false
    | openCustom topology => exact shows.openFromStart topology false
    | openSaved topology => exact shows.openFromStart topology true
    | browse =>
      simp only [Session.apply, browse]
      split
      · exact shows
      · exact shows
    | requestPreset name => exact shows.requestPreset name
    | completePreset ticket read => exact shows.completePreset ticket read
    | loadPreset name =>
      change (session.loadPreset name).2.ShowsPresets
      rcases session.loadPreset_cases name with refused | ⟨ticket, read, completed⟩
      · rw [refused]
        exact shows.requestPreset name
      · rw [completed]
        exact (shows.requestPreset name).completePreset ticket read
    | confirmPreset =>
      change session.confirmPreset.2.ShowsPresets
      rcases session.confirmPreset_cases with refused | ⟨topology, _, _, opened⟩
      · rwa [refused]
      · rw [opened, ShowsPresets, (sameWizard_openTopology _ topology false).preview]
        exact fun _ member => by cases member
    | back =>
      simp only [Session.apply, back]
      split
      · exact shows
      · exact shows
      · exact fun _ member => by cases member
      · exact shows
    | _ => cases editing

theorem showsPresets_run {session : Session R} (shows : session.ShowsPresets)
    (operations : List (SessionOperation R)) : (session.run operations).ShowsPresets := by
  induction operations generalizing session with
  | nil => exact shows
  | cons operation rest ih => exact ih (shows.apply operation)

/-! ## Openings -/

/-- What is opened in the places it brings stays there, without a simulation. -/
theorem apply_of_opensPlaced {session : Session R} (sound : session.Sound)
    (shows : session.ShowsPresets) {topology : Topology R} {opening : SessionOperation R}
    (opens : session.OpensPlaced topology opening) :
    (session.apply opening).step = .editGraph ∧ (session.apply opening).simulation = none ∧
      (session.apply opening).store = session.store.seed topology := by
  cases opens with
  | saved start =>
    have laidOut : topology.origin.isPrebuilt = true ∨ true = true := .inr rfl
    have opened := openTopology_of_placed { session with step := .editGraph } topology laidOut
    change (session.openSaved topology).2.step = _ ∧ (session.openSaved topology).2.simulation = _ ∧
      (session.openSaved topology).2.store = _
    rw [openSaved, openFromStart, if_pos start, opened]
    exact ⟨rfl, rfl, rfl⟩
  | preset shown =>
    have inspecting : session.step = .presetInfo := sound.previewed.1 (by rw [shown]; rfl)
    have prebuilt : topology.origin.isPrebuilt = true ∨ false = true :=
      .inl (shows topology shown)
    have opened := openTopology_of_placed
      { session with preview := none, step := .editGraph } topology prebuilt
    change session.confirmPreset.2.step = _ ∧ session.confirmPreset.2.simulation = _ ∧
      session.confirmPreset.2.store = _
    rw [confirmPreset, if_pos inspecting, shown]
    dsimp only
    rw [opened]
    exact ⟨rfl, rfl, rfl⟩

/-! ## Edits -/

theorem Unsimulated.apply {session : Session R} {origin : Origin}
    (unsimulated : session.Unsimulated origin) {operation : SessionOperation R}
    (stays : (session.apply operation).step = .editGraph) :
    (session.apply operation).Unsimulated origin := by
  have unleft : operation ≠ .back := by
    rintro rfl
    have left : session.back.step = .chooseStart := by simp [back, unsimulated.editor]
    cases stays.symm.trans left
  refine ⟨stays, ?_, storeSound_apply unsimulated.storeSound operation, ?_⟩
  · cases editing : operation.isEditing with
    | true => exact simulation_apply_eq_none editing unsimulated.idle
    | false =>
      rcases apply_of_outside unsimulated.editor editing with back | same
      · exact absurd back unleft
      · rw [same, unsimulated.idle]
  · rw [← unsimulated.origin]
    rcases store_apply_of_still unsimulated.editor unsimulated.still operation with
      back | ⟨_, positions, _, _, placed⟩ | ⟨edit, asked, edited⟩ | same
    · exact absurd back unleft
    · rw [placed, Store.origin_place]
    · rw [edited, Store.origin_apply _ (operation.isSeed_of_edit? asked)]
    · rw [same]

theorem Unsimulated.run {session : Session R} {origin : Origin}
    (unsimulated : session.Unsimulated origin) {operations : List (SessionOperation R)}
    (stays : ∀ first ∈ operations.inits, (session.run first).step = .editGraph) :
    (session.run operations).Unsimulated origin := by
  induction operations generalizing session with
  | nil => exact unsimulated
  | cons operation rest ih =>
    have within {first : List (SessionOperation R)} (member : first ∈ rest.inits) :
        operation :: first ∈ (operation :: rest).inits := by
      rw [List.mem_inits] at member ⊢
      exact List.cons_prefix_cons.2 ⟨rfl, member⟩
    refine ih (unsimulated.apply ?_) fun first member => stays _ (within member)
    exact stays [operation] (within ((List.mem_inits _ _).2 List.nil_prefix))

/-- Where there is no simulation, a node leaves its place only by a drag of its own or by
a layout. -/
theorem Unsimulated.position_apply {session : Session R} {origin : Origin}
    (unsimulated : session.Unsimulated origin) {operation : SessionOperation R} {id : NodeId}
    {old new : Node R} (before : session.store.node? id = some old)
    (after : (session.apply operation).store.node? id = some new) :
    new.position = old.position ∨ (∃ place, operation = .dragTo id place) ∨
      ∃ strategy, operation = .applyLayout strategy ∧ (session.applyLayout strategy).1 = true := by
  have distinct : session.store.ids.Nodup := unsimulated.storeSound.valid.uniqueIds
  have stands := Store.stands_of_node? distinct before
  have kept (still : (session.apply operation).store.Stands id old.position) :
      new.position = old.position := by
    have standing := still.node?
    rw [after] at standing
    exact Option.some.inj standing
  rcases store_apply_of_still unsimulated.editor unsimulated.still operation with
    rfl | ⟨strategy, _, asked, accepted, _⟩ | ⟨edit, asked, edited⟩ | same
  · -- A step back discards the topology, so that no node is left.
    have left : session.back.store = .new session.settings.options session.settings.canvas := by
      simp [back, unsimulated.editor]
    change session.back.store.node? id = some new at after
    rw [left] at after
    cases after
  · exact .inr (.inr ⟨strategy, asked, accepted⟩)
  · rcases operation.spares_of_edit? asked id with dragged | rfl | spares
    · exact .inr (.inl dragged)
    · have live := (Store.stands_of_node? (edited ▸ (storeSound_apply unsimulated.storeSound
        operation).valid.uniqueIds) (edited ▸ after)).live
      exact absurd live (Store.not_mem_ids_delete distinct id)
    · exact .inl (kept (edited ▸ stands.apply spares))
  · exact .inl (kept (same ▸ stands))

omit [NumberText R] in
theorem applyLayout_of_prebuilt {session : Session R}
    (prebuilt : session.store.topology.origin.isPrebuilt = true) :
    session.applyLayout .ranked = (false, session) := by
  cases origin : session.store.topology.origin with
  | custom => rw [origin] at prebuilt; cases prebuilt
  | prebuilt asset => rw [applyLayout, Layout.layout, origin]

/-! ## Reached sessions -/

/-- In every run, a saved topology or a preset is opened in the places it brings. Until
the editor is left there is no simulation, whatever is done, and every tick is refused. Each
node stays in its place but for a drag that names it and for a layout that is accepted;
the ranked layout of a prebuilt topology is not, however it was edited. -/
theorem places_from_outside_kept (settings : Settings R) (files : FileTree) (root : FilePath)
    (before : List (SessionOperation R)) (opening : SessionOperation R) (topology : Topology R) :
    let session := (new settings files root).run before
    let opened := session.apply opening
    session.OpensPlaced topology opening →
      opened.store.topology = topology.sanitized ∧
        ∀ operations, (∀ first ∈ operations.inits, (opened.run first).step = .editGraph) →
          let later := opened.run operations
          later.simulation = none ∧ later.tick = (false, later) ∧
            (∀ operation id old new, later.store.node? id = some old →
              (later.apply operation).store.node? id = some new →
              new.position = old.position ∨ (∃ place, operation = .dragTo id place) ∨
                ∃ strategy, operation = .applyLayout strategy ∧
                  (later.applyLayout strategy).1 = true) ∧
            (topology.origin.isPrebuilt = true → later.applyLayout .ranked = (false, later)) := by
  intro session opened opens
  have sound : session.Sound := (sound_new settings files root).run before
  have shows : session.ShowsPresets :=
    showsPresets_run (fun _ member => by cases member) before
  obtain ⟨editor, idle, seeded⟩ := apply_of_opensPlaced sound shows opens
  have start : opened.Unsimulated topology.origin :=
    ⟨editor, idle, seeded ▸ Store.sound_seed session.store topology,
      congrArg (·.topology.origin) seeded⟩
  refine ⟨congrArg Store.topology seeded, fun operations stays => ?_⟩
  have later : (opened.run operations).Unsimulated topology.origin := start.run stays
  refine ⟨later.idle, tick_of_not_isSimulating later.still,
    fun _ _ _ _ found left => later.position_apply found left, fun prebuilt => ?_⟩
  exact applyLayout_of_prebuilt (later.origin ▸ prebuilt)

/-- A preset and a saved topology, each with a node and a link more than it was opened
with. -/
theorem places_from_outside_kept_extended :
    let read : Partial Float := ⟨pair.nodes, []⟩
    let preset : Topology Float := read.toTopology 0 "duo" (.prebuilt "duo")
    let start := new (.standard : Settings Float) {} []
    let shown := start.run [.browse, .requestPreset "duo", .completePreset ⟨"duo", [], 1⟩ read]
    let edits : List (SessionOperation Float) := [.add none, .connect ⟨"a"⟩ ⟨"0"⟩, .tick]
    let extended := (shown.apply .confirmPreset).run edits
    let saved := (start.apply (.openSaved pair)).run edits
    shown.preview = some preset ∧ extended.store.topology.edges = [⟨⟨"a"⟩, ⟨"0"⟩⟩] ∧
      extended.simulation = none ∧ extended.tick = (false, extended) ∧
      extended.applyLayout .ranked = (false, extended) ∧
      saved.simulation = none ∧ saved.tick = (false, saved) := by
  intro read preset start shown edits extended saved
  have previewed : shown.preview = some preset := by decide +kernel
  obtain ⟨-, kept⟩ := places_from_outside_kept (.standard : Settings Float) {} []
    [.browse, .requestPreset "duo", .completePreset ⟨"duo", [], 1⟩ read] .confirmPreset preset
    (.preset previewed)
  obtain ⟨idle, refused, -, unranked⟩ := kept edits (by decide +kernel)
  obtain ⟨-, keptSaved⟩ := places_from_outside_kept (.standard : Settings Float) {} [] []
    (.openSaved pair) pair (.saved rfl)
  obtain ⟨idleSaved, refusedSaved, -, -⟩ := keptSaved edits (by decide +kernel)
  exact ⟨previewed, by decide +kernel, idle, refused, unranked rfl, idleSaved, refusedSaved⟩

end PeerNet.Session
