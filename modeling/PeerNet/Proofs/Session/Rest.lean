import PeerNet.Proofs.Session.Drag
import PeerNet.Proofs.Session.Opening
import PeerNet.Proofs.Session.Supersession

/-!
# Arrangements that stay

A topology that is opened in an arrangement, by ranks or with places from outside, has
no simulation that runs. So its nodes move only where the user moves them: by a drag to
another place, or by a layout. Ranks last until something wakes the simulation that is at
rest; where places come from outside there is none to wake, and nothing in the editor
starts one.
-/

set_option autoImplicit false

namespace PeerNet

variable {R : Type}

/-- The edit of its store that an operation of a session stands for, if it is one. -/
def SessionOperation.edit? : SessionOperation R → Option (StoreOperation R)
  | .edit id patch => some (.edit id patch)
  | .dragTo id position => some (.move id position)
  | operation => operation.structuralEdit?

theorem SessionOperation.edit?_cases {operation : SessionOperation R} {edit : StoreOperation R}
    (asked : operation.edit? = some edit) :
    operation.structuralEdit? = some edit ∨
      (∃ id patch, operation = .edit id patch ∧ edit = .edit id patch) ∨
      ∃ id position, operation = .dragTo id position ∧ edit = .move id position := by
  cases operation with
  | edit id patch => cases asked; exact .inr (.inl ⟨id, patch, rfl, rfl⟩)
  | dragTo id position => cases asked; exact .inr (.inr ⟨id, position, rfl, rfl⟩)
  | _ => exact .inl asked

theorem SessionOperation.isSeed_of_edit? {operation : SessionOperation R}
    {edit : StoreOperation R} (asked : operation.edit? = some edit) : edit.isSeed = false := by
  rcases operation.edit?_cases asked with
    structural | ⟨_, _, _, rfl⟩ | ⟨_, _, _, rfl⟩
  · exact (operation.isStructural_of_structuralEdit? structural).2
  · rfl
  · rfl

/-- An edit spares a node, unless it moves or deletes it. -/
theorem SessionOperation.spares_of_edit? {operation : SessionOperation R}
    {edit : StoreOperation R} (asked : operation.edit? = some edit) (id : NodeId) :
    (∃ place, operation = .dragTo id place) ∨ edit = .delete id ∨ edit.spares id = true := by
  cases operation with
  | dragTo other place =>
    cases asked
    by_cases same : other = id
    · exact .inl ⟨place, by rw [same]⟩
    · exact .inr (.inr (decide_eq_true same))
  | delete other =>
    cases asked
    by_cases same : other = id
    · exact .inr (.inl (by rw [same]))
    · exact .inr (.inr (decide_eq_true same))
  | edit | add | duplicate | connect | disconnect => cases asked; exact .inr (.inr rfl)
  | _ => cases asked

theorem Store.stands_of_mem_positions {store : Store R} (distinct : store.ids.Nodup)
    {entry : NodeId × Point R} (member : entry ∈ store.topology.positions) :
    store.Stands entry.1 entry.2 := by
  obtain ⟨node, listed, rfl⟩ := List.mem_map.1 member
  refine ⟨List.mem_map_of_mem listed, fun other found same => ?_⟩
  rw [List.inj_on_of_nodup_map distinct found listed same]

namespace Session

variable [Scalar R] [NumberText R]

/-! ## Sessions in which nothing moves by itself -/

theorem store_apply_of_edit? (session : Session R) {operation : SessionOperation R}
    {edit : StoreOperation R} (asked : operation.edit? = some edit) :
    (session.apply operation).store = session.store.apply edit := by
  rcases operation.edit?_cases asked with
    structural | ⟨id, patch, rfl, rfl⟩ | ⟨id, position, rfl, rfl⟩
  · rw [session.apply_of_structuralEdit? structural]
    exact session.store_update _
  · rfl
  · rfl

/-- What an operation can make of the store of an editor whose simulation, if there is
one, does not run. -/
theorem store_apply_of_still {session : Session R} (editor : session.step = .editGraph)
    (still : session.isSimulating = false) (operation : SessionOperation R) :
    operation = .back ∨
      (∃ strategy positions, operation = .applyLayout strategy ∧
        (session.applyLayout strategy).1 = true ∧
        (session.apply operation).store = (session.store.place positions).2) ∨
      (∃ edit, operation.edit? = some edit ∧
        (session.apply operation).store = session.store.apply edit) ∨
      (session.apply operation).store = session.store := by
  cases asked : operation.edit? with
  | some edit => exact .inr (.inr (.inl ⟨edit, rfl, session.store_apply_of_edit? asked⟩))
  | none =>
    cases editing : operation.isEditing with
    | false =>
      rcases apply_of_outside editor editing with back | same
      · exact .inl back
      · exact .inr (.inr (.inr (congrArg Session.store same)))
    | true =>
      cases operation with
      | applyLayout strategy =>
        rcases session.applyLayout_cases strategy with refused | ⟨positions, _, placed⟩
        · exact .inr (.inr (.inr (congrArg (·.2.store) refused)))
        · exact .inr (.inl ⟨strategy, positions, rfl, congrArg Prod.fst placed,
            congrArg (·.2.store) placed⟩)
      | tick => exact .inr (.inr (.inr (congrArg (·.2.store) (tick_of_not_isSimulating still))))
      | teardown | dragStart | dragEnd => exact .inr (.inr (.inr rfl))
      | dragTo | edit | add | duplicate | delete | connect | disconnect => cases asked
      | _ => cases editing

/-! ## Ranks -/

/-- True of an operation that may disturb an arrangement at rest: the start of a drag of
a live node, an accepted structural edit, a layout, or a step back. -/
def disturbs (session : Session R) : SessionOperation R → Bool
  | .dragStart id => session.store.topology.hasNode id
  | .applyLayout _ | .back => true
  | operation => session.restructures operation

/-- The number of operations of a run that may disturb an arrangement at rest. -/
def disturbances (session : Session R) (operations : List (SessionOperation R)) : Nat :=
  tally apply disturbs session operations

omit [NumberText R] in
theorem restructures_of_not_disturbs {session : Session R} {operation : SessionOperation R}
    (calm : session.disturbs operation = false) : session.restructures operation = false := by
  cases operation with
  | dragStart | applyLayout | back => rfl
  | _ => exact calm

/-- A session at rest in an arrangement, in which some of the nodes may have been
dragged to other places. -/
structure Rests (session : Session R) (arranged : Placement R) (dragged : NodeId → Prop) :
    Prop where
  sound : session.Sound
  editor : session.step = .editGraph
  still : session.isSimulating = false
  ids : session.store.ids = arranged.map (·.1)
  stands : ∀ entry ∈ arranged, ¬dragged entry.1 → session.store.Stands entry.1 entry.2

omit [Scalar R] [NumberText R] in
theorem isSimulating_map {session : Session R} (still : session.isSimulating = false)
    {change : Simulation R → Simulation R}
    (keeps : ∀ simulation ∈ session.simulation, (change simulation).running = simulation.running)
    (store : Store R) :
    isSimulating { session with store, simulation := session.simulation.map change } = false := by
  cases held : session.simulation with
  | none => rfl
  | some simulation =>
    rw [isSimulating, held] at still
    exact (keeps simulation held).trans still

/-- What does not disturb a simulation at rest does not wake it. -/
theorem isSimulating_apply {session : Session R} (sound : session.Sound)
    (editor : session.step = .editGraph) (still : session.isSimulating = false)
    {operation : SessionOperation R} (calm : session.disturbs operation = false) :
    (session.apply operation).step = .editGraph ∧
      (session.apply operation).isSimulating = false := by
  cases editing : operation.isEditing with
  | false =>
    rcases apply_of_outside editor editing with rfl | same
    · cases calm
    · rw [same]
      exact ⟨editor, still⟩
  | true =>
    refine ⟨(session.sameWizard_apply editing).step.trans editor, ?_⟩
    cases asked : operation.structuralEdit? with
    | some edit =>
      rwa [apply_of_not_restructures asked (restructures_of_not_disturbs calm)]
    | none =>
      cases operation with
      | teardown => rfl
      | applyLayout => cases calm
      | tick =>
        change session.tick.2.isSimulating = false
        rwa [tick_of_not_isSimulating still]
      | dragStart id =>
        have unknown : id ∉ session.store.ids := fun live =>
          Bool.false_ne_true (calm.symm.trans (Topology.hasNode_eq_true_iff.2 live))
        refine isSimulating_map still (fun simulation held => ?_) session.store
        rw [Simulation.dragStart_of_not_mem]
        rwa [(sound.attached simulation held).2.ids]
      | dragTo id position =>
        exact isSimulating_map still (fun simulation _ => simulation.running_dragTo id position) _
      | dragEnd id =>
        exact isSimulating_map still (fun simulation _ => simulation.running_dragEnd id) _
      | edit id patch =>
        exact still
      | add | duplicate | delete | connect | disconnect => cases asked
      | _ => cases editing

omit [NumberText R] in
/-- The edits that do not disturb keep the node and link sets. -/
theorem changesSets_of_not_disturbs {session : Session R} {operation : SessionOperation R}
    {edit : StoreOperation R} (asked : operation.edit? = some edit)
    (calm : session.disturbs operation = false) : session.store.changesSets edit = false := by
  rcases operation.edit?_cases asked with
    structural | ⟨id, patch, rfl, rfl⟩ | ⟨id, position, rfl, rfl⟩
  · have refused := restructures_of_not_disturbs calm
    rwa [restructures, structural] at refused
  · rfl
  · rfl

/-- What does not disturb an arrangement at rest leaves it at rest. -/
theorem Rests.apply {session : Session R} {arranged : Placement R} {dragged : NodeId → Prop}
    (rests : session.Rests arranged dragged) {operation : SessionOperation R}
    (calm : session.disturbs operation = false)
    (drags : ∀ id place, operation = .dragTo id place → dragged id) :
    (session.apply operation).Rests arranged dragged := by
  obtain ⟨editor, still⟩ := isSimulating_apply rests.sound rests.editor rests.still calm
  have sound : (session.apply operation).Sound := rests.sound.apply operation
  rcases store_apply_of_still rests.editor rests.still operation with
    rfl | ⟨strategy, positions, rfl, _⟩ | ⟨edit, asked, edited⟩ | same
  · cases calm
  · cases calm
  · have sets := Store.sameSets_apply (changesSets_of_not_disturbs asked calm)
    refine ⟨sound, editor, still, ?_, fun entry member undragged => ?_⟩
    · rw [edited, sets.ids, rests.ids]
    · have stands := rests.stands entry member undragged
      rw [edited]
      rcases operation.spares_of_edit? asked entry.1 with ⟨place, moved⟩ | rfl | spares
      · exact absurd (drags entry.1 place moved) undragged
      · -- The node is live, so that its deletion would have been accepted.
        have accepted := changesSets_of_not_disturbs asked calm
        rw [Store.changesSets, Store.attempt, Store.delete,
          if_pos (Topology.hasNode_eq_true_iff.2 stands.live)] at accepted
        cases accepted
      · exact stands.apply spares
  · refine ⟨sound, editor, still, (congrArg Store.ids same).trans rests.ids, ?_⟩
    rw [same]
    exact rests.stands

theorem Rests.run {session : Session R} {arranged : Placement R} {dragged : NodeId → Prop}
    (rests : session.Rests arranged dragged) {operations : List (SessionOperation R)}
    (calm : session.disturbances operations = 0)
    (drags : ∀ id place, .dragTo id place ∈ operations → dragged id) :
    (session.run operations).Rests arranged dragged := by
  induction operations generalizing session with
  | nil => exact rests
  | cons operation rest ih =>
    obtain ⟨now, later⟩ := Nat.add_eq_zero_iff.1 calm
    refine ih (rests.apply (Bool.toNat_eq_zero.1 now) fun id place moved => ?_) later
      fun id place member => drags id place (List.mem_cons_of_mem operation member)
    exact drags id place (moved ▸ List.mem_cons_self)

omit [NumberText R] in
/-- The opening of a topology with links. -/
theorem rests_openCustom {session : Session R} (sound : session.Sound)
    (start : session.step = .chooseStart) {topology : Topology R}
    (custom : topology.origin = .custom) (linked : topology.edges ≠ [])
    (dragged : NodeId → Prop) :
    (session.openCustom topology).2.Rests (session.ranked topology.sanitized) dragged := by
  have opened := openTopology_of_linked { session with step := .editGraph } custom linked
  have placed := positions_arranged session topology
  have distinct : (session.store.seed topology).ids.Nodup := topology.valid_sanitized.uniqueIds
  have same := Store.sameShape_place (session.store.seed topology)
    (session.ranked topology.sanitized)
  have soundOpened : (session.openCustom topology).2.Sound := sound.openFromStart topology false
  rw [openCustom_of_start start, opened] at soundOpened ⊢
  refine ⟨soundOpened, rfl, rfl, ?_, fun entry member _ => ?_⟩
  · exact same.ids.trans (Layout.map_fst_rankedLayout _ _ topology.sanitized).symm
  · rw [← placed] at member
    exact Store.stands_of_mem_positions (same.ids ▸ distinct) member

/-- In every run, a custom topology with links is opened as the ranked layout arranges it
after the repeated nodes and the invalid links are dropped. Until a drag of a live node
starts, a structural edit is accepted, a layout is asked for or the editor is left,
every tick is refused and changes nothing, and each node stands where the layout has
it, unless it is dragged to another place. -/
theorem ranked_opening_stays (settings : Settings R) (files : FileTree) (root : FilePath)
    (before : List (SessionOperation R)) (topology : Topology R) :
    let session := (new settings files root).run before
    let opened := (session.openCustom topology).2
    let arranged := Layout.rankedLayout settings.layout.ranked settings.canvas topology.sanitized
    session.step = .chooseStart → topology.origin = .custom → topology.edges ≠ [] →
      (session.openCustom topology).1 = true ∧ opened.store.topology.positions = arranged ∧
        ∀ operations, opened.disturbances operations = 0 →
          let later := opened.run operations
          later.tick = (false, later) ∧ later.store.ids = arranged.map (·.1) ∧
            ∀ entry ∈ arranged, (∀ place, .dragTo entry.1 place ∉ operations) →
              (later.store.node? entry.1).map (·.position) = some entry.2 := by
  intro session opened arranged start custom linked
  have given : session.settings = settings :=
    congrArg Prod.fst ((new settings files root).surroundings_run before)
  have ranked : session.ranked topology.sanitized = arranged := by rw [Session.ranked, given]
  have sound : session.Sound := (sound_new settings files root).run before
  have accepted := openCustom_of_start start topology
  refine ⟨congrArg Prod.fst accepted, ?_, fun operations calm => ?_⟩
  · have placed := openTopology_of_linked { session with step := .editGraph } custom linked
    rw [← ranked, ← positions_arranged session topology]
    exact congrArg (·.store.topology.positions) ((congrArg Prod.snd accepted).trans placed)
  · have rests : (opened.run operations).Rests arranged
        fun id => ∃ place, .dragTo id place ∈ operations :=
      ranked ▸ (rests_openCustom sound start custom linked _).run calm
        fun _ place member => ⟨place, member⟩
    refine ⟨tick_of_not_isSimulating rests.still, rests.ids, fun entry member undragged => ?_⟩
    exact (rests.stands entry member fun ⟨place, moved⟩ => undragged place moved).node?

/-- Of two linked nodes one is dragged, and the other one keeps its rank. -/
theorem ranked_opening_stays_linkedPair :
    let linked := { pair with edges := [⟨⟨"a"⟩, ⟨"b"⟩⟩, ⟨⟨"b"⟩, ⟨"b"⟩⟩] }
    let opened := ((new (.standard : Settings Float) {} []).openCustom linked).2
    let operations : List (SessionOperation Float) := [.tick, .dragTo ⟨"a"⟩ ⟨1.0, 2.0⟩,
      .dragEnd ⟨"a"⟩, .dragStart ⟨"x"⟩, .connect ⟨"a"⟩ ⟨"b"⟩, .edit ⟨"b"⟩ ⟨[("label", "B")]⟩, .tick]
    let later := opened.run operations
    opened.disturbances operations = 0 ∧ later.tick = (false, later) ∧
      (later.store.node? ⟨"b"⟩).map (·.position) = some ⟨436.0, 325.0⟩ := by
  intro linked opened operations later
  obtain ⟨-, -, stays⟩ := ranked_opening_stays (.standard : Settings Float) {} [] [] linked
    rfl rfl (List.cons_ne_nil _ _)
  have calm : opened.disturbances operations = 0 := by decide +kernel
  obtain ⟨refused, -, stands⟩ := stays operations calm
  have undragged (place : Point Float) : .dragTo ⟨"b"⟩ place ∉ operations := by
    simp [operations]
  exact ⟨calm, refused, stands (⟨"b"⟩, ⟨436.0, 325.0⟩) (by decide +kernel) undragged⟩

end Session

end PeerNet
