import PeerNet.Proofs.Layout.Pins
import PeerNet.Proofs.Session.Wizard
import PeerNet.Proofs.Store.Standing

/-!
# Dragged nodes

A node stands where a drag has put it, in the store and, as a pin, in the
simulation. Ticks respect the pin, so nothing but a further drag of the node or its
deletion moves it. The pin is lost with the simulation, though, when an accepted structural
edit replaces it: from then on the node stands only until the next tick.
-/

set_option autoImplicit false

namespace PeerNet

variable {R : Type}

/-- True of the operations of the editor that neither drag nor delete a node. -/
def SessionOperation.spares (id : NodeId) : SessionOperation R → Bool
  | .dragStart other => other ≠ id
  | .dragTo other _ => other ≠ id
  | .dragEnd other => other ≠ id
  | .delete other => other ≠ id
  | .tick | .add _ | .edit _ _ | .duplicate _ | .connect _ _ | .disconnect _ _ => true
  | _ => false

def SessionOperation.isTick : SessionOperation R → Bool
  | .tick => true
  | _ => false

theorem SessionOperation.isEditing_of_spares {operation : SessionOperation R} {id : NodeId}
    (spares : operation.spares id = true) : operation.isEditing = true := by
  cases operation with
  | tick | dragStart | dragTo | dragEnd | add | edit | duplicate | delete | connect
  | disconnect => rfl
  | _ => cases spares

theorem SessionOperation.spares_structuralEdit? {operation : SessionOperation R} {id : NodeId}
    (spares : operation.spares id = true) {edit : StoreOperation R}
    (asked : operation.structuralEdit? = some edit) : edit.spares id = true := by
  cases operation with
  | delete other => cases asked; exact spares
  | add | duplicate | connect | disconnect => cases asked; rfl
  | _ => cases asked

namespace Session

/-- A node that is held at a position, by the store and by the simulation if there
is one. -/
structure Held (session : Session R) (id : NodeId) (position : Point R) : Prop where
  stands : session.store.Stands id position
  pinned : ∀ simulation ∈ session.simulation, simulation.Holds id position

variable [Scalar R] [NumberText R]

/-! ## Single operations -/

/-- Between two ticks the operations that spare a node leave it where it stands. -/
theorem stands_apply {session : Session R} {id : NodeId} {position : Point R}
    (stands : session.store.Stands id position) {operation : SessionOperation R}
    (spares : operation.spares id = true) (timeless : operation.isTick = false) :
    (session.apply operation).store.Stands id position := by
  cases asked : operation.structuralEdit? with
  | some edit =>
    rw [session.apply_of_structuralEdit? asked, store_update]
    exact stands.apply (operation.spares_structuralEdit? spares asked)
  | none =>
    cases operation with
    | tick => cases timeless
    | dragStart other | dragEnd other => exact stands
    | dragTo other place => exact stands.move fun same => absurd same (of_decide_eq_true spares)
    | edit other patch => exact stands.edit other patch
    | add | duplicate | delete | connect | disconnect => cases asked
    | _ => cases spares

omit [NumberText R] in
theorem Held.tick {session : Session R} {id : NodeId} {position : Point R}
    (held : session.Held id position) : session.tick.2.Held id position := by
  rcases session.tick_cases with idle | ⟨simulation, present, running, ticked⟩
  · rw [idle]
    exact held
  · rw [ticked]
    have holds : simulation.Holds id position := held.pinned simulation present
    refine ⟨held.stands.applyFrame (holds.frame (Simulation.tick_of_running running)), ?_⟩
    rintro after ⟨⟩
    exact holds.tick

omit [Scalar R] [NumberText R] in
theorem Held.mapSimulation {session : Session R} {id : NodeId} {position : Point R}
    (held : session.Held id position) {change : Simulation R → Simulation R}
    (keeps : ∀ simulation, simulation.Holds id position → (change simulation).Holds id position) :
    ∀ after ∈ session.simulation.map change, after.Holds id position := by
  intro after member
  obtain ⟨before, running, rfl⟩ := Option.map_eq_some_iff.1 member
  exact keeps before (held.pinned before running)

/-- A refused structural edit changes nothing. -/
theorem apply_of_not_restructures {session : Session R} {operation : SessionOperation R}
    {edit : StoreOperation R} (asked : operation.structuralEdit? = some edit)
    (refused : session.restructures operation = false) : session.apply operation = session := by
  rw [restructures, asked, Option.any_some] at refused
  obtain ⟨structural, _⟩ := operation.isStructural_of_structuralEdit? asked
  rw [session.apply_of_structuralEdit? asked, Store.apply_of_keepsSets structural refused,
    update_self]

/-- An operation that spares a held node keeps it held, unless it is a structural edit
that replaces the simulation. -/
theorem Held.apply {session : Session R} {id : NodeId} {position : Point R}
    (held : session.Held id position) {operation : SessionOperation R}
    (spares : operation.spares id = true)
    (steady : session.simulation.isSome = true → session.restructures operation = false) :
    (session.apply operation).Held id position := by
  cases timeless : operation.isTick with
  | true =>
    cases operation with
    | tick => exact held.tick
    | _ => cases timeless
  | false =>
    refine ⟨stands_apply held.stands spares timeless, ?_⟩
    cases asked : operation.structuralEdit? with
    | some edit =>
      cases present : session.simulation with
      | none =>
        rw [simulation_apply_eq_none (operation.isEditing_of_spares spares) present]
        exact fun _ member => by cases member
      | some simulation =>
        rw [apply_of_not_restructures asked (steady (by rw [present]; rfl))]
        exact held.pinned
    | none =>
      cases operation with
      | dragStart other =>
        exact held.mapSimulation fun _ holds => holds.dragStart (of_decide_eq_true spares)
      | dragTo other place =>
        exact held.mapSimulation fun _ holds => holds.dragTo (of_decide_eq_true spares) place
      | dragEnd other =>
        exact held.mapSimulation fun _ holds => holds.dragEnd (of_decide_eq_true spares)
      | edit => exact held.pinned
      | add | duplicate | delete | connect | disconnect => cases asked
      | tick => cases timeless
      | _ => cases spares

/-- A drag of a live node holds it, whatever held it before. -/
theorem held_dragTo {session : Session R} (sound : session.Sound) (storeSound : session.store.Sound)
    {id : NodeId} (live : id ∈ session.store.ids) (position : Point R) :
    (session.apply (.dragTo id position)).Held id position := by
  refine ⟨Store.stands_move storeSound.valid.uniqueIds live position, fun after member => ?_⟩
  obtain ⟨before, running, rfl⟩ := Option.map_eq_some_iff.1 member
  have distinct : before.ids.Nodup :=
    (sound.attached before running).2.ids ▸ storeSound.valid.uniqueIds
  exact Simulation.holds_dragTo distinct id position

/-- An accepted structural edit leaves no node pinned. -/
theorem pin_of_restructures {session : Session R} (sound : session.Sound)
    {operation : SessionOperation R} (restructures : session.restructures operation = true) :
    ∀ simulation ∈ (session.apply operation).simulation,
      ∀ body ∈ simulation.bodies, body.pin = none := by
  intro simulation member
  obtain ⟨store, restructured, edited⟩ := exists_of_restructures restructures
  rw [edited, sound.update_eq restructured] at member
  obtain ⟨_, _, rfl⟩ := Option.map_eq_some_iff.1 member
  exact Simulation.pin_new store.topology _ _ _

/-! ## Runs -/

theorem Held.run {session : Session R} {id : NodeId} {position : Point R}
    (held : session.Held id position) {operations : List (SessionOperation R)}
    (spares : ∀ operation ∈ operations, operation.spares id = true)
    (steady : session.simulation.isSome = true → session.restructurings operations = 0) :
    (session.run operations).Held id position := by
  induction operations generalizing session with
  | nil => exact held
  | cons operation rest ih =>
    have now : session.simulation.isSome = true → session.restructures operation = false :=
      fun present => Bool.toNat_eq_zero.1 (Nat.add_eq_zero_iff.1 (steady present)).1
    have spared : operation.spares id = true := spares operation List.mem_cons_self
    have sparedRest : ∀ other ∈ rest, other.spares id = true :=
      fun other member => spares other (List.mem_cons_of_mem operation member)
    refine ih (held.apply spared now) sparedRest fun still => ?_
    have present : session.simulation.isSome = true := by
      cases idle : session.simulation with
      | none =>
        rw [simulation_apply_eq_none (operation.isEditing_of_spares spared) idle] at still
        cases still
      | some simulation => rfl
    exact (Nat.add_eq_zero_iff.1 (steady present)).2

theorem stands_run {session : Session R} {id : NodeId} {position : Point R}
    (stands : session.store.Stands id position) {operations : List (SessionOperation R)}
    (spares : ∀ operation ∈ operations, operation.spares id = true)
    (timeless : ∀ operation ∈ operations, operation.isTick = false) :
    (session.run operations).store.Stands id position := by
  induction operations generalizing session with
  | nil => exact stands
  | cons operation rest ih =>
    exact ih
      (stands_apply stands (spares operation List.mem_cons_self)
        (timeless operation List.mem_cons_self))
      (fun other member => spares other (List.mem_cons_of_mem _ member))
      (fun other member => timeless other (List.mem_cons_of_mem _ member))

/-! ## Reached sessions -/

/-- In every run, a live node that is dragged to a position stands there through all
operations that neither drag nor delete it, if the simulation that holds it is
ticked only before the first accepted structural edit. Such an edit replaces the
simulation by one that pins nothing; without a simulation there is nothing to lose. -/
theorem dragged_node_stays (settings : Settings R) (files : FileTree) (root : FilePath)
    (before between steady late : List (SessionOperation R)) (id : NodeId) (position : Point R) :
    let begun := (new settings files root).run (before ++ .dragStart id :: between)
    let dragged := begun.apply (.dragTo id position)
    id ∈ begun.store.ids →
      (∀ operation ∈ steady ++ late, operation.spares id = true) →
      (dragged.simulation.isSome = true →
        dragged.restructurings steady = 0 ∧ ∀ operation ∈ late, operation.isTick = false) →
      ((dragged.run (steady ++ late)).store.node? id).map (·.position) = some position ∧
        ∀ operation, (dragged.run steady).restructures operation = true →
          ∀ simulation ∈ ((dragged.run steady).apply operation).simulation,
            ∀ body ∈ simulation.bodies, body.pin = none := by
  intro begun dragged live spares kept
  have sound : begun.Sound := (sound_new settings files root).run _
  have held : dragged.Held id position :=
    held_dragTo sound (storeSound_reached settings files root _) live position
  have steadily : ∀ operation ∈ steady, operation.spares id = true :=
    fun operation member => spares operation (List.mem_append_left late member)
  have lately : ∀ operation ∈ late, operation.spares id = true :=
    fun operation member => spares operation (List.mem_append_right steady member)
  have first : (dragged.run steady).Held id position :=
    held.run steadily fun present => (kept present).1
  refine ⟨?_, fun operation restructures => ?_⟩
  · cases present : dragged.simulation with
    | none =>
      have all : (dragged.run (steady ++ late)).Held id position :=
        held.run spares fun running => by rw [present] at running; cases running
      exact all.stands.node?
    | some simulation =>
      have timeless := (kept (by rw [present]; rfl)).2
      rw [run_append]
      exact (stands_run first.stands lately timeless).node?
  · have later : (dragged.run steady).Sound := (sound.apply (.dragTo id position)).run steady
    exact pin_of_restructures later restructures

theorem dragged_node_stays_pair :
    let begun := (new (.standard : Settings Float) {} []).run
      ([.openCustom pair] ++ .dragStart ⟨"a"⟩ :: [])
    let dragged := begun.apply (.dragTo ⟨"a"⟩ ⟨10.0, 20.0⟩)
    let steady := [.tick, .dragTo ⟨"b"⟩ ⟨3.0, 4.0⟩, .connect ⟨"a"⟩ ⟨"a"⟩,
      .edit ⟨"a"⟩ ⟨[("label", "A")]⟩, .tick]
    let late := [.add none, .delete ⟨"b"⟩]
    ⟨"a"⟩ ∈ begun.store.ids ∧ dragged.restructurings steady = 0 ∧
      ((dragged.run (steady ++ late)).store.node? ⟨"a"⟩).map (·.position) = some ⟨10.0, 20.0⟩ ∧
      ∀ simulation ∈ ((dragged.run steady).apply (.delete ⟨"b"⟩)).simulation,
        ∀ body ∈ simulation.bodies, body.pin = none := by
  intro begun dragged steady late
  have live : ⟨"a"⟩ ∈ begun.store.ids := by decide +kernel
  have unchanged : dragged.restructurings steady = 0 := by decide +kernel
  obtain ⟨stays, released⟩ := dragged_node_stays (.standard : Settings Float) {} []
    [.openCustom pair] [] steady late ⟨"a"⟩ ⟨10.0, 20.0⟩ live (by decide +kernel)
    fun _ => ⟨unchanged, by decide +kernel⟩
  exact ⟨live, unchanged, stays, released (.delete ⟨"b"⟩) (by decide +kernel)⟩

/-- A node that is held by a drag moves at the first tick after its neighbour was
deleted. -/
theorem dragged_node_moves_after_deletion :
    let begun := (new (.standard : Settings Float) {} []).run [.openCustom pair, .dragStart ⟨"a"⟩]
    let dragged := begun.apply (.dragTo ⟨"a"⟩ ⟨10.0, 20.0⟩)
    let later : List (SessionOperation Float) := [.delete ⟨"b"⟩, .tick]
    ⟨"a"⟩ ∈ begun.store.ids ∧ (∀ operation ∈ later, operation.spares ⟨"a"⟩ = true) ∧
      ((dragged.run later).store.node? ⟨"a"⟩).map (·.position) ≠ some ⟨10.0, 20.0⟩ := by
  decide +kernel

end Session

end PeerNet
