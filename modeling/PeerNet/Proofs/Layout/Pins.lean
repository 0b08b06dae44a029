import PeerNet.Proofs.Layout.Bodies

/-!
# Pinned bodies

A drag pins a body to the position that it moves it to. Ticks leave a pinned body
there, whatever the forces are, and drags of other nodes do not release it. A new
simulation pins none.
-/

set_option autoImplicit false

namespace PeerNet.Simulation

variable {R : Type}

/-- True of a simulation in which every body of an id is pinned to a position. -/
def Holds (simulation : Simulation R) (id : NodeId) (position : Point R) : Prop :=
  ∀ body ∈ simulation.bodies, body.id = id → body.pin = some position

theorem exists_of_mem_modify {change : Body R → Body R} {place : Nat} {bodies : List (Body R)}
    {body : Body R} (member : body ∈ bodies.modify place change) :
    ∃ (index : Nat) (old : Body R), bodies[index]? = some old ∧
      body = if place = index then change old else old := by
  obtain ⟨index, found⟩ := List.mem_iff_getElem?.1 member
  rw [List.getElem?_modify] at found
  obtain ⟨old, listed, rfl⟩ := Option.map_eq_some_iff.1 found
  exact ⟨index, old, listed, rfl⟩

theorem exists_of_place? {simulation : Simulation R} {id : NodeId} {place : Nat}
    (found : simulation.place? id = some place) :
    ∃ body, simulation.bodies[place]? = some body ∧ body.id = id := by
  have named := Layout.getElem?_of_lastPlace? found
  rwa [List.getElem?_map, Option.map_eq_some_iff] at named

theorem getElem?_ids {simulation : Simulation R} {index : Nat} {body : Body R}
    (listed : simulation.bodies[index]? = some body) :
    simulation.ids[index]? = some body.id := by
  rw [ids, List.getElem?_map, listed]
  rfl

/-- Where ids differ, no other place than the found one has the id. -/
theorem eq_place_of_distinct {simulation : Simulation R} (distinct : simulation.ids.Nodup)
    {id : NodeId} {place : Nat} (found : simulation.place? id = some place) {index : Nat}
    {body : Body R} (listed : simulation.bodies[index]? = some body) (named : body.id = id) :
    index = place := by
  obtain ⟨held, placed, heldNamed⟩ := exists_of_place? found
  have first : simulation.ids[index]? = some id := named ▸ getElem?_ids listed
  have second : simulation.ids[place]? = some id := heldNamed ▸ getElem?_ids placed
  obtain ⟨inside, _⟩ := List.getElem?_eq_some_iff.1 first
  exact (List.getElem?_inj inside distinct).1 (first.trans second.symm)

/-- A change of another node's body releases none of the held ones. -/
theorem Holds.modify {simulation : Simulation R} {id other : NodeId} {position : Point R}
    (holds : simulation.Holds id position) (apart : other ≠ id) {place : Nat}
    (found : simulation.place? other = some place) {change : Body R → Body R}
    (keeps : ∀ body, (change body).id = body.id) :
    Holds { simulation with bodies := simulation.bodies.modify place change } id position := by
  intro body member named
  obtain ⟨index, old, listed, rfl⟩ := exists_of_mem_modify member
  by_cases here : place = index
  · rw [if_pos here, keeps] at named
    obtain ⟨held, placed, heldNamed⟩ := exists_of_place? found
    rw [here, listed] at placed
    cases placed
    exact absurd (heldNamed.symm.trans named) apart
  · rw [if_neg here] at named ⊢
    exact holds old (List.mem_of_getElem? listed) named

variable [Scalar R]

/-! ## Drags -/

theorem Holds.dragStart {simulation : Simulation R} {id other : NodeId} {position : Point R}
    (holds : simulation.Holds id position) (apart : other ≠ id) :
    (simulation.dragStart other).2.Holds id position := by
  unfold Simulation.dragStart
  split
  · exact holds
  · next found => exact holds.modify apart found fun _ => rfl

theorem Holds.dragTo {simulation : Simulation R} {id other : NodeId} {position : Point R}
    (holds : simulation.Holds id position) (apart : other ≠ id) (place : Point R) :
    (simulation.dragTo other place).2.Holds id position := by
  unfold Simulation.dragTo
  split
  · exact holds
  · next found => exact holds.modify apart found fun _ => rfl

theorem Holds.dragEnd {simulation : Simulation R} {id other : NodeId} {position : Point R}
    (holds : simulation.Holds id position) (apart : other ≠ id) :
    (simulation.dragEnd other).2.Holds id position := by
  unfold Simulation.dragEnd
  split
  · exact holds
  · next found => exact holds.modify apart found fun _ => rfl

theorem holds_dragTo {simulation : Simulation R} (distinct : simulation.ids.Nodup) (id : NodeId)
    (position : Point R) : (simulation.dragTo id position).2.Holds id position := by
  unfold Simulation.dragTo
  split
  · next missing =>
    intro body member named
    have listed : id ∈ simulation.ids := named ▸ List.mem_map_of_mem member
    exact absurd listed (Layout.lastPlace?_eq_none missing)
  · next place found =>
    intro body member named
    obtain ⟨index, old, listed, rfl⟩ := exists_of_mem_modify member
    by_cases here : place = index
    · rw [if_pos here]
    · rw [if_neg here] at named
      exact absurd (eq_place_of_distinct distinct found listed named).symm here

/-! ## Ticks -/

theorem integrate_of_pinned {retain : R} {body : Body R} {position : Point R}
    (pinned : body.pin = some position) :
    (integrate retain body).pin = some position ∧ (integrate retain body).position = position := by
  rw [integrate, pinned]
  exact ⟨rfl, rfl⟩

/-- Wherever the forces pull, a held body ends where it is held. -/
theorem Holds.advance {simulation : Simulation R} {id : NodeId} {position : Point R}
    (holds : simulation.Holds id position) (alpha : R) :
    ∀ body ∈ (simulation.advance alpha).1, body.id = id →
      body.pin = some position ∧ body.position = position := by
  intro body member named
  obtain ⟨bodies, same, advanced⟩ := exists_advance_eq simulation alpha
  rw [advanced] at member
  obtain ⟨pulled, listed, rfl⟩ := List.mem_map.1 member
  have known : stance pulled ∈ simulation.bodies.map stance := same ▸ List.mem_map_of_mem listed
  obtain ⟨body, origin, alike⟩ := List.mem_map.1 known
  have sameId : body.id = pulled.id := congrArg Prod.fst alike
  have samePin : body.pin = pulled.pin := congrArg (·.2.2) alike
  have pinned : pulled.pin = some position := by
    rw [← samePin]
    exact holds body origin (sameId.trans ((id_integrate _ pulled).symm.trans named))
  exact integrate_of_pinned pinned

theorem Holds.tick {simulation : Simulation R} {id : NodeId} {position : Point R}
    (holds : simulation.Holds id position) : simulation.tick.2.Holds id position := by
  unfold Simulation.tick
  split
  · exact holds
  · exact fun body member named => (holds.advance simulation.cooled body member named).1

theorem Holds.runUntilSettled {simulation : Simulation R} {id : NodeId} {position : Point R}
    (holds : simulation.Holds id position) (limit : Nat) :
    (simulation.runUntilSettled limit).2.Holds id position :=
  runFrom_induction (motive := (·.Holds id position)) (fun _ before => before.tick) holds none limit

/-- A frame has a held node where it is held. -/
theorem Holds.frame {simulation : Simulation R} {id : NodeId} {position : Point R}
    (holds : simulation.Holds id position) {frame : Frame R}
    (emitted : simulation.tick.1 = some frame) :
    ∀ entry ∈ frame.positions, entry.1 = id → entry.2 = position := by
  unfold Simulation.tick at emitted
  split at emitted
  · cases emitted
  · cases emitted
    intro entry member named
    obtain ⟨body, listed, rfl⟩ := List.mem_map.1 member
    exact (holds.advance simulation.cooled body listed named).2

/-! ## Starts -/

theorem pin_addBodies {earlier : List (Body R)} (free : ∀ body ∈ earlier, body.pin = none)
    (nodes : List (Node R)) : ∀ body ∈ addBodies earlier nodes, body.pin = none := by
  induction nodes generalizing earlier with
  | nil => exact free
  | cons node rest ih =>
    refine ih fun body member => ?_
    rcases List.mem_append.1 member with old | new
    · exact free body old
    · rw [List.mem_singleton.1 new]

/-- A new simulation holds nothing, whatever an earlier one held. -/
theorem pin_new (topology : Topology R) (revision : UInt64) (settings : ForceSettings R)
    (canvas : Canvas R) :
    ∀ body ∈ (new topology revision settings canvas).bodies, body.pin = none :=
  pin_addBodies (fun _ member => absurd member List.not_mem_nil) topology.nodes

end PeerNet.Simulation
