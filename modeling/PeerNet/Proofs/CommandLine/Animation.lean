import PeerNet.CommandLine.Run
import PeerNet.Proofs.Store.Overlay
import PeerNet.Proofs.Topology.Sanitize

/-!
# Animated layouts

An animation shows a force layout frame by frame, and a layout computes it at once. The
simulations differ in nothing but the revision that they are for, and each frame leaves
no trace of the one before it, so both put the nodes at the same places in the end.
-/

set_option autoImplicit false

namespace PeerNet

variable {R : Type} [Scalar R]

/-! ## The revision of a simulation -/

namespace Simulation

omit [Scalar R] in
/-- The simulation as one that was built for another revision. -/
def forRevision (simulation : Simulation R) (revision : UInt64) : Simulation R :=
  { simulation with revision }

theorem tick_forRevision (simulation : Simulation R) (revision : UInt64) :
    (simulation.forRevision revision).tick =
      (simulation.tick.1.map ({ · with revision }), simulation.tick.2.forRevision revision) := by
  cases running : simulation.running with
  | false => simp [tick, forRevision, running]
  | true =>
    simp only [tick, forRevision, running]
    rfl

/-- The revision is only noted on the frames. -/
theorem runFrom_forRevision (revision : UInt64) (limit : Nat) (simulation : Simulation R)
    (last other : Option (Frame R)) :
    (runFrom last (simulation.forRevision revision) limit).2 =
      (runFrom other simulation limit).2.forRevision revision := by
  induction limit generalizing simulation last other with
  | zero => rfl
  | succ limit ih =>
    have ticked := simulation.tick_forRevision revision
    cases tick : simulation.tick with
    | mk emitted next =>
      cases emitted with
      | none => simp [runFrom, ticked, tick]
      | some frame => simpa [runFrom, ticked, tick] using ih next _ _

/-- A tick is counted, as long as the counter does not come round. -/
theorem ticks_of_tick {simulation next : Simulation R} {frame : Frame R}
    (ticked : simulation.tick = (some frame, next))
    (few : simulation.ticks.toNat + 1 < UInt64.size) :
    next.ticks.toNat = simulation.ticks.toNat + 1 := by
  have counted : next.ticks = simulation.ticks + 1 := by
    unfold tick at ticked
    split at ticked
    · cases ticked
    · cases ticked
      rfl
  rw [counted, UInt64.toNat_add, UInt64.toNat_one]
  exact Nat.mod_eq_of_lt few

end Simulation

/-! ## Frames that follow each other -/

namespace Store

omit [Scalar R] in
theorem sound_place {store : Store R} (sound : store.Sound) (positions : Placement R) :
    (store.place positions).2.Sound :=
  sound.sameShape (sameShape_place store positions)

/-- A frame puts the nodes where its simulation has them, wherever they are shown before. -/
theorem applyFrame_frame {base shown : Store R} {simulation : Simulation R}
    (baseSound : base.Sound) (shownSound : shown.Sound) (same : shown.unplaced = base.unplaced)
    (ids : simulation.ids = base.ids) (revision : simulation.revision = base.revision) :
    (shown.applyFrame simulation.frame).2 = (base.place simulation.positions).2 := by
  have current : simulation.frame.revision = base.revision := revision
  have covers : simulation.frame.positions.map (·.1) = base.ids :=
    simulation.map_fst_positions.trans ids
  rw [applyFrame_eq_of_unplaced baseSound shownSound same current covers]
  simp [applyFrame, placeAt, current]
  rfl

end Store

namespace CommandLine

open Store

/-! ## Both loops -/

/-- A simulation with a body for each node of a store, and for its revision. -/
structure About (simulation : Simulation R) (base : Store R) : Prop where
  ids : simulation.ids = base.ids
  revision : simulation.revision = base.revision

theorem About.tick {simulation : Simulation R} {base : Store R} (about : About simulation base) :
    About simulation.tick.2 base := by
  have bodies := Simulation.sameBodies_tick simulation
  exact ⟨bodies.ids.trans about.ids, bodies.revision.trans about.revision⟩

/-- Where the nodes are shown as a simulation has them, they still are when both have gone
on to the end. -/
theorem animateFrom_placed {base : Store R} (sound : base.Sound) {simulation : Simulation R}
    (about : About simulation base) (shown limit : Nat) (last : Option (Frame R)) :
    (animateFrom shown simulation (base.place simulation.positions).2 limit).2 =
      (base.place (Simulation.runFrom last simulation limit).2.positions).2 := by
  induction limit generalizing simulation shown last with
  | zero => rfl
  | succ limit ih =>
    cases running : simulation.running with
    | false =>
      have stopped := Simulation.tick_of_stopped running
      simp [animateFrom, Simulation.runFrom, stopped]
    | true =>
      have next := about.tick
      have placed := applyFrame_frame sound (sound_place sound simulation.positions)
        (unplaced_place base simulation.positions) next.ids next.revision
      rw [animateFrom, Simulation.runFrom, Simulation.tick_eq_of_running running]
      dsimp only
      rw [placed]
      exact ih next _ _

/-- From the first tick on the nodes are shown as the simulation has them. -/
theorem animateFrom_of_running {base : Store R} (sound : base.Sound) {simulation : Simulation R}
    (about : About simulation base) (running : simulation.running = true) (shown : Nat)
    {limit : Nat} (positive : 0 < limit) :
    (animateFrom shown simulation base limit).2 =
      (base.place (simulation.runUntilSettled limit).2.positions).2 := by
  obtain ⟨limit, rfl⟩ := Nat.exists_eq_succ_of_ne_zero (Nat.ne_of_gt positive)
  have next := about.tick
  rw [animateFrom, Simulation.runUntilSettled, Simulation.runFrom,
    Simulation.tick_eq_of_running running]
  dsimp only
  rw [applyFrame_frame sound sound rfl next.ids next.revision]
  exact animateFrom_placed sound next _ _ _

/-! ## The loop without a limit -/

/-- The simulation, stopped once it has run for a number of ticks. -/
def stoppedAt (limit : Nat) (simulation : Simulation R) : Simulation R :=
  if limit ≤ simulation.ticks.toNat then simulation.stop else simulation

/-- Every tick of a simulation is shown until there is none, and the simulation is stopped
when it has run for a number of ticks. -/
inductive Shows (limit : Nat) : Simulation R → Store R → Nat → Store R → Prop where
  | over {simulation : Simulation R} {store : Store R} :
      simulation.tick.1 = none → Shows limit simulation store 0 store
  | frame {simulation next : Simulation R} {frame : Frame R} {store last : Store R} {count : Nat} :
      simulation.tick = (some frame, next) →
      Shows limit (stoppedAt limit next) (store.applyFrame frame).2 count last →
      Shows limit simulation store (count + 1) last

theorem shows_animateFrom {limit left : Nat} {simulation : Simulation R}
    (few : limit < UInt64.size) (room : simulation.ticks.toNat + left = limit) (store : Store R)
    (shown : Nat) :
    ∃ count, (animateFrom shown simulation store left).1 = shown + count ∧
      Shows limit (stoppedAt limit simulation) store count
        (animateFrom shown simulation store left).2 := by
  induction left generalizing simulation store shown with
  | zero =>
    have stopped : (stoppedAt limit simulation).tick.1 = none := by
      have spent : limit ≤ simulation.ticks.toNat := by omega
      rw [stoppedAt, if_pos spent, Simulation.tick_of_stopped rfl]
    exact ⟨0, rfl, .over stopped⟩
  | succ left ih =>
    have going : stoppedAt limit simulation = simulation := by
      have more : ¬limit ≤ simulation.ticks.toNat := by omega
      rw [stoppedAt, if_neg more]
    rw [going, animateFrom]
    split
    · next ticked => exact ⟨0, rfl, .over (by rw [ticked])⟩
    · next frame next ticked =>
      have later := Simulation.ticks_of_tick ticked (by omega)
      have nextRoom : next.ticks.toNat + left = limit := by omega
      obtain ⟨count, counted, shows⟩ := ih nextRoom (store.applyFrame frame).2 (shown + 1)
      exact ⟨count + 1, by omega, .frame ticked shows⟩

/-! ## The animation and the layout -/

/-- A valid topology is animated to where the force layout puts it: the nodes end up at
the same positions, in node order, and nothing else differs. The animation shows every
tick of its simulation until it has settled or has run for the greatest number of ticks. -/
theorem laidOut_eq_animated (settings : Settings R) {topology : Topology R}
    (valid : topology.validate = .ok ()) :
    let store := Store.ofTopology topology settings.options settings.canvas
    let simulation :=
      Simulation.new store.topology store.revision settings.layout.force settings.canvas
    laidOut settings .force topology = .ok (animated settings topology).2 ∧
      Layout.layout topology .force settings.layout settings.canvas =
        .ok (animated settings topology).2.positions ∧
      ∃ last, Shows Layout.maxForceTicks simulation store (animated settings topology).1 last ∧
        last.topology = (animated settings topology).2 := by
  intro store simulation
  have stored : store.topology = topology :=
    Topology.sanitized_of_valid (Topology.validate_eq_ok_iff.1 valid)
  have sound : store.Sound := sound_start (some topology) settings.options settings.canvas
  have about : About simulation store := ⟨Simulation.ids_new .., rfl⟩
  have positive : 0 < Layout.maxForceTicks := by decide
  have settled : (animateFrom 0 simulation store Layout.maxForceTicks).2 =
      (store.place (simulation.runUntilSettled Layout.maxForceTicks).2.positions).2 :=
    animateFrom_of_running sound about rfl 0 positive
  -- The layout runs a simulation of the topology itself, for no revision.
  have placement : (Simulation.new topology 0 settings.layout.force
      settings.canvas).runUntilSettled Layout.maxForceTicks |>.2.positions =
        (simulation.runUntilSettled Layout.maxForceTicks).2.positions := by
    have again : simulation = (Simulation.new topology 0 settings.layout.force
        settings.canvas).forRevision store.revision := by
      simp only [simulation, stored]
      rfl
    rw [again, Simulation.runUntilSettled, Simulation.runUntilSettled,
      Simulation.runFrom_forRevision store.revision _ _ none none]
    rfl
  have covers : (simulation.runUntilSettled Layout.maxForceTicks).2.positions.map (·.1) =
      store.ids := by
    have bodies := Simulation.sameBodies_runFrom none simulation Layout.maxForceTicks
    exact (Simulation.map_fst_positions _).trans (bodies.ids.trans about.ids)
  have animatedTo : (animated settings topology).2 =
      (store.place (simulation.runUntilSettled Layout.maxForceTicks).2.positions).2.topology :=
    congrArg Store.topology settled
  refine ⟨?_, ?_, ?_⟩
  · rw [laidOut, Layout.layout, animatedTo, ← placement]
  · rw [Layout.layout, animatedTo, positions_place sound.valid.uniqueIds covers, ← placement]
  · have room : simulation.ticks.toNat + Layout.maxForceTicks = Layout.maxForceTicks :=
      Nat.zero_add _
    obtain ⟨count, counted, shows⟩ := shows_animateFrom (by decide) room store 0
    rw [Nat.zero_add] at counted
    have fresh : stoppedAt Layout.maxForceTicks simulation = simulation :=
      if_neg (Nat.not_le.2 positive)
    rw [fresh, ← counted] at shows
    exact ⟨_, shows, rfl⟩

/-- Two nodes at one place, a third one, and a link. -/
def crowded : Topology Float where
  id := 0
  name := "crowded"
  origin := .custom
  nodes := [.plain ⟨"a"⟩ "a", .plain ⟨"b"⟩ "b",
    { Node.plain ⟨"c"⟩ "c" with position := ⟨100.0, 0.0⟩ }]
  edges := [⟨⟨"a"⟩, ⟨"c"⟩⟩]

theorem laidOut_eq_animated_crowded :
    crowded.validate = .ok () ∧
      laidOut .standard .force crowded = .ok (animated .standard crowded).2 := by
  have valid : crowded.validate = .ok () := by decide +kernel
  exact ⟨valid, (laidOut_eq_animated .standard valid).1⟩

end CommandLine

end PeerNet
