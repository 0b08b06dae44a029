import Mathlib.Algebra.Order.Archimedean.Basic
import Mathlib.Order.Lattice.Nat
import Mathlib.Order.Bounds.Basic
import Mathlib.Tactic.IntervalCases
import Mathlib.Tactic.Ring
import PeerNet.Proofs.Config.Validity
import PeerNet.Proofs.Exact
import PeerNet.Proofs.Layout.Drags

/-!
# The energy of a simulation

Over exact scalars the energy falls with every tick by a fixed share of what it is above its
target. While no node is pinned the target is zero, so that a simulation settles after a number
of ticks that only its energy and its settings tell. A held node keeps the target up, and the
energy never falls below it.
-/

set_option autoImplicit false

namespace PeerNet

namespace SimulationOperation

/-- True of the operations that stop a simulation at once. -/
def halts {R : Type} : SimulationOperation R → Bool
  | .stop | .rest => true
  | _ => false

end SimulationOperation

variable {R : Type}

section

variable [Scalar R]

namespace Simulation

theorem settings_tick (simulation : Simulation R) :
    simulation.tick.2.settings = simulation.settings := by
  unfold tick
  split
  · rfl
  · rfl

theorem alpha_tick {simulation : Simulation R} (running : simulation.running = true) :
    simulation.tick.2.alpha = simulation.cooled := by
  rw [tick, running]
  rfl

/-- A tick that leaves too little energy is the last one. -/
theorem running_tick {simulation : Simulation R} (running : simulation.running = true) :
    simulation.tick.2.running = !decide (simulation.cooled < simulation.settings.alphaMin) := by
  rw [tick, running]
  rfl

/-- Ticks and nothing else. -/
def ticked (simulation : Simulation R) (count : Nat) : Simulation R :=
  simulation.run (List.replicate count .tick)

theorem ticked_succ (simulation : Simulation R) (count : Nat) :
    simulation.ticked (count + 1) = simulation.tick.2.ticked count :=
  rfl

theorem ticked_of_stopped {simulation : Simulation R} (stopped : simulation.running = false)
    (count : Nat) : simulation.ticked count = simulation := by
  induction count with
  | zero => rfl
  | succ count ih => rw [ticked_succ, tick_of_stopped stopped, ih]

end Simulation

end

variable [ExactScalar R]

/-- What accepted settings ask of the numbers that the energy depends on. -/
structure ForceSettings.Cools (settings : ForceSettings R) : Prop where
  decay_pos : 0 < settings.alphaDecay
  decay_lt : settings.alphaDecay < 1
  least_pos : 0 < settings.alphaMin
  target_nonneg : 0 ≤ settings.dragAlphaTarget

theorem ForceSettings.cools_of_validate {settings : ForceSettings R}
    (accepted : settings.validate = .ok ()) : settings.Cools := by
  obtain ⟨⟨decayPos, decayLt⟩, ⟨leastPos, _⟩, _, _, target, _⟩ :=
    ForceSettings.validate_eq_ok_iff.1 accepted
  rw [ExactScalar.zero_eq] at decayPos leastPos target
  rw [ExactScalar.one_eq] at decayLt
  exact ⟨decayPos, decayLt, leastPos, target⟩

namespace Simulation

/-- A simulation with given settings whose energy and its target are not negative. -/
structure Tempered (settings : ForceSettings R) (simulation : Simulation R) : Prop where
  configured : simulation.settings = settings
  alpha : 0 ≤ simulation.alpha
  target : 0 ≤ simulation.alphaTarget

theorem cooled_eq (simulation : Simulation R) :
    simulation.cooled = simulation.alpha * (1 - simulation.settings.alphaDecay) +
      simulation.alphaTarget * simulation.settings.alphaDecay := by
  rw [cooled]
  ring

theorem Tempered.tick {settings : ForceSettings R} (cools : settings.Cools)
    {simulation : Simulation R} (tempered : simulation.Tempered settings) :
    simulation.tick.2.Tempered settings := by
  cases running : simulation.running with
  | false =>
    rw [tick_of_stopped running]
    exact tempered
  | true =>
    refine ⟨(settings_tick simulation).trans tempered.configured, ?_, ?_⟩
    · rw [alpha_tick running, cooled_eq, tempered.configured]
      have kept : 0 ≤ 1 - settings.alphaDecay := sub_nonneg.2 cools.decay_lt.le
      exact add_nonneg (mul_nonneg tempered.alpha kept)
        (mul_nonneg tempered.target cools.decay_pos.le)
    · rw [alphaTarget_tick]
      exact tempered.target

theorem Tempered.reheat {settings : ForceSettings R} {simulation : Simulation R}
    (tempered : simulation.Tempered settings) (alpha : R) :
    (simulation.reheat alpha).Tempered settings := by
  refine ⟨tempered.configured, ?_, tempered.target⟩
  rw [Simulation.reheat, ExactScalar.larger_eq]
  exact le_max_of_le_left tempered.alpha

theorem Tempered.dragStart {settings : ForceSettings R} (cools : settings.Cools)
    {simulation : Simulation R} (tempered : simulation.Tempered settings) (id : NodeId) :
    (simulation.dragStart id).2.Tempered settings := by
  unfold Simulation.dragStart
  split
  · exact tempered
  · next place _ =>
    have pinned : Tempered settings { simulation with
        bodies := simulation.bodies.modify place fun body => { body with pin := some body.position }
        alphaTarget := simulation.settings.dragAlphaTarget } :=
      ⟨tempered.configured, tempered.alpha, tempered.configured ▸ cools.target_nonneg⟩
    exact pinned.reheat _

theorem Tempered.dragEnd {settings : ForceSettings R} {simulation : Simulation R}
    (tempered : simulation.Tempered settings) (id : NodeId) :
    (simulation.dragEnd id).2.Tempered settings := by
  unfold Simulation.dragEnd
  split
  · exact tempered
  · refine ⟨tempered.configured, tempered.alpha, ?_⟩
    dsimp only
    split
    · exact ExactScalar.zero_eq.ge
    · exact tempered.target

theorem Tempered.apply {settings : ForceSettings R} (cools : settings.Cools)
    {simulation : Simulation R} (tempered : simulation.Tempered settings)
    (operation : SimulationOperation R) : (simulation.apply operation).Tempered settings := by
  cases operation with
  | tick => exact tempered.tick cools
  | runUntilSettled limit =>
    exact runFrom_induction (fun _ before => before.tick cools) tempered none limit
  | dragStart id => exact tempered.dragStart cools id
  | dragTo id position =>
    change (simulation.dragTo id position).2.Tempered settings
    unfold Simulation.dragTo
    split
    · exact tempered
    · exact ⟨tempered.configured, tempered.alpha, tempered.target⟩
  | dragEnd id => exact tempered.dragEnd id
  | stop => exact ⟨tempered.configured, tempered.alpha, tempered.target⟩
  | rest => exact ⟨tempered.configured, ExactScalar.zero_eq.ge, ExactScalar.zero_eq.ge⟩
  | reheat alpha => exact tempered.reheat alpha

theorem tempered_new {settings : ForceSettings R} (topology : Topology R) (revision : UInt64)
    (canvas : Canvas R) : (new topology revision settings canvas).Tempered settings := by
  refine ⟨rfl, ?_, ExactScalar.zero_eq.ge⟩
  change 0 ≤ (1.0 : R)
  rw [ExactScalar.one_eq]
  exact zero_le_one

theorem Tempered.run {settings : ForceSettings R} (cools : settings.Cools)
    {simulation : Simulation R} (tempered : simulation.Tempered settings)
    (operations : List (SimulationOperation R)) : (simulation.run operations).Tempered settings := by
  induction operations generalizing simulation with
  | nil => exact tempered
  | cons operation rest ih => exact ih (tempered.apply cools operation)

/-! ## Without a pinned node -/

/-- The numbers of ticks, at least one, that leave less than the least energy. -/
def Exhausting (alpha alphaDecay alphaMin : R) : Set Nat :=
  {ticks | 1 ≤ ticks ∧ alpha * (1 - alphaDecay) ^ ticks < alphaMin}

/-- The number of ticks until an energy is exhausted. -/
noncomputable def settlingTime (alpha alphaDecay alphaMin : R) : Nat :=
  sInf (Exhausting alpha alphaDecay alphaMin)

theorem exhausting_nonempty [Archimedean R] {settings : ForceSettings R} (cools : settings.Cools)
    {alpha : R} (nonneg : 0 ≤ alpha) :
    (Exhausting alpha settings.alphaDecay settings.alphaMin).Nonempty := by
  have falls : 1 - settings.alphaDecay < 1 := sub_lt_self 1 cools.decay_pos
  have kept : 0 ≤ 1 - settings.alphaDecay := sub_nonneg.2 cools.decay_lt.le
  -- The energy itself may be zero.
  have positive : 0 < alpha + 1 := add_pos_of_nonneg_of_pos nonneg zero_lt_one
  obtain ⟨count, small⟩ := exists_pow_lt_of_lt_one (div_pos cools.least_pos positive) falls
  refine ⟨count + 1, Nat.le_add_left 1 count, ?_⟩
  calc alpha * (1 - settings.alphaDecay) ^ (count + 1)
      ≤ (alpha + 1) * (1 - settings.alphaDecay) ^ count :=
        mul_le_mul (le_add_of_nonneg_right zero_le_one)
          (pow_le_pow_of_le_one kept falls.le (Nat.le_succ count)) (pow_nonneg kept _) positive.le
    _ < settings.alphaMin := by rwa [lt_div_iff₀' positive] at small

/-- A running simulation whose target is zero goes on until its energy is exhausted. -/
theorem running_ticked_iff {settings : ForceSettings R} {simulation : Simulation R}
    (configured : simulation.settings = settings) (cold : simulation.alphaTarget = 0)
    (running : simulation.running = true) (count : Nat) :
    (simulation.ticked count).running = true ↔
      ∀ ticks ∈ Exhausting simulation.alpha settings.alphaDecay settings.alphaMin,
        count < ticks := by
  induction count generalizing simulation with
  | zero => exact iff_of_true running fun ticks exhausting => exhausting.1
  | succ count ih =>
    have cooled : simulation.cooled = simulation.alpha * (1 - settings.alphaDecay) := by
      rw [cooled_eq, cold, configured, zero_mul, add_zero]
    have next := running_tick running
    rw [cooled, configured] at next
    rw [ticked_succ]
    by_cases last : simulation.alpha * (1 - settings.alphaDecay) < settings.alphaMin
    · rw [decide_eq_true last] at next
      rw [ticked_of_stopped next, next]
      refine iff_of_false Bool.false_ne_true fun later => ?_
      exact absurd (later 1 ⟨le_rfl, by rwa [pow_one]⟩) (by omega)
    · rw [decide_eq_false last] at next
      rw [ih ((settings_tick simulation).trans configured)
        ((alphaTarget_tick simulation).trans cold) next, alpha_tick running, cooled]
      -- One tick is done, and it has not exhausted the energy.
      constructor
      · rintro later ticks ⟨positive, exhausted⟩
        obtain ⟨ticks, rfl⟩ := Nat.exists_eq_succ_of_ne_zero (Nat.ne_of_gt positive)
        rcases Nat.eq_zero_or_pos ticks with rfl | more
        · exact absurd (by simpa using exhausted) last
        · have left : count < ticks := later ticks ⟨more, by rwa [mul_assoc, ← pow_succ']⟩
          omega
      · rintro later ticks ⟨positive, exhausted⟩
        have left : count + 1 < ticks + 1 :=
          later (ticks + 1) ⟨by omega, by rwa [pow_succ', ← mul_assoc]⟩
        omega

/-- With accepted settings a simulation in which no node is pinned settles. It does so after
the least number of ticks, at least one, that leaves less than the least energy, and after no
tick at all if it has stopped: nothing but its energy, the decay and the least energy tells this
number. -/
theorem settles_after_settlingTime [Archimedean R] {settings : ForceSettings R}
    (accepted : settings.validate = .ok ()) (topology : Topology R) (revision : UInt64)
    (canvas : Canvas R) (operations : List (SimulationOperation R)) :
    let simulation := (new topology revision settings canvas).run operations
    let count := if simulation.running then
      settlingTime simulation.alpha settings.alphaDecay settings.alphaMin else 0
    simulation.Free →
      (∀ ticks, (simulation.ticked ticks).running = false ↔ count ≤ ticks) ∧
        (simulation.running = true →
          IsLeast {ticks | 1 ≤ ticks ∧
            simulation.alpha * (1 - settings.alphaDecay) ^ ticks < settings.alphaMin} count) := by
  intro simulation count free
  have cools := ForceSettings.cools_of_validate accepted
  have tempered : simulation.Tempered settings :=
    (tempered_new topology revision canvas).run cools operations
  have anchored : simulation.Anchored :=
    (anchored_new topology revision settings canvas).run operations
  have cold : simulation.alphaTarget = 0 := (anchored.cools free).trans ExactScalar.zero_eq
  cases running : simulation.running with
  | false =>
    refine ⟨fun ticks => ?_, fun goes => by cases goes⟩
    have none : count = 0 := if_neg (by rw [running]; exact Bool.false_ne_true)
    rw [ticked_of_stopped running, none]
    exact iff_of_true running (Nat.zero_le ticks)
  | true =>
    have settling : count = settlingTime simulation.alpha settings.alphaDecay settings.alphaMin :=
      if_pos running
    have least : IsLeast (Exhausting simulation.alpha settings.alphaDecay settings.alphaMin)
        count := by
      rw [settling]
      exact ⟨Nat.sInf_mem (exhausting_nonempty cools tempered.alpha), fun _ => Nat.sInf_le⟩
    refine ⟨fun ticks => ?_, fun _ => least⟩
    rw [← Bool.not_eq_true, running_ticked_iff tempered.configured cold running, ← not_lt]
    exact not_congr ⟨fun later => later count least.1, fun early other exhausting =>
      early.trans_le (least.2 exhausting)⟩

/-- Settings under which the energy halves with every tick. -/
def halving : ForceSettings ℚ :=
  { ForceSettings.standard with alphaDecay := 0.5, alphaMin := 0.1 }

theorem settles_after_settlingTime_halving :
    let simulation := (new (chained ℚ) 0 halving .standard).run
      [.tick, .dragStart ⟨"b"⟩, .dragTo ⟨"b"⟩ ⟨5.0, 6.0⟩, .tick, .dragEnd ⟨"b"⟩, .reheat 0.5]
    halving.validate = .ok () ∧ simulation.Free ∧ simulation.running = true ∧
      simulation.alpha = 1 / 2 ∧
      ∀ ticks, (simulation.ticked ticks).running = false ↔ 3 ≤ ticks := by
  intro simulation
  have accepted : halving.validate = .ok () := by decide +kernel
  have free : simulation.Free := by decide +kernel
  have running : simulation.running = true := by decide +kernel
  have alpha : simulation.alpha = 1 / 2 := by decide +kernel
  obtain ⟨settles, least⟩ := settles_after_settlingTime accepted (chained ℚ) 0 .standard
    [.tick, .dragStart ⟨"b"⟩, .dragTo ⟨"b"⟩ ⟨5.0, 6.0⟩, .tick, .dragEnd ⟨"b"⟩, .reheat 0.5] free
  have three : IsLeast {ticks | 1 ≤ ticks ∧
      simulation.alpha * (1 - halving.alphaDecay) ^ ticks < halving.alphaMin} 3 := by
    rw [alpha]
    refine ⟨⟨by decide, by decide +kernel⟩, fun ticks exhausting => ?_⟩
    by_contra! fewer
    obtain ⟨positive, exhausted⟩ := exhausting
    interval_cases ticks
    · exact absurd exhausted (by decide +kernel)
    · exact absurd exhausted (by decide +kernel)
  rw [(least running).unique three] at settles
  exact ⟨accepted, free, running, alpha, settles⟩

/-! ## With a held node -/

omit [ExactScalar R] in
theorem Holds.not_free {simulation : Simulation R} {id : NodeId} {position : Point R}
    (holds : simulation.Holds id position) (known : id ∈ simulation.ids) : ¬simulation.Free := by
  intro free
  obtain ⟨body, member, named⟩ := List.mem_map.1 known
  have pinned := holds body member named
  rw [free body member] at pinned
  cases pinned

/-- A running simulation with at least the energy that drags keep it at. -/
structure Warm (settings : ForceSettings R) (simulation : Simulation R) : Prop where
  configured : simulation.settings = settings
  target : simulation.alphaTarget = settings.dragAlphaTarget
  alpha : settings.dragAlphaTarget ≤ simulation.alpha
  running : simulation.running = true

/-- Cooling toward a target does not lead below it. -/
theorem Warm.cooled {settings : ForceSettings R} (cools : settings.Cools)
    {simulation : Simulation R} (warm : simulation.Warm settings) :
    settings.dragAlphaTarget ≤ simulation.cooled := by
  have kept : 0 ≤ 1 - settings.alphaDecay := sub_nonneg.2 cools.decay_lt.le
  rw [cooled_eq, warm.configured, warm.target]
  calc settings.dragAlphaTarget
      = settings.dragAlphaTarget * (1 - settings.alphaDecay) +
          settings.dragAlphaTarget * settings.alphaDecay := by ring
    _ ≤ simulation.alpha * (1 - settings.alphaDecay) +
          settings.dragAlphaTarget * settings.alphaDecay :=
        add_le_add_left (mul_le_mul_of_nonneg_right warm.alpha kept) _

theorem Warm.tick {settings : ForceSettings R} (cools : settings.Cools)
    (lasting : settings.alphaMin ≤ settings.dragAlphaTarget) {simulation : Simulation R}
    (warm : simulation.Warm settings) : simulation.tick.2.Warm settings := by
  have cooled := warm.cooled cools
  refine ⟨(settings_tick simulation).trans warm.configured,
    (alphaTarget_tick simulation).trans warm.target, ?_, ?_⟩
  · rwa [alpha_tick warm.running]
  · rw [running_tick warm.running, warm.configured,
      decide_eq_false (not_lt.2 (lasting.trans cooled))]
    rfl

/-- The start of a drag warms a simulation, whatever energy is left. -/
theorem warm_dragStart {settings : ForceSettings R} {simulation : Simulation R}
    (configured : simulation.settings = settings) {id : NodeId}
    (started : (simulation.dragStart id).1 = true) :
    (simulation.dragStart id).2.Warm settings := by
  unfold dragStart at started ⊢
  split at started
  · cases started
  · refine ⟨configured, congrArg (·.dragAlphaTarget) configured, ?_, rfl⟩
    change settings.dragAlphaTarget ≤
      Scalar.larger simulation.alpha simulation.settings.dragAlphaTarget
    rw [ExactScalar.larger_eq, configured]
    exact le_max_right _ _

theorem Warm.dragStart {settings : ForceSettings R} {simulation : Simulation R}
    (warm : simulation.Warm settings) (id : NodeId) :
    (simulation.dragStart id).2.Warm settings := by
  cases started : (simulation.dragStart id).1 with
  | true => exact warm_dragStart warm.configured started
  | false =>
    unfold Simulation.dragStart at started ⊢
    split at started
    · exact warm
    · cases started

theorem Warm.dragTo {settings : ForceSettings R} {simulation : Simulation R}
    (warm : simulation.Warm settings) (id : NodeId) (position : Point R) :
    (simulation.dragTo id position).2.Warm settings := by
  unfold Simulation.dragTo
  split
  · exact warm
  · exact ⟨warm.configured, warm.target, warm.alpha, warm.running⟩

/-- The end of a drag leaves the target as it is while a node is pinned. -/
theorem Warm.dragEnd {settings : ForceSettings R} {simulation : Simulation R}
    (warm : simulation.Warm settings) {id : NodeId} (held : ¬(simulation.dragEnd id).2.Free) :
    (simulation.dragEnd id).2.Warm settings := by
  unfold Simulation.dragEnd at held ⊢
  split at held
  · exact warm
  · refine ⟨warm.configured, (if_neg fun all => held fun body member => ?_).trans warm.target,
      warm.alpha, warm.running⟩
    exact Option.isNone_iff_eq_none.1 (List.all_eq_true.1 all body member)

theorem Warm.reheat {settings : ForceSettings R} {simulation : Simulation R}
    (warm : simulation.Warm settings) (alpha : R) : (simulation.reheat alpha).Warm settings := by
  refine ⟨warm.configured, warm.target, ?_, rfl⟩
  rw [Simulation.reheat, ExactScalar.larger_eq]
  exact le_max_of_le_left warm.alpha

theorem Warm.apply {settings : ForceSettings R} (cools : settings.Cools)
    (lasting : settings.alphaMin ≤ settings.dragAlphaTarget) {simulation : Simulation R}
    (warm : simulation.Warm settings) {operation : SimulationOperation R}
    (going : operation.halts = false) (held : ¬(simulation.apply operation).Free) :
    (simulation.apply operation).Warm settings := by
  cases operation with
  | tick => exact warm.tick cools lasting
  | runUntilSettled limit =>
    exact runFrom_induction (fun _ before => before.tick cools lasting) warm none limit
  | dragStart id => exact warm.dragStart id
  | dragTo id position => exact warm.dragTo id position
  | dragEnd id => exact warm.dragEnd held
  | reheat alpha => exact warm.reheat alpha
  | stop | rest => cases going

/-- A simulation that is warm stays so as long as a node is held and nothing stops it. -/
theorem Warm.run {settings : ForceSettings R} (cools : settings.Cools)
    (lasting : settings.alphaMin ≤ settings.dragAlphaTarget) {simulation : Simulation R}
    (warm : simulation.Warm settings) (anchored : simulation.Anchored)
    (distinct : simulation.ids.Nodup) {id : NodeId} (known : id ∈ simulation.ids)
    {position : Point R} (holds : simulation.Holds id position)
    {operations : List (SimulationOperation R)}
    (kept : ∀ operation ∈ operations, operation.releases id = false ∧ operation.halts = false) :
    (simulation.run operations).Warm settings := by
  induction operations generalizing simulation position with
  | nil => exact warm
  | cons operation rest ih =>
    obtain ⟨unreleased, going⟩ := kept operation List.mem_cons_self
    have same := sameBodies_apply simulation operation
    have still := holds.apply anchored distinct unreleased
    have knownStill : id ∈ (simulation.apply operation).ids := same.ids ▸ known
    exact ih (warm.apply cools lasting going (still.not_free knownStill)) (anchored.apply operation)
      (same.ids ▸ distinct) knownStill still
      fun other member => kept other (List.mem_cons_of_mem operation member)

/-- With accepted settings whose drag target is not below the least energy, a simulation over
nodes with different ids does not settle from the successful start of a drag on, whatever else
happens, until the drag ends or the simulation is stopped: it is running, and the next tick
gives a frame. -/
theorem held_drag_keeps_ticking {settings : ForceSettings R}
    (accepted : settings.validate = .ok ())
    (lasting : settings.alphaMin ≤ settings.dragAlphaTarget) {topology : Topology R}
    (distinct : (topology.nodes.map (·.id)).Nodup) (revision : UInt64) (canvas : Canvas R)
    (before during : List (SimulationOperation R)) (id : NodeId) :
    let reached := (new topology revision settings canvas).run before
    let held := reached.run (.dragStart id :: during)
    (reached.dragStart id).1 = true →
      (∀ operation ∈ during, operation.releases id = false ∧ operation.halts = false) →
      held.running = true ∧ held.tick.1 = some held.tick.2.frame := by
  intro reached held started kept
  have cools := ForceSettings.cools_of_validate accepted
  have configured : reached.settings = settings :=
    ((tempered_new topology revision canvas).run cools before).configured
  have anchored : reached.Anchored := (anchored_new topology revision settings canvas).run before
  have apart : reached.ids.Nodup := by
    rw [(sameBodies_run _ before).ids, ids_new]
    exact distinct
  have taken : reached.takesHold id (.dragStart id) = true :=
    takesHold_dragStart.2 ⟨rfl, started⟩
  have known : id ∈ reached.ids := mem_ids_of_takesHold taken
  obtain ⟨body, member, rfl⟩ := List.mem_map.1 known
  have holds := holds_of_takesHold apart taken (lookup_positions apart member)
  have same := sameBodies_apply reached (.dragStart body.id)
  have warm : held.Warm settings :=
    (warm_dragStart configured started).run cools lasting (anchored.apply (.dragStart body.id))
      (same.ids ▸ apart) (same.ids ▸ known) holds kept
  exact ⟨warm.running, tick_of_running warm.running⟩

theorem held_drag_keeps_ticking_stopped :
    let settings : ForceSettings ℚ := .standard
    let reached := (new (chained ℚ) 0 settings .standard).run [.tick, .dragStart ⟨"a"⟩, .rest]
    let during : List (SimulationOperation ℚ) := [.tick, .dragEnd ⟨"a"⟩, .dragStart ⟨"c"⟩,
      .dragTo ⟨"b"⟩ ⟨5.0, 6.0⟩, .reheat 0.1, .tick, .dragEnd ⟨"c"⟩]
    let held := reached.run (.dragStart ⟨"b"⟩ :: during)
    settings.validate = .ok () ∧ settings.alphaMin ≤ settings.dragAlphaTarget ∧
      ((chained ℚ).nodes.map (·.id)).Nodup ∧ (reached.dragStart ⟨"b"⟩).1 = true ∧
      held.running = true ∧ held.tick.1 = some held.tick.2.frame := by
  intro settings reached during held
  have accepted : settings.validate = .ok () := by decide +kernel
  have lasting : settings.alphaMin ≤ settings.dragAlphaTarget := by decide +kernel
  have distinct : ((chained ℚ).nodes.map (·.id)).Nodup := by decide
  have started : (reached.dragStart ⟨"b"⟩).1 = true := by decide +kernel
  have kept := held_drag_keeps_ticking accepted lasting distinct 0 .standard
    [.tick, .dragStart ⟨"a"⟩, .rest] during ⟨"b"⟩ started (by decide)
  exact ⟨accepted, lasting, distinct, started, kept⟩

end Simulation

end PeerNet
