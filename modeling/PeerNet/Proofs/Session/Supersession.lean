import PeerNet.Proofs.Session.Wizard

/-!
# Deliveries of preset loads

What was read for a ticket may be delivered at any time, and more than once. A
delivery is taken up only at the selection, with something to import, and while
nothing has superseded its ticket. To take it up does not supersede the ticket, so
that a step back from the preview or from the editor opens it to another delivery.
-/

set_option autoImplicit false

namespace PeerNet

/-- True of the steps behind the selection, where a preset was taken up or a
topology is open. -/
def Step.isPastSelection : Step → Bool
  | .presetInfo | .editGraph => true
  | .chooseStart | .selectPreset => false

namespace Session

open GraphML (Ticket)

variable {R : Type}

/-! ## Single deliveries -/

theorem requestPreset_issues {session : Session R} {name : String} {ticket : Ticket}
    (requested : (session.requestPreset name).1 = some ticket) :
    (session.requestPreset name).2.step = .selectPreset ∧
      (session.requestPreset name).2.presets.generation = ticket.generation := by
  by_cases selecting : session.step = .selectPreset
  · rw [requestPreset, if_pos selecting] at requested ⊢
    cases requested
    exact ⟨selecting, rfl⟩
  · rw [requestPreset, if_neg selecting] at requested
    cases requested

theorem complete?_eq_some_iff {presets : GraphML.Presets} {ticket : Ticket} {read : Partial R}
    {topology : Topology R} :
    presets.complete? ticket read = some topology ↔
      presets.generation = ticket.generation ∧ read.isEmpty = false ∧
        read.toTopology 0 ticket.name (.prebuilt ticket.name) = topology := by
  have current : presets.isCurrent ticket = true ↔ presets.generation = ticket.generation :=
    decide_eq_true_iff.trans eq_comm
  rw [GraphML.Presets.complete?, Option.ite_none_right_eq_some, Bool.and_eq_true_iff, current,
    Bool.not_eq_true', Option.some_inj, and_assoc]

theorem completePreset_iff (session : Session R) (ticket : Ticket) (read : Partial R) :
    (session.completePreset ticket read).1 = true ↔
      session.step = .selectPreset ∧ read.isEmpty = false ∧
        session.presets.generation = ticket.generation := by
  constructor
  · intro accepted
    rcases session.completePreset_cases ticket read with
      refused | ⟨topology, selecting, completed, _⟩
    · rw [refused] at accepted
      cases accepted
    · obtain ⟨same, filled, _⟩ := complete?_eq_some_iff.1 completed
      exact ⟨selecting, filled, same⟩
  · rintro ⟨selecting, filled, same⟩
    rw [completePreset, if_pos selecting, complete?_eq_some_iff.2 ⟨same, filled, rfl⟩]

theorem completePreset_of_accepted {session : Session R} {ticket : Ticket} {read : Partial R}
    (accepted : (session.completePreset ticket read).1 = true) :
    (session.completePreset ticket read).2 =
      { session with
        preview := some (read.toTopology 0 ticket.name (.prebuilt ticket.name))
        step := .presetInfo } := by
  rcases session.completePreset_cases ticket read with refused | ⟨topology, _, completed, taken⟩
  · rw [refused] at accepted
    cases accepted
  · obtain ⟨_, _, rfl⟩ := complete?_eq_some_iff.1 completed
    rw [taken]

theorem completePreset_of_refused {session : Session R} {ticket : Ticket} {read : Partial R}
    (refused : (session.completePreset ticket read).1 = false) :
    (session.completePreset ticket read).2 = session := by
  rcases session.completePreset_cases ticket read with unchanged | ⟨_, _, _, taken⟩
  · rw [unchanged]
  · rw [taken] at refused
    cases refused

section

variable [Scalar R] [NumberText R]

theorem generation_run_iff (session : Session R) (operations : List (SessionOperation R)) :
    (session.run operations).presets.generation = session.presets.generation ↔
      session.supersessions operations % UInt64.size = 0 := by
  rw [generation_run, add_ofNat_eq_self]

/-- However requests, steps back and deliveries follow each other, what was read for a
ticket is taken up exactly at the selection, if there is something to import and
no request and no step back from the selection has superseded the ticket, in so
far as the generations tell. They do unless `2 ^ 64` supersessions bring the counter round. The
preview is then what was read, and a delivery that is refused changes nothing. -/
theorem delivery_taken_up_iff (session : Session R) (name : String) (ticket : Ticket)
    (after : List (SessionOperation R)) (read : Partial R) :
    let issued := (session.requestPreset name).2
    let later := issued.run after
    (session.requestPreset name).1 = some ticket →
      ((later.completePreset ticket read).1 = true ↔
        later.step = .selectPreset ∧ read.isEmpty = false ∧
          issued.supersessions after % UInt64.size = 0) ∧
      (issued.supersessions after < UInt64.size →
        (later.completePreset ticket read).1 = true → issued.supersessions after = 0) ∧
      ((later.completePreset ticket read).1 = true →
        (later.completePreset ticket read).2 =
          { later with
            preview := some
              { id := 0, name := ticket.name, origin := .prebuilt ticket.name,
                nodes := read.nodes, edges := read.edges }
            step := .presetInfo }) ∧
      ((later.completePreset ticket read).1 = false →
        (later.completePreset ticket read).2 = later) := by
  intro issued later requested
  have same : later.presets.generation = ticket.generation ↔
      issued.supersessions after % UInt64.size = 0 := by
    rw [← (requestPreset_issues requested).2]
    exact issued.generation_run_iff after
  have accepted : (later.completePreset ticket read).1 = true ↔
      later.step = .selectPreset ∧ read.isEmpty = false ∧
        issued.supersessions after % UInt64.size = 0 := by
    rw [completePreset_iff, same]
  refine ⟨accepted, fun few taken => ?_, completePreset_of_accepted, completePreset_of_refused⟩
  rw [← Nat.mod_eq_of_lt few]
  exact (accepted.1 taken).2.2

/-- A ticket is taken up after an empty delivery of it, but not after another request. -/
theorem delivery_taken_up_iff_outstanding :
    let selecting := (new (.standard : Settings Float) {} []).run [.browse]
    let issued := (selecting.requestPreset "trio").2
    let ticket : Ticket := ⟨"trio", selecting.presets.pathOf "trio", 1⟩
    let read : Partial Float := ⟨[.plain ⟨"a"⟩ "a"], []⟩
    let retried := issued.run [.completePreset ticket {}]
    let superseded := issued.run [.requestPreset "duo"]
    (selecting.requestPreset "trio").1 = some ticket ∧
      (retried.completePreset ticket read).1 = true ∧
      (retried.completePreset ticket read).2.preview =
        some { id := 0, name := "trio", origin := .prebuilt "trio", nodes := read.nodes } ∧
      (superseded.completePreset ticket read).2 = superseded := by
  intro selecting issued ticket read retried superseded
  have requested : (selecting.requestPreset "trio").1 = some ticket := by decide +kernel
  obtain ⟨taken, -, shown, -⟩ := delivery_taken_up_iff selecting "trio" ticket
    [.completePreset ticket {}] read requested
  obtain ⟨refused, -, -, unchanged⟩ := delivery_taken_up_iff selecting "trio" ticket
    [.requestPreset "duo"] read requested
  have accepted := taken.2 (by decide +kernel)
  have counted : issued.supersessions [.requestPreset "duo"] % UInt64.size ≠ 0 := by
    decide +kernel
  refine ⟨requested, accepted, by rw [shown accepted], unchanged ?_⟩
  exact Bool.eq_false_iff.2 fun again => counted (refused.1 again).2.2

/-! ## Repeated deliveries -/

/-- True of an operation that delivers a ticket and is taken up. -/
def takesUp (ticket : Ticket) (session : Session R) : SessionOperation R → Bool
  | .completePreset other read =>
    decide (other = ticket) && (session.completePreset other read).1
  | _ => false

/-- The number of deliveries of a ticket that a run takes up. -/
def deliveries (session : Session R) (ticket : Ticket)
    (operations : List (SessionOperation R)) : Nat :=
  tally apply (takesUp ticket) session operations

/-- True of a step back from behind the selection. -/
def returns (session : Session R) : SessionOperation R → Bool
  | .back => session.step.isPastSelection
  | _ => false

/-- The number of steps back, in a run, from the preview or from the editor. -/
def returnings (session : Session R) (operations : List (SessionOperation R)) : Nat :=
  tally apply returns session operations

omit [Scalar R] [NumberText R] in
theorem takesUp_spec {session : Session R} {ticket : Ticket} {operation : SessionOperation R}
    (taken : session.takesUp ticket operation = true) :
    ∃ read, operation = .completePreset ticket read ∧
      (session.completePreset ticket read).1 = true := by
  cases operation with
  | completePreset other read =>
    obtain ⟨same, accepted⟩ := Bool.and_eq_true_iff.1 taken
    obtain rfl := of_decide_eq_true same
    exact ⟨read, rfl, accepted⟩
  | _ => cases taken

omit [NumberText R] in
theorem step_openFromStart_of_past {session : Session R}
    (past : session.step.isPastSelection = true) (topology : Topology R) (laidOut : Bool) :
    (session.openFromStart topology laidOut).2.step = session.step := by
  rcases session.openFromStart_cases topology laidOut with refused | ⟨start, _⟩
  · rw [refused]
  · rw [start] at past
    cases past

omit [NumberText R] in
theorem past_confirmPreset {session : Session R} (past : session.step.isPastSelection = true) :
    session.confirmPreset.2.step.isPastSelection = true := by
  rcases session.confirmPreset_cases with refused | ⟨topology, _, _, opened⟩
  · rw [refused]
    exact past
  · rw [opened,
      (sameWizard_openTopology { session with preview := none, step := .editGraph } _ _).step]
    rfl

/-- Only a step back leaves the steps behind the selection. -/
theorem past_apply {session : Session R} (past : session.step.isPastSelection = true)
    {operation : SessionOperation R} (onward : session.returns operation = false) :
    (session.apply operation).step.isPastSelection = true := by
  have unselecting : session.step ≠ .selectPreset := by
    intro selecting
    rw [selecting] at past
    cases past
  cases editing : operation.isEditing with
  | true => rw [(session.sameWizard_apply editing).step, past]
  | false =>
    cases operation with
    | startFromScratch | openCustom | openSaved =>
      exact (congrArg _ (step_openFromStart_of_past past _ _)).trans past
    | browse =>
      have unstarted : session.step ≠ .chooseStart := by
        intro start
        rw [start] at past
        cases past
      simpa [apply, browse, unstarted] using past
    | requestPreset name => simpa [apply, requestPreset, unselecting] using past
    | completePreset ticket read => simpa [apply, completePreset, unselecting] using past
    | loadPreset name => simpa [apply, loadPreset, requestPreset, unselecting] using past
    | confirmPreset => exact past_confirmPreset past
    | back =>
      change session.step.isPastSelection = false at onward
      rw [past] at onward
      cases onward
    | _ => cases editing

/-- A delivery goes past the selection, and each further one needs a step back
before it. -/
theorem takesUp_le_returns (session : Session R) (ticket : Ticket)
    (operation : SessionOperation R) :
    (session.takesUp ticket operation).toNat + session.step.isPastSelection.toNat ≤
      (session.returns operation).toNat + (session.apply operation).step.isPastSelection.toNat := by
  cases taken : session.takesUp ticket operation with
  | true =>
    obtain ⟨read, rfl, accepted⟩ := takesUp_spec taken
    have selecting : session.step = .selectPreset :=
      ((session.completePreset_iff ticket read).1 accepted).1
    have taken : (session.apply (.completePreset ticket read)).step = .presetInfo :=
      congrArg Session.step (completePreset_of_accepted accepted)
    rw [selecting, taken]
    exact Nat.le_add_left 1 _
  | false =>
    rw [Bool.toNat_false, Nat.zero_add]
    cases past : session.step.isPastSelection with
    | false => exact Nat.zero_le _
    | true =>
      cases back : session.returns operation with
      | true => exact Nat.le_add_right 1 _
      | false => rw [past_apply past back]; exact Nat.le_add_left 1 _

theorem deliveries_le_returnings (session : Session R) (ticket : Ticket)
    (operations : List (SessionOperation R)) :
    session.deliveries ticket operations + session.step.isPastSelection.toNat ≤
      session.returnings operations + 1 := by
  induction operations generalizing session with
  | nil => exact Nat.add_le_add_left (Bool.toNat_le _) 0
  | cons operation rest ih =>
    -- Past the selection the one delivery before the next step back is used up.
    have now := session.takesUp_le_returns ticket operation
    have later := ih (session.apply operation)
    change (session.takesUp ticket operation).toNat +
        (session.apply operation).deliveries ticket rest + _ ≤
      (session.returns operation).toNat + (session.apply operation).returnings rest + 1
    omega

theorem deliveries_of_superseded {session : Session R} {ticket : Ticket}
    {operations : List (SessionOperation R)}
    (stale : ∀ first last, operations = first ++ last →
      (session.run first).presets.generation ≠ ticket.generation) :
    session.deliveries ticket operations = 0 := by
  induction operations generalizing session with
  | nil => rfl
  | cons operation rest ih =>
    have refused : session.takesUp ticket operation = false := by
      refine Bool.eq_false_iff.2 fun taken => ?_
      obtain ⟨read, rfl, accepted⟩ := takesUp_spec taken
      exact stale [] _ rfl ((session.completePreset_iff ticket read).1 accepted).2.2
    have later : (session.apply operation).deliveries ticket rest = 0 :=
      ih fun first last split => stale (operation :: first) last (congrArg _ split)
    change (session.takesUp ticket operation).toNat +
      (session.apply operation).deliveries ticket rest = 0
    rw [refused, later]
    rfl

theorem supersessions_append (session : Session R) (first last : List (SessionOperation R)) :
    session.supersessions (first ++ last) =
      session.supersessions first + (session.run first).supersessions last :=
  tally_append apply supersedes session first last

theorem deliveries_append (session : Session R) (ticket : Ticket)
    (first last : List (SessionOperation R)) :
    session.deliveries ticket (first ++ last) =
      session.deliveries ticket first + (session.run first).deliveries ticket last :=
  tally_append apply (takesUp ticket) session first last

/-- A ticket is taken up at most once more than the user steps back from the preview
or from the editor, and no more once it is superseded. Until then it is taken up
whenever it is delivered at the selection, also if it was before. -/
theorem deliveries_of_ticket (session : Session R) (name : String) (ticket : Ticket) :
    let issued := (session.requestPreset name).2
    (session.requestPreset name).1 = some ticket →
      (∀ operations, issued.deliveries ticket operations ≤ issued.returnings operations + 1) ∧
      (∀ first last, 0 < issued.supersessions first →
        issued.supersessions (first ++ last) < UInt64.size →
          issued.deliveries ticket (first ++ last) = issued.deliveries ticket first) ∧
      (∀ operations (read : Partial R), (issued.run operations).step = .selectPreset →
        read.isEmpty = false → issued.supersessions operations = 0 →
          ((issued.run operations).completePreset ticket read).1 = true) := by
  intro issued requested
  obtain ⟨-, generation⟩ := requestPreset_issues requested
  refine ⟨fun operations => ?_, fun first last superseded few => ?_,
    fun operations read selecting filled outstanding => ?_⟩
  · exact Nat.le_of_add_right_le (issued.deliveries_le_returnings ticket operations)
  · rw [deliveries_append]
    refine Nat.add_eq_left.2 (deliveries_of_superseded ?_)
    rintro middle rest rfl same
    have counted : issued.supersessions (first ++ middle) % UInt64.size = 0 := by
      rw [← generation_run_iff, run_append, same, generation]
    simp only [supersessions_append] at counted few
    rw [Nat.mod_eq_of_lt (by omega)] at counted
    omega
  · have same : (issued.run operations).presets.generation = issued.presets.generation :=
      (generation_run_iff issued operations).2 (by rw [outstanding]; rfl)
    exact (completePreset_iff _ ticket read).2 ⟨selecting, filled, same.trans generation⟩

/-- A ticket is taken up again after a step back, but not after another request. -/
theorem deliveries_of_ticket_requested_again :
    let selecting := (new (.standard : Settings Float) {} []).run [.browse]
    let issued := (selecting.requestPreset "trio").2
    let ticket : Ticket := ⟨"trio", selecting.presets.pathOf "trio", 1⟩
    let read : Partial Float := ⟨[.plain ⟨"a"⟩ "a"], []⟩
    let deliver : SessionOperation Float := .completePreset ticket read
    let first := [deliver, .back, .requestPreset "duo"]
    (selecting.requestPreset "trio").1 = some ticket ∧
      issued.deliveries ticket (first ++ [deliver]) ≤ issued.returnings (first ++ [deliver]) + 1 ∧
      issued.deliveries ticket (first ++ [deliver]) = 1 ∧
      ((issued.run [deliver, .back]).completePreset ticket read).1 = true := by
  intro selecting issued ticket read deliver first
  have requested : (selecting.requestPreset "trio").1 = some ticket := by decide +kernel
  obtain ⟨bounded, ended, again⟩ := deliveries_of_ticket selecting "trio" ticket requested
  have once : issued.deliveries ticket first = 1 := by decide +kernel
  exact ⟨requested, bounded _,
    (ended first [deliver] (by decide +kernel) (by decide +kernel)).trans once,
    again [deliver, .back] read (by decide +kernel) (by decide +kernel) (by decide +kernel)⟩

/-- A ticket that was taken up is taken up again after one step back. -/
theorem deliveries_after_return :
    let selecting := (new (.standard : Settings Float) {} []).run [.browse]
    let issued := (selecting.requestPreset "trio").2
    let ticket : Ticket := ⟨"trio", selecting.presets.pathOf "trio", 1⟩
    let deliver : SessionOperation Float := .completePreset ticket ⟨[.plain ⟨"a"⟩ "a"], []⟩
    (selecting.requestPreset "trio").1 = some ticket ∧
      issued.deliveries ticket [deliver, .back, deliver] = 2 := by
  decide +kernel

end

end Session

end PeerNet
