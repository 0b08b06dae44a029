import PeerNet.Proofs.Session.Invariant
import PeerNet.Proofs.Session.Renumbering
import PeerNet.Proofs.Session.Wizard

/-!
# Leaving the editor

A client acts on a session, keeps the tickets that it is issued, and sees answers and
views. A session whose editor was left differs from a new one only in how many preset
loads it has counted. A client that holds no ticket yet cannot tell the two apart.
-/

set_option autoImplicit false

namespace PeerNet

variable {R : Type}

/-- What an operation answers. The generation of a ticket is not shown. -/
inductive Answer (R : Type) where
  | nothing
  | flag (value : Bool)
  | ticket (shown : Option (String × FilePath))
  | step (reached : Step)
  | topology (edited : Topology R)

/-- What is seen of a session between two operations. -/
structure View (R : Type) where
  step : Step
  revision : UInt64
  selected : Option NodeId
  topology : Topology R
  preview : Option (Topology R)
  simulation : Option (Simulation R)
  exported : String
  presets : Option (List String)
  /-- For each ticket that is held, whether it is current. -/
  current : List Bool

def SessionOperation.isDelivery : SessionOperation R → Bool
  | .completePreset _ _ => true
  | _ => false

/-- What a client asks for: an operation, or a delivery for one of its tickets, by the
order of their issue. Unless something was read for the ticket, its document is
fetched. -/
inductive Request (R : Type) where
  | act (operation : SessionOperation R) (ticketless : operation.isDelivery = false)
  | deliver (index : Nat) (read : Option (Partial R))

structure Client (R : Type) where
  session : Session R
  /-- The tickets it was issued, in order. -/
  tickets : List GraphML.Ticket

variable [Scalar R] [NumberText R]

namespace Session

def answer (session : Session R) : SessionOperation R → Answer R
  | .startFromScratch => .flag session.startFromScratch.1
  | .openCustom topology => .flag (session.openCustom topology).1
  | .openSaved topology => .flag (session.openSaved topology).1
  | .browse => .flag session.browse.1
  | .requestPreset name =>
    .ticket ((session.requestPreset name).1.map fun ticket => (ticket.name, ticket.path))
  | .completePreset ticket read => .flag (session.completePreset ticket read).1
  | .loadPreset name => .flag (session.loadPreset name).1
  | .confirmPreset => .flag session.confirmPreset.1
  | .back => .step session.back.step
  | .teardown => .nothing
  | .applyLayout strategy => .flag (session.applyLayout strategy).1
  | .tick => .flag session.tick.1
  | .dragStart id => .flag (session.dragStart id).1
  | .dragTo id position => .flag (session.dragTo id position).1
  | .dragEnd id => .flag (session.dragEnd id).1
  -- Every edit answers with the topology that it leaves.
  | edit => .topology (session.apply edit).store.topology

/-- The ticket that an operation hands to its caller. -/
def issued? (session : Session R) : SessionOperation R → Option GraphML.Ticket
  | .requestPreset name => (session.requestPreset name).1
  | _ => none

end Session

namespace Client

def operation? (client : Client R) : Request R → Option (SessionOperation R)
  | .act operation _ => some operation
  | .deliver index read =>
    client.tickets[index]?.map fun ticket =>
      .completePreset ticket (read.getD (client.session.presets.fetchSoft ticket))

def answer? (client : Client R) (request : Request R) : Option (Answer R) :=
  (client.operation? request).map client.session.answer

/-- Acts on the session, and keeps the ticket if one is issued. -/
def perform (client : Client R) (request : Request R) : Client R :=
  match client.operation? request with
  | none => client
  | some operation =>
    ⟨client.session.apply operation, client.tickets ++ (client.session.issued? operation).toList⟩

def view (client : Client R) : View R where
  step := client.session.step
  revision := client.session.store.revision
  selected := client.session.store.selected
  topology := client.session.store.topology
  preview := client.session.preview
  simulation := client.session.simulation
  exported := client.session.exportText
  presets := client.session.presets.list?
  current := client.tickets.map client.session.presets.isCurrent

/-- The answers to a list of requests, each with what is seen after it. -/
def observations (client : Client R) : List (Request R) → List (Option (Answer R) × View R)
  | [] => []
  | request :: rest =>
    let next := client.perform request
    (client.answer? request, next.view) :: next.observations rest

end Client

/-! ## Clients of a shifted session -/

namespace Session

theorem answer_shifted (session : Session R) (offset : UInt64) (operation : SessionOperation R) :
    (session.shifted offset).answer (operation.shifted offset) = session.answer operation := by
  cases operation with
  | startFromScratch | openCustom | openSaved =>
    exact congrArg (Answer.flag ·.1) (session.openFromStart_shifted offset ..)
  | browse => exact congrArg (Answer.flag ·.1) (session.browse_shifted offset)
  | requestPreset name =>
    have requested := congrArg Prod.fst (session.requestPreset_shifted offset name)
    change Answer.ticket (((session.shifted offset).requestPreset name).1.map _) = _
    rw [requested, Prod.map_fst, Option.map_map]
    rfl
  | completePreset ticket read =>
    exact congrArg (Answer.flag ·.1) (session.completePreset_shifted offset ticket read)
  | loadPreset name => exact congrArg (Answer.flag ·.1) (session.loadPreset_shifted offset name)
  | confirmPreset => exact congrArg (Answer.flag ·.1) (session.confirmPreset_shifted offset)
  | back => exact congrArg (Answer.step ·.step) (session.back_shifted offset)
  | applyLayout strategy =>
    exact congrArg (Answer.flag ·.1) (session.applyLayout_shifted offset strategy)
  | tick => exact congrArg (Answer.flag ·.1) (session.tick_shifted offset)
  | teardown | dragStart | dragTo | dragEnd => rfl
  | add | edit | duplicate | delete | connect | disconnect =>
    exact congrArg (Answer.topology ·.store.topology) (session.apply_shifted offset _)

omit [Scalar R] [NumberText R] in
theorem issued?_shifted (session : Session R) (offset : UInt64)
    (operation : SessionOperation R) :
    (session.shifted offset).issued? (operation.shifted offset) =
      (session.issued? operation).map (·.shifted offset) := by
  cases operation with
  | requestPreset name => exact congrArg Prod.fst (session.requestPreset_shifted offset name)
  | _ => rfl

end Session

namespace Client

def shifted (offset : UInt64) (client : Client R) : Client R :=
  ⟨client.session.shifted offset, client.tickets.map (·.shifted offset)⟩

theorem operation?_shifted (client : Client R) (offset : UInt64) (request : Request R) :
    (client.shifted offset).operation? request =
      (client.operation? request).map (·.shifted offset) := by
  cases request with
  | act operation ticketless =>
    cases operation with
    | completePreset => cases ticketless
    | _ => rfl
  | deliver index read =>
    simp only [operation?, shifted, List.getElem?_map, Option.map_map]
    rfl

theorem answer?_shifted (client : Client R) (offset : UInt64) (request : Request R) :
    (client.shifted offset).answer? request = client.answer? request := by
  rw [answer?, answer?, operation?_shifted, Option.map_map]
  exact congrArg (Option.map · _) (funext (client.session.answer_shifted offset))

theorem perform_shifted (client : Client R) (offset : UInt64) (request : Request R) :
    (client.shifted offset).perform request = (client.perform request).shifted offset := by
  unfold perform
  rw [operation?_shifted]
  cases client.operation? request with
  | none => rfl
  | some operation =>
    have acted := client.session.apply_shifted offset operation
    have issued := client.session.issued?_shifted offset operation
    have tickets : (client.shifted offset).tickets ++
        ((client.shifted offset).session.issued? (operation.shifted offset)).toList =
          (client.tickets ++ (client.session.issued? operation).toList).map (·.shifted offset) := by
      rw [List.map_append, ← Option.toList_map, ← issued]
      rfl
    exact congrArg₂ Client.mk acted tickets

omit [Scalar R] in
theorem view_shifted (client : Client R) (offset : UInt64) :
    (client.shifted offset).view = client.view := by
  have current : (client.shifted offset).tickets.map
      (client.session.presets.shifted offset).isCurrent =
        client.tickets.map client.session.presets.isCurrent := by
    rw [shifted, List.map_map]
    exact congrArg (List.map · _)
      (funext fun ticket => client.session.presets.isCurrent_shifted ticket offset)
  exact congrArg (fun current => { client.view with current }) current

theorem observations_shifted (client : Client R) (offset : UInt64) (requests : List (Request R)) :
    (client.shifted offset).observations requests = client.observations requests := by
  induction requests generalizing client with
  | nil => rfl
  | cons request rest ih =>
    simp only [observations, answer?_shifted, perform_shifted, view_shifted, ih]

end Client

/-! ## Leaving -/

namespace Session

omit [Scalar R] [NumberText R] in
/-- Out of the editor, a session is a new one but for the preset loads it has counted. -/
theorem back_of_editor {session : Session R} {settings : Settings R} {files : FileTree}
    {root : FilePath} (editing : session.step = .editGraph) (unshown : session.preview = none)
    (kept : session.surroundings = (new settings files root).surroundings) :
    session.back = (new settings files root).shifted session.presets.generation := by
  obtain ⟨settings, store, step, simulation, ⟨files, directory, generation⟩, preview⟩ := session
  cases editing
  cases unshown
  simp only [surroundings, Prod.mk.injEq] at kept
  obtain ⟨rfl, rfl, rfl⟩ := kept
  have counted : 0 + generation = generation := UInt64.zero_add generation
  simp only [back, teardown, new, shifted, GraphML.Presets.shifted, GraphML.Presets.new, counted]

/-- Whatever was done before the editor was left, a client without the tickets of before
gets the answers and views of a new session, request by request. -/
theorem left_editor_forgets (settings : Settings R) (files : FileTree) (root : FilePath)
    (operations : List (SessionOperation R))
    (editing : ((new settings files root).run operations).step = .editGraph)
    (requests : List (Request R)) :
    let left : Client R := ⟨((new settings files root).run operations).back, []⟩
    let fresh : Client R := ⟨new settings files root, []⟩
    left.view = fresh.view ∧ left.observations requests = fresh.observations requests := by
  intro left fresh
  let session := (new settings files root).run operations
  have unshown : session.preview = none :=
    ((sound_new settings files root).run operations).preview_eq_none (by simp [editing])
  have kept := surroundings_run (new settings files root) operations
  have shifted : left = fresh.shifted session.presets.generation :=
    congrArg (Client.mk · []) (back_of_editor editing unshown kept)
  rw [shifted]
  exact ⟨fresh.view_shifted _, fresh.observations_shifted _ requests⟩

/-- A custom topology is left that was opened after a cancelled request; then a preset
is read, opened and extended. -/
theorem left_editor_forgets_cancelled :
    let edits : List (SessionOperation Float) := [.browse, .requestPreset "trio", .back,
      .openCustom pair, .dragStart ⟨"a"⟩, .delete ⟨"b"⟩]
    let session := (new (.standard : Settings Float) {} []).run edits
    let left : Client Float := ⟨session.back, []⟩
    let fresh : Client Float := ⟨new .standard {} [], []⟩
    let requests : List (Request Float) := [.act .browse rfl, .act (.requestPreset "trio") rfl,
      .deliver 0 (some ⟨[.plain ⟨"a"⟩ "a"], []⟩), .act .confirmPreset rfl, .act (.add none) rfl]
    session.step = .editGraph ∧ left.session.presets.generation = 2 ∧
      left.view = fresh.view ∧ left.observations requests = fresh.observations requests ∧
      (left.observations requests).map (·.2.step) =
        [.selectPreset, .selectPreset, .presetInfo, .editGraph, .editGraph] := by
  intro edits session left fresh requests
  have editing : session.step = .editGraph := by decide +kernel
  obtain ⟨same, answered⟩ :=
    left_editor_forgets (.standard : Settings Float) {} [] edits editing requests
  exact ⟨editing, by decide +kernel, same, answered, by decide +kernel⟩

/-- The tickets of before make a difference. To open a preset does not supersede its
ticket, so that it is taken up again once the editor was left. -/
example :
    let ticket : GraphML.Ticket := ⟨"trio", [], 1⟩
    let read : Partial Float := ⟨[.plain ⟨"a"⟩ "a"], []⟩
    let fresh := new (.standard : Settings Float) {} []
    let left := fresh.run
      [.browse, .requestPreset "trio", .completePreset ticket read, .confirmPreset, .back]
    ((left.apply .browse).completePreset ticket read).1 = true ∧
      ((fresh.apply .browse).completePreset ticket read).1 = false := by
  decide +kernel

end Session

end PeerNet
