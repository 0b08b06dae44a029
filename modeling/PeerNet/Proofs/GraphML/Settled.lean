import PeerNet.Proofs.GraphML.Step
import PeerNet.Proofs.Overrides.Canonical

/-!
# Nodes that a reading gives

Whatever a document holds, the nodes read from it are settled: they have a
label unless their ids are empty, their versions and latencies are tight and
not empty, and their overrides are canonical.
-/

set_option autoImplicit false

namespace PeerNet.GraphML

variable {R : Type}

/-- True of a text that is kept as it is when it is read as an optional one. -/
def Filled (text : String) : Prop :=
  Draft.nonBlank? text = some text

theorem filled_iff {text : String} : Filled text ↔ text ≠ "" ∧ Text.Tight text.toList := by
  rw [Filled, Draft.nonBlank?]
  constructor
  · intro kept
    split at kept
    · cases kept
    · next filled =>
      have same : Text.trimmed text = text := Option.some.inj kept
      rw [same] at filled
      exact ⟨by simpa using filled, same ▸ Text.tight_trimmed text⟩
  · rintro ⟨filled, tight⟩
    have unempty : ¬ text.isEmpty = true := by simpa using filled
    rw [Text.trimmed_eq_self tight, if_neg unempty]

theorem filled_of_nonBlank? {text result : String}
    (found : Draft.nonBlank? text = some result) : Filled result := by
  rw [Draft.nonBlank?] at found
  split at found
  · cases found
  · next filled =>
    cases found
    exact filled_iff.2 ⟨by simpa using filled, Text.tight_trimmed text⟩

/-- The optional texts and the overrides of a node as a reading sets them. -/
structure SettledData (node : Node R) : Prop where
  version : ∀ text ∈ node.version, Filled text
  latency : ∀ text ∈ node.latency, Filled text
  overrides : node.overrides.Canonical

structure Settled (node : Node R) : Prop extends SettledData node where
  labelled : node.label = "" → node.id.text = ""

theorem settled_finish {draft : Draft R} (settled : SettledData draft.node) :
    Settled draft.finish := by
  refine ⟨⟨settled.version, settled.latency, settled.overrides⟩, ?_⟩
  intro unlabelled
  rw [Draft.finish] at unlabelled ⊢
  dsimp only at unlabelled ⊢
  split at unlabelled
  · exact unlabelled
  · next labelled => exact absurd unlabelled (by simpa using labelled)

theorem settledData_plain [Scalar R] (id : NodeId) (label : String) :
    SettledData (Node.plain id label : Node R) := by
  refine ⟨?_, ?_, Overrides.canonical_empty⟩
  · intro text given
    cases given
  · intro text given
    cases given

section

variable [NumberText R] (draft : Draft R) (text : String) (meaning : NodeAttribute)

theorem version_assign : (draft.assign text meaning).node.version =
    if meaning = .version then Draft.nonBlank? text else draft.node.version := by
  cases meaning <;> simp only [Draft.assign, reduceCtorEq, ↓reduceIte]

theorem latency_assign : (draft.assign text meaning).node.latency =
    if meaning = .latency then Draft.nonBlank? text else draft.node.latency := by
  cases meaning <;> simp only [Draft.assign, reduceCtorEq, ↓reduceIte]

theorem overrides_assign : (draft.assign text meaning).node.overrides =
    if meaning = .bitcoinConf then .unflatten text else draft.node.overrides := by
  cases meaning <;> simp only [Draft.assign, reduceCtorEq, ↓reduceIte]

theorem settledData_assign (settled : SettledData draft.node) :
    SettledData (draft.assign text meaning).node := by
  constructor
  · intro result given
    rw [version_assign] at given
    split at given
    · exact filled_of_nonBlank? given
    · exact settled.version result given
  · intro result given
    rw [latency_assign] at given
    split at given
    · exact filled_of_nonBlank? given
    · exact settled.latency result given
  · rw [overrides_assign]
    split
    · exact Overrides.canonical_unflatten text
    · exact settled.overrides

end

variable [NumberText R] [Scalar R]

namespace Reading

structure AllSettled (reading : Reading R) : Prop where
  draft : ∀ draft ∈ reading.draft, SettledData draft.node
  nodes : ∀ node ∈ reading.nodes, Settled node

omit [NumberText R] [Scalar R] in
theorem allSettled_start : AllSettled ({} : Reading R) := by
  constructor
  · intro draft current
    cases current
  · intro node member
    cases member

theorem AllSettled.step {reading after : Reading R} {event : Markup.Event}
    (settled : reading.AllSettled) (taken : reading.step event = .ok after) :
    after.AllSettled := by
  have fresh (id : String) : SettledData (Node.plain ⟨id⟩ "" : Node R) := settledData_plain _ _
  have added {draft : Draft R} (data : SettledData draft.node) :
      ∀ node ∈ reading.nodes ++ [draft.finish], Settled node := by
    intro node member
    rcases List.mem_append.1 member with earlier | last
    · exact settled.nodes node earlier
    · exact List.mem_singleton.1 last ▸ settled_finish data
  have change := nodeChange_step taken
  constructor
  · intro draft current
    generalize after.draft = draft', after.nodes = nodes' at change current
    cases change with
    | nothing | whole => exact settled.draft draft current
    | opened id =>
      cases current
      exact fresh id
    | assigned before text meaning =>
      cases current
      exact settledData_assign _ text meaning (settled.draft _ before)
    | closed before => cases current
  · generalize after.draft = draft', after.nodes = nodes' at change
    cases change with
    | nothing | opened | assigned => exact settled.nodes
    | whole id => exact added (fresh id)
    | closed before => exact added (settled.draft _ before)

end Reading

theorem settled_of_decode {document : String} {read : Partial R}
    (accepted : decode document = .ok read) : ∀ node ∈ read.nodes, Settled node := by
  obtain ⟨last, taken, _, _, rfl⟩ := exists_steps_of_decode accepted
  exact (Reading.steps_preserves Reading.AllSettled.step Reading.allSettled_start taken).nodes

end PeerNet.GraphML
