import PeerNet.Proofs.Outcome
import PeerNet.Proofs.Store.Invariant

/-!
# Ids are handed out once

Between two seeds no id is handed out twice, and a deleted id never comes back.
Every id that was in the topology since the last seed is live or retired at any
later moment, and an allocated id is neither.
-/

set_option autoImplicit false

namespace PeerNet

variable {R : Type}

/-- What became of ids since the last seed, or since the start of a run. -/
structure IdHistory where
  /-- The ids of the nodes that were in the topology at some moment. -/
  present : List NodeId
  issued : List NodeId

namespace Store

theorem Change.taken {store after : Store R} (change : Change store after) {id : NodeId}
    (taken : id ∈ store.ids ∨ id ∈ store.retired) : id ∈ after.ids ∨ id ∈ after.retired := by
  cases change with
  | inserted make named =>
    rw [ids_insertNode named]
    exact taken.imp (List.mem_append_left _) fun old => old
  | deleted other live =>
    by_cases same : id = other
    · exact .inr (same ▸ List.mem_cons_self)
    · refine taken.imp (fun old => ?_) (List.mem_cons_of_mem _)
      change id ∈ (removeNode other store.topology.nodes).map (·.id)
      rw [map_id_removeNode]
      exact (List.mem_erase_of_ne same).2 old
  | connected edge apart sourceLive targetLive absent => exact taken
  | disconnected edge present => exact taken
  | selected other live => exact taken
  | reshaped same =>
    rw [same.ids, same.retired]
    exact taken

theorem Change.gone {store after : Store R} (change : Change store after) {id : NodeId}
    (gone : id ∉ store.ids ∧ id ∈ store.retired) : id ∉ after.ids ∧ id ∈ after.retired := by
  cases change with
  | inserted make named =>
    rw [ids_insertNode named]
    refine ⟨fun member => ?_, gone.2⟩
    rcases List.mem_append.1 member with old | new
    · exact gone.1 old
    · exact store.allocate_not_mem.2 (List.mem_singleton.1 new ▸ gone.2)
  | deleted other live =>
    refine ⟨fun member => ?_, List.mem_cons_of_mem _ gone.2⟩
    change id ∈ (removeNode other store.topology.nodes).map (·.id) at member
    rw [map_id_removeNode] at member
    exact gone.1 (List.mem_of_mem_erase member)
  | connected edge apart sourceLive targetLive absent => exact gone
  | disconnected edge present => exact gone
  | selected other live => exact gone
  | reshaped same =>
    rw [same.ids, same.retired]
    exact gone

/-- What a history records of a store that it leads to. -/
structure Accounted (store : Store R) (history : IdHistory) : Prop where
  taken : ∀ id ∈ history.present, id ∈ store.ids ∨ id ∈ store.retired
  issuedPresent : ∀ id ∈ history.issued, id ∈ history.present
  issuedOnce : history.issued.Nodup

theorem Accounted.allocate_not_mem {store : Store R} {history : IdHistory}
    (accounted : store.Accounted history) : store.allocate.1 ∉ history.present := by
  intro member
  rcases accounted.taken _ member with live | retired
  · exact store.allocate_not_mem.1 live
  · exact store.allocate_not_mem.2 retired

variable [Scalar R]

def issued? (store : Store R) : StoreOperation R → Option NodeId
  | .add template => (store.add template).selected
  | .duplicate id =>
    match (store.duplicate id).1 with
    | .ok copy => some copy
    | .error _ => none
  | _ => none

/-- The history after one more operation. A seed starts it anew. -/
def noteIds (history : IdHistory) (store : Store R) (operation : StoreOperation R) : IdHistory :=
  let live := (store.apply operation).ids
  if operation.isSeed then ⟨live, []⟩
  else ⟨history.present ++ live, history.issued ++ (store.issued? operation).toList⟩

def extendHistory (history : IdHistory) (store : Store R) :
    List (StoreOperation R) → IdHistory
  | [] => history
  | operation :: rest =>
    extendHistory (noteIds history store operation) (store.apply operation) rest

def idHistory (store : Store R) (operations : List (StoreOperation R)) : IdHistory :=
  extendHistory ⟨store.ids, []⟩ store operations

theorem issued?_eq_some {store : Store R} {operation : StoreOperation R} {id : NodeId}
    (issued : store.issued? operation = some id) :
    id = store.allocate.1 ∧ id ∈ (store.apply operation).ids := by
  have live (make : NodeId → Node R) (named : ∀ id, (make id).id = id) :
      store.allocate.1 ∈ (store.insertNode make).ids := by
    rw [ids_insertNode named]
    exact List.mem_append_right _ List.mem_cons_self
  cases operation with
  | add template =>
    cases template with
    | none =>
      cases issued
      exact ⟨rfl, live _ fun _ => rfl⟩
    | some node =>
      cases issued
      exact ⟨rfl, live _ fun _ => rfl⟩
  | duplicate source =>
    change id = _ ∧ id ∈ (store.duplicate source).2.ids
    rcases store.duplicate_cases source with ⟨_, refused⟩ | ⟨_, _, copied⟩
    · rw [issued?, refused] at issued
      cases issued
    · rw [issued?, copied] at issued
      cases issued
      rw [copied]
      exact ⟨rfl, live _ fun _ => rfl⟩
  | _ => cases issued

theorem Accounted.note {store : Store R} {history : IdHistory}
    (accounted : store.Accounted history) (operation : StoreOperation R) :
    (store.apply operation).Accounted (noteIds history store operation) := by
  cases kind : operation.isSeed with
  | true =>
    simp only [noteIds, kind, ↓reduceIte]
    exact ⟨fun id member => .inl member, by simp, by simp⟩
  | false =>
    have change := store.change_apply kind
    simp only [noteIds, kind, Bool.false_eq_true, ↓reduceIte]
    refine ⟨fun id member => ?_, fun id member => ?_, ?_⟩
    · rcases List.mem_append.1 member with old | new
      · exact change.taken (accounted.taken id old)
      · exact .inl new
    · rcases List.mem_append.1 member with old | new
      · exact List.mem_append_left _ (accounted.issuedPresent id old)
      · exact List.mem_append_right _ (issued?_eq_some (Option.mem_toList.1 new)).2
    · cases outcome : store.issued? operation with
      | none => simpa using accounted.issuedOnce
      | some id =>
        obtain ⟨rfl, _⟩ := issued?_eq_some outcome
        rw [Option.toList_some, ← List.concat_eq_append]
        exact List.Nodup.concat
          (fun again => accounted.allocate_not_mem (accounted.issuedPresent _ again))
          accounted.issuedOnce

theorem Accounted.extend {store : Store R} {history : IdHistory}
    (accounted : store.Accounted history) (operations : List (StoreOperation R)) :
    (store.run operations).Accounted (extendHistory history store operations) := by
  induction operations generalizing store history with
  | nil => exact accounted
  | cons operation rest ih => exact ih (accounted.note operation)

theorem accounted_run (store : Store R) (operations : List (StoreOperation R)) :
    (store.run operations).Accounted (store.idHistory operations) :=
  Accounted.extend ⟨fun _ member => .inl member, by simp, by simp⟩ operations

theorem gone_run {store : Store R} {id : NodeId} (gone : id ∉ store.ids ∧ id ∈ store.retired)
    (operations : List (StoreOperation R))
    (edits : ∀ operation ∈ operations, operation.isSeed = false) :
    id ∉ (store.run operations).ids := by
  induction operations generalizing store with
  | nil => exact gone.1
  | cons operation rest ih =>
    obtain ⟨first, later⟩ := List.forall_mem_cons.1 edits
    exact ih ((store.change_apply first).gone gone) later

/-- In every run, from whatever topology, a node that is added or copied gets an
id that no node had since the last seed. So no id is handed out twice between
two seeds, and an id that was deleted stays away until the next one. -/
theorem issued_ids_are_new (topology : Option (Topology R)) (options : NodeOptions)
    (canvas : Canvas R) (operations : List (StoreOperation R)) :
    let store := (start topology options canvas).run operations
    let history := (start topology options canvas).idHistory operations
    (∀ template, ∃ node, (store.add template).topology.nodes = store.topology.nodes ++ [node] ∧
      node.id ∉ history.present) ∧
    (∀ id copy after, store.duplicate id = (.ok copy, after) →
      ∃ node, after.topology.nodes = store.topology.nodes ++ [node] ∧ node.id = copy ∧
        copy ∉ history.present) ∧
    history.issued.Nodup ∧
    (∀ id ∈ history.present, id ∉ store.ids →
      ∀ later : List (StoreOperation R), (∀ operation ∈ later, operation.isSeed = false) →
        id ∉ (store.run later).ids) := by
  intro store history
  have accounted : store.Accounted history := accounted_run _ operations
  refine ⟨fun template => ?_, fun id copy after accepted => ?_, accounted.issuedOnce,
    fun id member deleted later edits => ?_⟩
  · cases template with
    | none => exact ⟨_, rfl, accounted.allocate_not_mem⟩
    | some node => exact ⟨_, rfl, accounted.allocate_not_mem⟩
  · obtain ⟨rfl, _, _, rfl⟩ := duplicate_eq_ok accepted
    exact ⟨_, rfl, rfl, accounted.allocate_not_mem⟩
  · have retired := (accounted.taken id member).resolve_left deleted
    exact gone_run ⟨deleted, retired⟩ later edits

/-- No number is left above its first id, and its second one is a candidate of
those that follow the numbers. -/
def lastNumber : Topology Float where
  id := 0
  name := "last number"
  origin := .custom
  nodes := [.plain ⟨"18446744073709551615"⟩ "a", .plain ⟨"n1"⟩ "b", .plain ⟨"007"⟩ "c"]

theorem issued_ids_are_new_lastNumber :
    let store := (start (some lastNumber) {} .standard).run [.add none, .delete ⟨"n2"⟩]
    (∃ after, store.duplicate ⟨"007"⟩ = (.ok ⟨"n3"⟩, after) ∧
      ∃ node, after.topology.nodes = store.topology.nodes ++ [node] ∧ node.id = ⟨"n3"⟩) ∧
    ⟨"n2"⟩ ∉ (store.run [.add none]).ids := by
  intro store
  obtain ⟨_, copied, _, deleted⟩ :=
    issued_ids_are_new (some lastNumber) {} .standard [.add none, .delete ⟨"n2"⟩]
  constructor
  · have issued : (store.duplicate ⟨"007"⟩).1.toOption = some ⟨"n3"⟩ := by decide +kernel
    have accepted : store.duplicate ⟨"007"⟩ = (.ok ⟨"n3"⟩, (store.duplicate ⟨"007"⟩).2) :=
      Prod.ext (eq_ok_of_toOption issued) rfl
    obtain ⟨node, grown, named, _⟩ := copied _ _ _ accepted
    exact ⟨_, accepted, node, grown, named⟩
  · exact deleted ⟨"n2"⟩ (by decide +kernel) (by decide +kernel) [.add none]
      (by simp [StoreOperation.isSeed])

end Store

end PeerNet
