import PeerNet.Store.Operation
import PeerNet.Proofs.Tally
import PeerNet.Proofs.Topology.Validity

/-!
# What an operation changes

What each operation answers, and what it makes of a store. A refused one leaves
the whole store as it was. Between two seeds every operation, accepted or
refused, makes one of a few changes. Edits, moves and placements keep the shape
of a store: its ids, its links and everything that counts them. What holds of
every run is shown change by change.
-/

set_option autoImplicit false

namespace PeerNet

variable {R : Type}

namespace FieldEdit

theorem id_apply (options : NodeOptions) (node : Node R) (edit : FieldEdit) :
    (edit.apply options node).id = node.id := by
  cases edit <;> rfl

theorem id_foldl_apply (options : NodeOptions) (edits : List FieldEdit) (node : Node R) :
    (edits.foldl (FieldEdit.apply options) node).id = node.id :=
  view_foldl (·.id) (id_apply options) node edits

end FieldEdit

namespace Store

/-- Two stores that differ at most in the contents of their nodes. -/
structure SameShape (before after : Store R) : Prop where
  ids : after.ids = before.ids
  edges : after.topology.edges = before.topology.edges
  allocator : after.allocator = before.allocator
  retired : after.retired = before.retired
  selected : after.selected = before.selected
  revision : after.revision = before.revision

theorem SameShape.refl (store : Store R) : SameShape store store :=
  ⟨rfl, rfl, rfl, rfl, rfl, rfl⟩

theorem SameShape.trans {before middle after : Store R}
    (first : SameShape before middle) (last : SameShape middle after) : SameShape before after :=
  ⟨last.ids.trans first.ids, last.edges.trans first.edges, last.allocator.trans first.allocator,
    last.retired.trans first.retired, last.selected.trans first.selected,
    last.revision.trans first.revision⟩

def retireNode (store : Store R) (id : NodeId) : Store R :=
  bump { store with
    topology := { store.topology with
      nodes := removeNode id store.topology.nodes
      edges := store.topology.edges.filter (!·.touches id) }
    selected := if store.selected = some id then none else store.selected
    retired := id :: store.retired }

def relink (store : Store R) (edges : List Edge) : Store R :=
  bump { store with topology := { store.topology with edges } }

/-- What one operation can make of a store, seeds excepted. -/
inductive Change (store : Store R) : Store R → Prop where
  | inserted (make : NodeId → Node R) (named : ∀ id, (make id).id = id) :
      Change store (store.insertNode make)
  | deleted (id : NodeId) (live : id ∈ store.ids) : Change store (store.retireNode id)
  | connected (edge : Edge) (apart : edge.source ≠ edge.target)
      (sourceLive : edge.source ∈ store.ids) (targetLive : edge.target ∈ store.ids)
      (absent : edge ∉ store.topology.edges) :
      Change store (store.relink (store.topology.edges ++ [edge]))
  | disconnected (edge : Edge) (present : edge ∈ store.topology.edges) :
      Change store (store.relink (store.topology.edges.erase edge))
  | selected (id : NodeId) (live : id ∈ store.ids) :
      Change store { store with selected := some id }
  | reshaped {after : Store R} (same : SameShape store after) : Change store after

theorem Change.unchanged (store : Store R) : Change store store :=
  .reshaped (.refl store)

/-! ## Answers -/

theorem edit_cases (store : Store R) (id : NodeId) (patch : Patch) :
    (∃ rejection, store.edit id patch = (.error rejection, store)) ∨
      ∃ edits, patch.resolve store.options = .ok edits ∧ id ∈ store.ids ∧
        store.edit id patch = (.ok (), { store with
          topology := { store.topology with
            nodes := modifyNode id (edits.foldl (FieldEdit.apply store.options))
              store.topology.nodes } }) := by
  unfold edit
  split
  · next rejection _ => exact .inl ⟨rejection, rfl⟩
  · next edits resolved =>
    split
    · next live => exact .inr ⟨edits, resolved, Topology.hasNode_eq_true_iff.1 live, rfl⟩
    · exact .inl ⟨_, rfl⟩

/-- A copy is selected where it is made, so that its id is always found there. -/
theorem duplicate_cases (store : Store R) (id : NodeId) :
    (store.node? id = none ∧ store.duplicate id = (.error (.unknownNode id), store)) ∨
      ∃ node, store.node? id = some node ∧
        store.duplicate id = (.ok store.allocate.1, store.insertNode
          (store.instantiate { node with label := node.label ++ " duplicate" })) := by
  unfold duplicate
  cases store.node? id with
  | none => exact .inl ⟨rfl, rfl⟩
  | some node => exact .inr ⟨node, rfl, rfl⟩

theorem delete_cases (store : Store R) (id : NodeId) :
    (id ∉ store.ids ∧ store.delete id = (.error (.unknownNode id), store)) ∨
      (id ∈ store.ids ∧ store.delete id = (.ok (), store.retireNode id)) := by
  unfold delete
  split
  · next live => exact .inr ⟨Topology.hasNode_eq_true_iff.1 live, rfl⟩
  · next missing =>
    exact .inl ⟨fun live => missing (Topology.hasNode_eq_true_iff.2 live), rfl⟩

/-- What an accepted connection makes sure of. -/
theorem connect_cases (store : Store R) (source target : NodeId) :
    (∃ rejection, store.connect source target = (.error rejection, store)) ∨
      (source ≠ target ∧ source ∈ store.ids ∧ target ∈ store.ids ∧
        ⟨source, target⟩ ∉ store.topology.edges) ∧
        store.connect source target =
          (.ok (), store.relink (store.topology.edges ++ [⟨source, target⟩])) := by
  unfold connect
  split
  · exact .inl ⟨_, rfl⟩
  · next apart =>
    split
    · exact .inl ⟨_, rfl⟩
    · next sourceLive =>
      split
      · exact .inl ⟨_, rfl⟩
      · next targetLive =>
        split
        · exact .inl ⟨_, rfl⟩
        · next absent =>
          exact .inr ⟨⟨apart, Topology.hasNode_eq_true_iff.1 (by simpa using sourceLive),
            Topology.hasNode_eq_true_iff.1 (by simpa using targetLive),
            fun present => absent (Topology.hasEdge_eq_true_iff.2 present)⟩, rfl⟩

theorem disconnect_cases (store : Store R) (source target : NodeId) :
    store.disconnect source target = (.error (.missingEdge source target), store) ∨
      ⟨source, target⟩ ∈ store.topology.edges ∧
        store.disconnect source target =
          (.ok (), store.relink (store.topology.edges.erase ⟨source, target⟩)) := by
  unfold disconnect
  split
  · next present => exact .inr ⟨Topology.hasEdge_eq_true_iff.1 present, rfl⟩
  · exact .inl rfl

theorem duplicate_eq_ok {store after : Store R} {id copy : NodeId}
    (accepted : store.duplicate id = (.ok copy, after)) :
    copy = store.allocate.1 ∧ ∃ node, store.node? id = some node ∧ after = store.insertNode
      (store.instantiate { node with label := node.label ++ " duplicate" }) := by
  rcases store.duplicate_cases id with ⟨_, refused⟩ | ⟨node, found, copied⟩
  · cases refused.symm.trans accepted
  · cases copied.symm.trans accepted
    exact ⟨rfl, node, found, rfl⟩

theorem delete_eq_ok {store after : Store R} {id : NodeId}
    (accepted : store.delete id = (.ok (), after)) :
    id ∈ store.ids ∧ after = store.retireNode id := by
  rcases store.delete_cases id with ⟨_, refused⟩ | ⟨live, deleted⟩
  · cases refused.symm.trans accepted
  · cases deleted.symm.trans accepted
    exact ⟨live, rfl⟩

theorem connect_eq_ok {store after : Store R} {source target : NodeId}
    (accepted : store.connect source target = (.ok (), after)) :
    after = store.relink (store.topology.edges ++ [⟨source, target⟩]) := by
  rcases store.connect_cases source target with ⟨_, refused⟩ | ⟨_, linked⟩
  · cases refused.symm.trans accepted
  · cases linked.symm.trans accepted
    rfl

theorem disconnect_eq_ok {store after : Store R} {source target : NodeId}
    (accepted : store.disconnect source target = (.ok (), after)) :
    after = store.relink (store.topology.edges.erase ⟨source, target⟩) := by
  rcases store.disconnect_cases source target with refused | ⟨_, unlinked⟩
  · cases refused.symm.trans accepted
  · cases unlinked.symm.trans accepted
    rfl

/-! ## Shapes -/

/-- A change that keeps a view of each node keeps the views of all nodes. -/
theorem map_view_modifyNode {α : Type} {view : Node R → α} {id : NodeId}
    {change : Node R → Node R} (keeps : ∀ node, view (change node) = view node)
    (nodes : List (Node R)) : (modifyNode id change nodes).map view = nodes.map view := by
  induction nodes with
  | nil => rfl
  | cons node rest ih =>
    rw [modifyNode]
    split
    · rw [List.map_cons, List.map_cons, keeps]
    · rw [List.map_cons, List.map_cons, ih]

theorem sameShape_edit (store : Store R) (id : NodeId) (patch : Patch) :
    SameShape store (store.edit id patch).2 := by
  rcases store.edit_cases id patch with ⟨_, refused⟩ | ⟨edits, _, _, accepted⟩
  · rw [refused]
    exact .refl store
  · rw [accepted]
    exact ⟨map_view_modifyNode (FieldEdit.id_foldl_apply store.options edits) _,
      rfl, rfl, rfl, rfl, rfl⟩

theorem sameShape_move (store : Store R) (id : NodeId) (position : Point R) :
    SameShape store (store.move id position).2 := by
  unfold move
  split
  · exact ⟨map_view_modifyNode (by intro node; rfl) store.topology.nodes, rfl, rfl, rfl, rfl, rfl⟩
  · exact .refl store

theorem sameShape_place (store : Store R) (positions : Placement R) :
    SameShape store (store.place positions).2 := by
  unfold place
  -- The count of moved nodes is carried along, so the fold is shown for any count.
  generalize (0 : Nat) = count
  induction positions generalizing count store with
  | nil => exact .refl store
  | cons entry rest ih => exact (sameShape_move store entry.1 entry.2).trans (ih _ _)

theorem sameShape_placeAt (store : Store R) (revision : UInt64) (positions : Placement R) :
    SameShape store (store.placeAt revision positions).2 := by
  unfold placeAt
  split
  · exact sameShape_place store positions
  · exact .refl store

/-! ## The origin -/

theorem origin_edit (store : Store R) (id : NodeId) (patch : Patch) :
    (store.edit id patch).2.topology.origin = store.topology.origin := by
  rcases store.edit_cases id patch with ⟨_, refused⟩ | ⟨_, _, _, accepted⟩
  · rw [refused]
  · rw [accepted]

theorem origin_move (store : Store R) (id : NodeId) (position : Point R) :
    (store.move id position).2.topology.origin = store.topology.origin := by
  unfold move
  split
  · rfl
  · rfl

theorem origin_place (store : Store R) (positions : Placement R) :
    (store.place positions).2.topology.origin = store.topology.origin := by
  unfold place
  generalize (0 : Nat) = count
  induction positions generalizing count store with
  | nil => rfl
  | cons entry rest ih => exact (ih _ _).trans (origin_move store entry.1 entry.2)

theorem origin_placeAt (store : Store R) (revision : UInt64) (positions : Placement R) :
    (store.placeAt revision positions).2.topology.origin = store.topology.origin := by
  unfold placeAt
  split
  · exact origin_place store positions
  · rfl

/-! ## Changes -/

theorem change_duplicate (store : Store R) (id : NodeId) :
    Change store (store.duplicate id).2 := by
  rcases store.duplicate_cases id with ⟨_, refused⟩ | ⟨_, _, accepted⟩
  · rw [refused]
    exact .unchanged store
  · rw [accepted]
    exact .inserted _ fun _ => rfl

theorem change_delete (store : Store R) (id : NodeId) : Change store (store.delete id).2 := by
  rcases store.delete_cases id with ⟨_, refused⟩ | ⟨live, accepted⟩
  · rw [refused]
    exact .unchanged store
  · rw [accepted]
    exact .deleted id live

theorem change_connect (store : Store R) (source target : NodeId) :
    Change store (store.connect source target).2 := by
  rcases store.connect_cases source target with
    ⟨_, refused⟩ | ⟨⟨apart, sourceLive, targetLive, absent⟩, accepted⟩
  · rw [refused]
    exact .unchanged store
  · rw [accepted]
    exact .connected ⟨source, target⟩ apart sourceLive targetLive absent

theorem change_disconnect (store : Store R) (source target : NodeId) :
    Change store (store.disconnect source target).2 := by
  rcases store.disconnect_cases source target with refused | ⟨present, accepted⟩
  · rw [refused]
    exact .unchanged store
  · rw [accepted]
    exact .disconnected _ present

theorem change_select (store : Store R) (id : NodeId) : Change store (store.select id).2 := by
  unfold select
  split
  · next live => exact .selected id (Topology.hasNode_eq_true_iff.1 live)
  · exact .unchanged store

variable [Scalar R]

theorem change_add (store : Store R) (template : Option (Node R)) :
    Change store (store.add template) := by
  cases template with
  | none => exact .inserted _ (fun _ => rfl)
  | some node => exact .inserted _ (fun _ => rfl)

/-- Every operation but a seed makes one of the changes. -/
theorem change_apply (store : Store R) {operation : StoreOperation R}
    (edits : operation.isSeed = false) : Change store (store.apply operation) := by
  cases operation with
  | seed topology => cases edits
  | add template => exact store.change_add template
  | edit id patch => exact .reshaped (store.sameShape_edit id patch)
  | duplicate id => exact store.change_duplicate id
  | delete id => exact store.change_delete id
  | connect source target => exact store.change_connect source target
  | disconnect source target => exact store.change_disconnect source target
  | move id position => exact .reshaped (store.sameShape_move id position)
  | select id => exact store.change_select id
  | place positions => exact .reshaped (store.sameShape_place positions)
  | placeAt revision positions => exact .reshaped (store.sameShape_placeAt revision positions)
  | applyFrame frame => exact .reshaped (store.sameShape_placeAt frame.revision frame.positions)

theorem exists_duplicate_eq {store after : Store R} {id : NodeId}
    (accepted : store.attempt (.duplicate id) = (.ok (), after)) :
    ∃ copy, store.duplicate id = (.ok copy, after) := by
  rcases store.duplicate_cases id with ⟨_, refused⟩ | ⟨_, _, copied⟩
  · rw [attempt, refused] at accepted
    cases accepted
  · rw [attempt, copied] at accepted
    cases accepted
    exact ⟨_, copied⟩

/-- A refused operation leaves the store as it was. -/
theorem attempt_of_refused {store after : Store R} {operation : StoreOperation R}
    {rejection : Rejection} (refused : store.attempt operation = (.error rejection, after)) :
    after = store := by
  cases operation with
  | edit id patch =>
    rcases store.edit_cases id patch with ⟨_, same⟩ | ⟨_, _, _, accepted⟩
    · cases same.symm.trans refused
      rfl
    · cases accepted.symm.trans refused
  | duplicate id =>
    rcases store.duplicate_cases id with ⟨_, same⟩ | ⟨_, _, accepted⟩
    · rw [attempt, same] at refused
      cases refused
      rfl
    · rw [attempt, accepted] at refused
      cases refused
  | delete id =>
    rcases store.delete_cases id with ⟨_, same⟩ | ⟨_, accepted⟩
    · cases same.symm.trans refused
      rfl
    · cases accepted.symm.trans refused
  | connect source target =>
    rcases store.connect_cases source target with ⟨_, same⟩ | ⟨_, accepted⟩
    · cases same.symm.trans refused
      rfl
    · cases accepted.symm.trans refused
  | disconnect source target =>
    rcases store.disconnect_cases source target with same | ⟨_, accepted⟩
    · cases same.symm.trans refused
      rfl
    · cases accepted.symm.trans refused
  | seed | add | move | select | place | placeAt | applyFrame => cases refused

theorem apply_cases (store : Store R) (operation : StoreOperation R) :
    store.apply operation = store ∨
      store.attempt operation = (.ok (), store.apply operation) := by
  cases outcome : store.attempt operation with
  | mk answer after =>
    have left : store.apply operation = after := congrArg Prod.snd outcome
    cases answer with
    | error rejection => exact .inl (left.trans (attempt_of_refused outcome))
    | ok _ => exact .inr (by rw [left])

theorem apply_of_isSeed (store : Store R) {operation : StoreOperation R}
    (seeds : operation.isSeed = true) :
    ∃ topology, operation = .seed topology ∧ store.apply operation = store.seed topology := by
  cases operation with
  | seed topology => exact ⟨topology, rfl, rfl⟩
  | _ => cases seeds

theorem seeded_or_changed (store : Store R) (operation : StoreOperation R) :
    (∃ topology, store.apply operation = store.seed topology) ∨
      Change store (store.apply operation) := by
  cases kind : operation.isSeed with
  | true =>
    obtain ⟨topology, _, seeded⟩ := store.apply_of_isSeed kind
    exact .inl ⟨topology, seeded⟩
  | false => exact .inr (store.change_apply kind)

end Store

end PeerNet
