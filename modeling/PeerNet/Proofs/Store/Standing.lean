import PeerNet.Proofs.Store.Frames

/-!
# Standing nodes

Where a live node stands changes only by a move of it or by a placement that names
it. Whatever else is done to a store leaves it there, until it is deleted.
-/

set_option autoImplicit false

namespace PeerNet

variable {R : Type}

theorem FieldEdit.position_foldl_apply (options : NodeOptions) (edits : List FieldEdit)
    (node : Node R) :
    (edits.foldl (FieldEdit.apply options) node).position = node.position := by
  refine view_foldl (·.position) (fun node edit => ?_) node edits
  cases edit <;> rfl

/-- True of the operations that neither move nor delete a node, other than those that
replace the topology or place many nodes. -/
def StoreOperation.spares (id : NodeId) : StoreOperation R → Bool
  | .delete other => other ≠ id
  | .move other _ => other ≠ id
  | .add _ | .edit _ _ | .duplicate _ | .connect _ _ | .disconnect _ _ | .select _ => true
  | .seed _ | .place _ | .placeAt _ _ | .applyFrame _ => false

namespace Store

/-- True of a store in which an id is live and its node stands at a position. -/
structure Stands (store : Store R) (id : NodeId) (position : Point R) : Prop where
  live : id ∈ store.ids
  standing : ∀ node ∈ store.topology.nodes, node.id = id → node.position = position

theorem Stands.node? {store : Store R} {id : NodeId} {position : Point R}
    (stands : store.Stands id position) : (store.node? id).map (·.position) = some position := by
  cases found : store.node? id with
  | none =>
    obtain ⟨node, member, named⟩ := List.mem_map.1 stands.live
    have missed := List.find?_eq_none.1 found node member
    exact absurd (decide_eq_true named) missed
  | some node =>
    have chosen := List.find?_some found
    have placed := stands.standing node (List.mem_of_find?_eq_some found) (of_decide_eq_true chosen)
    rw [Option.map_some, placed]

theorem stands_of_node? {store : Store R} (distinct : store.ids.Nodup) {id : NodeId}
    {node : Node R} (found : store.node? id = some node) : store.Stands id node.position := by
  have member : node ∈ store.topology.nodes := List.mem_of_find?_eq_some found
  have chosen := List.find?_some found
  have named : node.id = id := of_decide_eq_true chosen
  refine ⟨named ▸ List.mem_map_of_mem member, fun other listed same => ?_⟩
  rw [List.inj_on_of_nodup_map distinct listed member (same.trans named.symm)]

/-! ## Changed nodes -/

theorem mem_modifyNode {id : NodeId} {change : Node R → Node R} {nodes : List (Node R)}
    {node : Node R} (member : node ∈ modifyNode id change nodes) :
    node ∈ nodes ∨ ∃ old ∈ nodes, old.id = id ∧ node = change old := by
  induction nodes with
  | nil => cases member
  | cons first rest ih =>
    rw [modifyNode] at member
    split at member
    · next same =>
      rcases List.mem_cons.1 member with rfl | later
      · exact .inr ⟨first, List.mem_cons_self, same, rfl⟩
      · exact .inl (List.mem_cons_of_mem first later)
    · rcases List.mem_cons.1 member with rfl | later
      · exact .inl List.mem_cons_self
      · rcases ih later with kept | ⟨old, listed, named, rfl⟩
        · exact .inl (List.mem_cons_of_mem first kept)
        · exact .inr ⟨old, List.mem_cons_of_mem first listed, named, rfl⟩

/-- A change of one node lets the standing one stand, if it is another node or stays
in its place. -/
theorem Stands.modifyNode {before after : Store R} {id other : NodeId} {position : Point R}
    (stands : before.Stands id position) {change : Node R → Node R}
    (changed : after.topology.nodes = modifyNode other change before.topology.nodes)
    (keeps : ∀ node, (change node).id = node.id)
    (still : other = id → ∀ node, node.position = position → (change node).position = position) :
    after.Stands id position := by
  refine ⟨?_, fun node member named => ?_⟩
  · rw [ids, changed, map_view_modifyNode keeps]
    exact stands.live
  · rw [changed] at member
    rcases mem_modifyNode member with kept | ⟨old, listed, same, rfl⟩
    · exact stands.standing node kept named
    · rw [keeps] at named
      exact still (same.symm.trans named) old (stands.standing old listed named)

theorem Stands.edit {store : Store R} {id : NodeId} {position : Point R}
    (stands : store.Stands id position) (other : NodeId) (patch : Patch) :
    (store.edit other patch).2.Stands id position := by
  rcases store.edit_cases other patch with ⟨_, refused⟩ | ⟨edits, _, _, accepted⟩
  · rw [refused]
    exact stands
  · rw [accepted]
    refine stands.modifyNode rfl (FieldEdit.id_foldl_apply store.options edits) ?_
    intro _ node placed
    rw [FieldEdit.position_foldl_apply, placed]

theorem Stands.move {store : Store R} {id other : NodeId} {position place : Point R}
    (stands : store.Stands id position) (aims : other = id → place = position) :
    (store.move other place).2.Stands id position := by
  unfold Store.move
  split
  · refine stands.modifyNode rfl (fun _ => rfl) ?_
    exact fun same _ _ => aims same
  · exact stands

theorem stands_move {store : Store R} (distinct : store.ids.Nodup) {id : NodeId}
    (live : id ∈ store.ids) (position : Point R) :
    (store.move id position).2.Stands id position := by
  refine ⟨(sameShape_move store id position).ids ▸ live, fun node member named => ?_⟩
  rw [move_eq_mapNodes distinct] at member
  obtain ⟨old, _, rfl⟩ := List.mem_map.1 member
  unfold movedNode at named ⊢
  split
  · rfl
  · next apart =>
    rw [if_neg apart] at named
    exact absurd named apart

theorem Stands.place {store : Store R} {id : NodeId} {position : Point R}
    (stands : store.Stands id position) {positions : Placement R}
    (aims : ∀ entry ∈ positions, entry.1 = id → entry.2 = position) :
    (store.place positions).2.Stands id position := by
  unfold Store.place
  generalize (0 : Nat) = count
  induction positions generalizing count store with
  | nil => exact stands
  | cons entry rest ih =>
    have first := stands.move (aims entry List.mem_cons_self)
    exact ih first (fun other member => aims other (List.mem_cons_of_mem entry member)) _

theorem Stands.applyFrame {store : Store R} {id : NodeId} {position : Point R}
    (stands : store.Stands id position) {frame : Frame R}
    (aims : ∀ entry ∈ frame.positions, entry.1 = id → entry.2 = position) :
    (store.applyFrame frame).2.Stands id position := by
  unfold Store.applyFrame placeAt
  split
  · exact stands.place aims
  · exact stands

/-! ## Structural edits -/

theorem Stands.insertNode {store : Store R} {id : NodeId} {position : Point R}
    (stands : store.Stands id position) {make : NodeId → Node R}
    (named : ∀ id, (make id).id = id) : (store.insertNode make).Stands id position := by
  refine ⟨?_, fun node member same => ?_⟩
  · rw [ids_insertNode named]
    exact List.mem_append_left _ stands.live
  · rcases List.mem_append.1 member with old | new
    · exact stands.standing node old same
    · rw [List.mem_singleton.1 new, named] at same
      exact absurd (same ▸ stands.live) store.allocate_not_mem.1

theorem Stands.retireNode {store : Store R} {id other : NodeId} {position : Point R}
    (stands : store.Stands id position) (apart : other ≠ id) :
    (store.retireNode other).Stands id position where
  live := by
    have remaining : (store.retireNode other).ids = store.ids.erase other :=
      map_id_removeNode other store.topology.nodes
    rw [remaining]
    exact (List.mem_erase_of_ne apart.symm).2 stands.live
  standing := fun node member => stands.standing node (List.mem_of_mem_eraseP member)

theorem Stands.relink {store : Store R} {id : NodeId} {position : Point R}
    (stands : store.Stands id position) (edges : List Edge) :
    (store.relink edges).Stands id position :=
  ⟨stands.live, stands.standing⟩

/-- A node that is deleted, if it was there, is there no more. -/
theorem not_mem_ids_delete [Scalar R] {store : Store R} (distinct : store.ids.Nodup) (id : NodeId) :
    id ∉ (store.apply (.delete id)).ids := by
  change id ∉ (store.delete id).2.ids
  rcases store.delete_cases id with ⟨missing, refused⟩ | ⟨_, accepted⟩
  · rwa [refused]
  · have remaining : (store.retireNode id).ids = store.ids.erase id :=
      map_id_removeNode id store.topology.nodes
    rw [accepted, remaining]
    exact distinct.not_mem_erase

variable [Scalar R]

theorem Stands.attempt {store after : Store R} {id : NodeId} {position : Point R}
    (stands : store.Stands id position) {operation : StoreOperation R}
    (spares : operation.spares id = true) (accepted : store.attempt operation = (.ok (), after)) :
    after.Stands id position := by
  cases operation with
  | add template =>
    cases accepted
    cases template with
    | none => exact stands.insertNode fun _ => rfl
    | some node => exact stands.insertNode fun _ => rfl
  | edit other patch =>
    obtain rfl : (store.edit other patch).2 = after := congrArg Prod.snd accepted
    exact stands.edit other patch
  | duplicate other =>
    obtain ⟨copy, copied⟩ := exists_duplicate_eq accepted
    obtain ⟨_, node, _, rfl⟩ := duplicate_eq_ok copied
    exact stands.insertNode fun _ => rfl
  | delete other =>
    obtain ⟨_, rfl⟩ := delete_eq_ok accepted
    exact stands.retireNode (of_decide_eq_true spares)
  | connect source target =>
    obtain rfl := connect_eq_ok accepted
    exact stands.relink _
  | disconnect source target =>
    obtain rfl := disconnect_eq_ok accepted
    exact stands.relink _
  | move other place =>
    cases accepted
    exact stands.move fun same => absurd same (of_decide_eq_true spares)
  | select other =>
    cases accepted
    unfold Store.select
    split
    · exact ⟨stands.live, stands.standing⟩
    · exact stands
  | seed | place | placeAt | applyFrame => cases spares

theorem Stands.apply {store : Store R} {id : NodeId} {position : Point R}
    (stands : store.Stands id position) {operation : StoreOperation R}
    (spares : operation.spares id = true) : (store.apply operation).Stands id position := by
  rcases store.apply_cases operation with same | accepted
  · rw [same]
    exact stands
  · exact stands.attempt spares accepted

end Store

end PeerNet
