import Mathlib.Data.List.Nodup
import PeerNet.Proofs.Store.Change
import PeerNet.Proofs.Store.Freshness
import PeerNet.Proofs.Topology.Sanitize

/-!
# What every store keeps

A store's topology is valid and its selection names a live node. A seed
establishes both whatever it is given, and every other change preserves them.
-/

set_option autoImplicit false

namespace PeerNet.Store

variable {R : Type}

/-- The invariant of the store. -/
structure Sound (store : Store R) : Prop where
  valid : store.topology.Valid
  selectedLive : ∀ id, store.selected = some id → id ∈ store.ids

theorem Sound.joining {store : Store R} (sound : store.Sound) {edge : Edge}
    (member : edge ∈ store.topology.edges) :
    edge.source ≠ edge.target ∧ edge.source ∈ store.ids ∧ edge.target ∈ store.ids := by
  obtain ⟨source, target⟩ := sound.valid.endsLive edge member
  exact ⟨sound.valid.loopFree edge member, Topology.hasNode_eq_true_iff.1 source,
    Topology.hasNode_eq_true_iff.1 target⟩

theorem sound_new (options : NodeOptions) (canvas : Canvas R) : (new options canvas).Sound where
  valid := ⟨by simp [new], by simp [new], by simp [new], by simp [new]⟩
  selectedLive := by simp [new]

theorem sound_seed (store : Store R) (topology : Topology R) : (store.seed topology).Sound where
  valid := topology.valid_sanitized
  selectedLive := by simp [seed, bump]

theorem sound_start (topology : Option (Topology R)) (options : NodeOptions)
    (canvas : Canvas R) : (start topology options canvas).Sound := by
  cases topology with
  | none => exact sound_new options canvas
  | some topology => exact sound_seed (new options canvas) topology

theorem allocate_not_mem (store : Store R) :
    store.allocate.1 ∉ store.ids ∧ store.allocate.1 ∉ store.retired := by
  simpa [allocate] using Allocator.fresh_not_mem (store.ids ++ store.retired) store.allocator

theorem ids_insertNode {store : Store R} {make : NodeId → Node R}
    (named : ∀ id, (make id).id = id) :
    (store.insertNode make).ids = store.ids ++ [store.allocate.1] := by
  simp [insertNode, ids, bump, named]

theorem Sound.insertNode {store : Store R} (sound : store.Sound) {make : NodeId → Node R}
    (named : ∀ id, (make id).id = id) : (store.insertNode make).Sound := by
  have grown : (store.insertNode make).ids = store.ids ++ [store.allocate.1] :=
    ids_insertNode named
  have live (id : NodeId) (member : id ∈ store.ids) :
      (store.insertNode make).topology.hasNode id = true := by
    refine Topology.hasNode_eq_true_iff.2 ?_
    change id ∈ (store.insertNode make).ids
    simp [grown, member]
  refine ⟨⟨?_, ?_, sound.valid.loopFree, sound.valid.uniqueEdges⟩, ?_⟩
  · change (store.insertNode make).ids.Nodup
    rw [grown, ← List.concat_eq_append]
    exact List.Nodup.concat store.allocate_not_mem.1 sound.valid.uniqueIds
  · intro edge member
    obtain ⟨_, source, target⟩ := sound.joining member
    exact ⟨live _ source, live _ target⟩
  · intro id chosen
    have same : store.allocate.1 = id := Option.some.inj chosen
    simp [grown, same]

theorem map_id_removeNode (id : NodeId) (nodes : List (Node R)) :
    (removeNode id nodes).map (·.id) = (nodes.map (·.id)).erase id := by
  induction nodes with
  | nil => rfl
  | cons node rest ih =>
    by_cases same : node.id = id
    · simp [removeNode, same]
    · simpa [removeNode, same, List.erase_cons] using ih

theorem Sound.retireNode {store : Store R} (sound : store.Sound) (id : NodeId) :
    (store.retireNode id).Sound := by
  have remaining : (store.retireNode id).ids = store.ids.erase id :=
    map_id_removeNode id store.topology.nodes
  have live (other : NodeId) (apart : other ≠ id) (member : other ∈ store.ids) :
      other ∈ (store.retireNode id).ids := by
    rw [remaining]
    exact sound.valid.uniqueIds.mem_erase_iff.2 ⟨apart, member⟩
  refine ⟨⟨?_, ?_, ?_, ?_⟩, ?_⟩
  · change (store.retireNode id).ids.Nodup
    rw [remaining]
    exact sound.valid.uniqueIds.erase id
  · intro edge member
    obtain ⟨old, apart⟩ := List.mem_filter.1 member
    obtain ⟨_, source, target⟩ := sound.joining old
    simp only [Edge.touches, Bool.not_eq_true', Bool.or_eq_false_iff,
      decide_eq_false_iff_not] at apart
    exact ⟨Topology.hasNode_eq_true_iff.2 (live _ apart.1 source),
      Topology.hasNode_eq_true_iff.2 (live _ apart.2 target)⟩
  · intro edge member
    exact sound.valid.loopFree edge (List.mem_filter.1 member).1
  · exact sound.valid.uniqueEdges.filter _
  · intro other chosen
    change (if store.selected = some id then none else store.selected) = some other at chosen
    split at chosen
    · cases chosen
    · next unselected =>
      refine live other ?_ (sound.selectedLive other chosen)
      rintro rfl
      exact unselected chosen

theorem Sound.relink {store : Store R} (sound : store.Sound) {edges : List Edge}
    (joining : ∀ edge ∈ edges, edge.source ≠ edge.target ∧ edge.source ∈ store.ids ∧
      edge.target ∈ store.ids) (distinct : edges.Nodup) : (store.relink edges).Sound where
  valid :=
    { uniqueIds := sound.valid.uniqueIds
      endsLive := fun edge member =>
        ⟨Topology.hasNode_eq_true_iff.2 (joining edge member).2.1,
          Topology.hasNode_eq_true_iff.2 (joining edge member).2.2⟩
      loopFree := fun edge member => (joining edge member).1
      uniqueEdges := distinct }
  selectedLive := sound.selectedLive

theorem Sound.sameShape {before after : Store R} (sound : before.Sound)
    (same : SameShape before after) : after.Sound := by
  have known (id : NodeId) (member : id ∈ before.ids) : after.topology.hasNode id = true := by
    refine Topology.hasNode_eq_true_iff.2 ?_
    change id ∈ after.ids
    rw [same.ids]
    exact member
  refine ⟨⟨?_, ?_, ?_, ?_⟩, ?_⟩
  · change after.ids.Nodup
    rw [same.ids]
    exact sound.valid.uniqueIds
  · intro edge member
    obtain ⟨_, source, target⟩ := sound.joining (same.edges ▸ member)
    exact ⟨known _ source, known _ target⟩
  · rw [same.edges]
    exact sound.valid.loopFree
  · rw [same.edges]
    exact sound.valid.uniqueEdges
  · intro id chosen
    rw [same.ids]
    exact sound.selectedLive id (same.selected ▸ chosen)

/-- Every change preserves the invariant. -/
theorem Change.sound {store after : Store R} (change : Change store after)
    (sound : store.Sound) : after.Sound := by
  cases change with
  | inserted make named => exact sound.insertNode named
  | deleted id live => exact sound.retireNode id
  | connected edge apart sourceLive targetLive absent =>
    apply sound.relink
    · intro other member
      rcases List.mem_append.1 member with old | new
      · exact sound.joining old
      · rw [List.mem_singleton.1 new]
        exact ⟨apart, sourceLive, targetLive⟩
    · rw [← List.concat_eq_append]
      exact sound.valid.uniqueEdges.concat absent
  | disconnected edge present =>
    exact sound.relink (fun other member => sound.joining (List.mem_of_mem_erase member))
      (sound.valid.uniqueEdges.erase edge)
  | selected id live =>
    refine ⟨sound.valid, fun other chosen => ?_⟩
    cases chosen
    exact live
  | reshaped same => exact sound.sameShape same

variable [Scalar R]

theorem Sound.apply {store : Store R} (sound : store.Sound) (operation : StoreOperation R) :
    (store.apply operation).Sound := by
  rcases store.seeded_or_changed operation with ⟨topology, seeded⟩ | change
  · exact seeded ▸ sound_seed store topology
  · exact change.sound sound

theorem Sound.run {store : Store R} (sound : store.Sound)
    (operations : List (StoreOperation R)) : (store.run operations).Sound := by
  induction operations generalizing store with
  | nil => exact sound
  | cons operation rest ih => exact ih (sound.apply operation)

/-- Whatever topology a run starts from, faulty ones included, and whichever of
its operations are refused, at its end the topology passes the check, and the
selection is empty or of a live node. -/
theorem validate_run (topology : Option (Topology R)) (options : NodeOptions)
    (canvas : Canvas R) (operations : List (StoreOperation R)) :
    let store := (start topology options canvas).run operations
    store.topology.validate = .ok () ∧
      store.ids.Nodup ∧
      (∀ edge ∈ store.topology.edges, edge.source ∈ store.ids ∧ edge.target ∈ store.ids ∧
        edge.source ≠ edge.target) ∧
      store.topology.edges.Nodup ∧
      (store.selected = none ∨ ∃ node ∈ store.topology.nodes, store.selected = some node.id) := by
  intro store
  have sound : store.Sound := (sound_start topology options canvas).run operations
  refine ⟨Topology.validate_eq_ok_iff.2 sound.valid, sound.valid.uniqueIds, ?_,
    sound.valid.uniqueEdges, ?_⟩
  · intro edge member
    obtain ⟨apart, source, target⟩ := sound.joining member
    exact ⟨source, target, apart⟩
  · cases chosen : store.selected with
    | none => exact .inl rfl
    | some id =>
      obtain ⟨node, member, rfl⟩ := List.mem_map.1 (sound.selectedLive id chosen)
      exact .inr ⟨node, member, rfl⟩

end PeerNet.Store
