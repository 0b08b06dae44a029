import PeerNet.Proofs.Store.History
import PeerNet.Proofs.Store.Search

/-!
# Nodes made from others

A copy of a node and a node made from a template go to the end of the topology under a fresh id
and are selected. They differ from what they are made from in nothing else but the label. Links
join live nodes only, so none of them touches the new one. What the counter of the ids behind the
numbers has passed over is taken, so while fewer ids are taken than half of what it can count, the
search for an id ends.
-/

set_option autoImplicit false

namespace PeerNet.Store

variable {R : Type}

/-! ## The search for an id -/

/-- True of the stores in which all ids that were drawn behind the numbers are taken. -/
def SpillsTaken (store : Store R) : Prop :=
  ∀ k, 0 < k → k ≤ store.allocator.spilled.toNat →
    ⟨"n" ++ Nat.repr k⟩ ∈ store.ids ∨ ⟨"n" ++ Nat.repr k⟩ ∈ store.retired

theorem SpillsTaken.of_unspilled {store : Store R} (unspilled : store.allocator.spilled = 0) :
    store.SpillsTaken := by
  intro k positive drawn
  rw [unspilled] at drawn
  exact absurd positive (Nat.not_lt.2 drawn)

theorem Change.spillsTaken {store after : Store R} (change : Change store after)
    (spills : store.SpillsTaken) : after.SpillsTaken := by
  -- Only a new node draws ids; what was taken before a change is taken after it.
  have kept (same : after.allocator = store.allocator) : after.SpillsTaken := by
    intro k positive drawn
    exact change.taken (spills k positive (same ▸ drawn))
  cases change with
  | inserted make named =>
    intro k positive drawn
    have change : Change store (store.insertNode make) := .inserted make named
    by_cases earlier : k ≤ store.allocator.spilled.toNat
    · exact change.taken (spills k positive earlier)
    · rcases Allocator.spilled_of_fresh (Nat.not_le.1 earlier) drawn with issued | met
      · refine .inl ?_
        rw [ids_insertNode named, issued]
        exact List.mem_append_right _ List.mem_cons_self
      · exact change.taken (List.mem_append.1 met)
  | deleted id live => exact kept rfl
  | connected edge apart sourceLive targetLive absent => exact kept rfl
  | disconnected edge present => exact kept rfl
  | selected id live => exact kept rfl
  | reshaped same => exact kept same.allocator

theorem spillsTaken_seed (store : Store R) (topology : Topology R) :
    (store.seed topology).SpillsTaken :=
  .of_unspilled (Allocator.spilled_above _)

theorem spillsTaken_start (topology : Option (Topology R)) (options : NodeOptions)
    (canvas : Canvas R) : (start topology options canvas).SpillsTaken := by
  cases topology with
  | none => exact .of_unspilled rfl
  | some topology => exact spillsTaken_seed (new options canvas) topology

theorem SpillsTaken.find?_allocate {store : Store R} (spills : store.SpillsTaken)
    (few : 2 * (store.ids.length + store.retired.length) < UInt64.size - 1) :
    ∃ tries, Allocator.find? (· ∈ store.ids ++ store.retired) tries store.allocator =
      some store.allocate := by
  have count : store.allocator.spilled.toNat ≤ (store.ids ++ store.retired).length :=
    Allocator.le_length_of_spills fun k positive drawn =>
      List.mem_append.2 (spills k positive drawn)
  refine ⟨_, Allocator.find?_of_few ?_⟩
  rw [List.length_append] at count ⊢
  omega

/-! ## The new node -/

/-- True of a store that has one node more than another: the last one, with an id of its own and
without links, and selected. -/
structure Appends (store after : Store R) (node : Node R) : Prop where
  fresh : node.id ∉ store.ids
  nodes : after.topology.nodes = store.topology.nodes ++ [node]
  edges : after.topology.edges = store.topology.edges
  unlinked : ∀ edge ∈ after.topology.edges, edge.touches node.id = false
  selected : after.selected = some node.id

theorem Sound.touches_eq_false {store : Store R} (sound : store.Sound) {id : NodeId}
    (missing : id ∉ store.ids) {edge : Edge} (member : edge ∈ store.topology.edges) :
    edge.touches id = false := by
  obtain ⟨_, sourceLive, targetLive⟩ := sound.joining member
  have source : edge.source ≠ id := fun same => missing (same ▸ sourceLive)
  have target : edge.target ≠ id := fun same => missing (same ▸ targetLive)
  simp [Edge.touches, source, target]

theorem Sound.appends_insertNode {store : Store R} (sound : store.Sound)
    {make : NodeId → Node R} (named : ∀ id, (make id).id = id) :
    store.Appends (store.insertNode make) (make store.allocate.1) where
  fresh := (named _).symm ▸ store.allocate_not_mem.1
  nodes := rfl
  edges := rfl
  unlinked := fun _ member =>
    sound.touches_eq_false ((named _).symm ▸ store.allocate_not_mem.1) member
  selected := congrArg some (named _).symm

theorem instantiate_eq (store : Store R) (template : Node R) (id : NodeId) :
    store.instantiate template id =
      { template with
        id, label := if template.label = "" then store.defaultLabel else template.label } := by
  simp only [instantiate, String.isEmpty_iff]

theorem exists_node?_eq_some {store : Store R} {id : NodeId} (live : id ∈ store.ids) :
    ∃ node, store.node? id = some node := by
  obtain ⟨node, member, named⟩ := List.mem_map.1 live
  have found : (store.node? id).isSome := List.find?_isSome.2 ⟨node, member, by simpa using named⟩
  exact Option.isSome_iff_exists.1 found

/-- A copy has a label, so it is never given one as a template without a label is. -/
theorem Sound.duplicate_appends {store : Store R} (sound : store.Sound) {id : NodeId}
    {node : Node R} (found : store.node? id = some node) :
    ∃ copy after, store.duplicate id = (.ok copy, after) ∧
      store.Appends after { node with id := copy, label := node.label ++ " duplicate" } := by
  rcases store.duplicate_cases id with ⟨missing, _⟩ | ⟨other, known, copied⟩
  · cases missing.symm.trans found
  · cases known.symm.trans found
    have labelled : node.label ++ " duplicate" ≠ "" := by simp
    let template : Node R := { node with label := node.label ++ " duplicate" }
    have appended : store.Appends (store.insertNode (store.instantiate template))
        (store.instantiate template store.allocate.1) := sound.appends_insertNode fun _ => rfl
    rw [instantiate_eq store template, if_neg labelled] at appended
    exact ⟨store.allocate.1, _, copied, appended⟩

variable [Scalar R]

theorem SpillsTaken.apply {store : Store R} (spills : store.SpillsTaken)
    (operation : StoreOperation R) : (store.apply operation).SpillsTaken := by
  rcases store.seeded_or_changed operation with ⟨topology, seeded⟩ | change
  · exact seeded ▸ spillsTaken_seed store topology
  · exact change.spillsTaken spills

theorem SpillsTaken.run {store : Store R} (spills : store.SpillsTaken)
    (operations : List (StoreOperation R)) : (store.run operations).SpillsTaken :=
  List.foldlRecOn operations Store.apply spills fun _ kept operation _ => kept.apply operation

/-- In every run, a copy of a live node is that node under a fresh id, with a longer label, at
the end of the topology and selected, and no link touches it; so is a node that is made from a
template, except that it is given a label only where the template has none. The search for the
id ends while fewer ids are taken than half of what a counter can count. -/
theorem made_nodes_appended (topology : Option (Topology R)) (options : NodeOptions)
    (canvas : Canvas R) (operations : List (StoreOperation R)) :
    let store := (start topology options canvas).run operations
    (∀ id ∈ store.ids, ∃ node copy after, store.node? id = some node ∧
        store.duplicate id = (.ok copy, after) ∧
        store.Appends after { node with id := copy, label := node.label ++ " duplicate" }) ∧
      (∀ template : Node R, ∃ id, store.Appends (store.add (some template))
        { template with
          id, label := if template.label = "" then store.defaultLabel else template.label }) ∧
      (2 * (store.ids.length + store.retired.length) < UInt64.size - 1 →
        ∃ tries, Allocator.find? (· ∈ store.ids ++ store.retired) tries store.allocator =
          some store.allocate) := by
  intro store
  have sound : store.Sound := (sound_start topology options canvas).run operations
  have spills : store.SpillsTaken :=
    (spillsTaken_start topology options canvas).run operations
  refine ⟨fun id live => ?_, fun template => ?_, spills.find?_allocate⟩
  · obtain ⟨node, found⟩ := exists_node?_eq_some live
    obtain ⟨copy, after, accepted, appended⟩ := sound.duplicate_appends found
    exact ⟨node, copy, after, found, accepted, appended⟩
  · have appended : store.Appends (store.add (some template))
        (store.instantiate template store.allocate.1) := sound.appends_insertNode fun _ => rfl
    rw [instantiate_eq] at appended
    exact ⟨store.allocate.1, appended⟩

/-- A copy of a linked node, and a template without a label. -/
theorem made_nodes_appended_linked :
    let linked : Topology Float :=
      { id := 0, name := "linked", origin := .custom,
        nodes := [.plain ⟨"a"⟩ "a", .plain ⟨"b"⟩ "b"], edges := [⟨⟨"a"⟩, ⟨"b"⟩⟩] }
    let store := (start (some linked) {} .standard).run [.add none, .delete ⟨"0"⟩]
    (∃ after, store.duplicate ⟨"b"⟩ = (.ok ⟨"1"⟩, after) ∧
        store.Appends after (.plain ⟨"1"⟩ "b duplicate")) ∧
      (∃ id, store.Appends (store.add (some (.plain ⟨"b"⟩ ""))) (.plain id "new node 0")) ∧
      ∃ tries, Allocator.find? (· ∈ store.ids ++ store.retired) tries store.allocator =
        some store.allocate := by
  intro linked store
  obtain ⟨copied, made, found⟩ :=
    made_nodes_appended (some linked) {} .standard [.add none, .delete ⟨"0"⟩]
  obtain ⟨id, labelled⟩ : ∃ id, store.Appends (store.add (some (.plain ⟨"b"⟩ "")))
      (.plain id store.defaultLabel) := made (.plain ⟨"b"⟩ "")
  have label_eq : store.defaultLabel = "new node 0" := by decide +kernel
  refine ⟨?_, ⟨id, label_eq ▸ labelled⟩, found (by decide +kernel)⟩
  obtain ⟨node, copy, after, known, accepted, appended⟩ := copied ⟨"b"⟩ (by decide +kernel)
  have copy_eq : (store.duplicate ⟨"b"⟩).1 = .ok ⟨"1"⟩ := rfl
  have node_eq : store.node? ⟨"b"⟩ = some (.plain ⟨"b"⟩ "b") := rfl
  cases known.symm.trans node_eq
  rw [accepted] at copy_eq
  cases copy_eq
  exact ⟨after, accepted, appended⟩

end PeerNet.Store
