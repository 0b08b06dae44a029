import PeerNet.Proofs.Store.Patched
import PeerNet.Proofs.Store.Standing

/-!
# Nodes within the options

The options list the values that the version, the latency and the resources of a node may take.
A store checks them where a patch gives them, and where it gives only one of the resources it
takes the least of those listed for the other. What comes in with a seed or a template is not
checked; if it is within the options, every node of a run is.
-/

set_option autoImplicit false

namespace PeerNet

variable {R : Type}

/-! ## Nodes -/

structure Resources.Listed (options : NodeOptions) (resources : Resources) : Prop where
  ram : resources.ram ∈ options.ram
  cpu : resources.cpu ∈ options.cpu

/-- True of the nodes whose version, latency and resources are unset or listed. -/
structure Node.Listed (options : NodeOptions) (node : Node R) : Prop where
  version : ∀ version ∈ node.version, version ∈ options.versions
  latency : ∀ latency ∈ node.latency, latency ∈ options.latencies
  resources : ∀ resources ∈ node.resources, resources.Listed options

instance (options : NodeOptions) (resources : Resources) :
    Decidable (resources.Listed options) :=
  decidable_of_iff (resources.ram ∈ options.ram ∧ resources.cpu ∈ options.cpu)
    ⟨fun ⟨ram, cpu⟩ => ⟨ram, cpu⟩, fun listed => ⟨listed.ram, listed.cpu⟩⟩

instance (options : NodeOptions) (node : Node R) : Decidable (node.Listed options) :=
  decidable_of_iff
    ((∀ version ∈ node.version, version ∈ options.versions) ∧
      (∀ latency ∈ node.latency, latency ∈ options.latencies) ∧
      ∀ resources ∈ node.resources, resources.Listed options)
    ⟨fun ⟨version, latency, resources⟩ => ⟨version, latency, resources⟩,
      fun listed => ⟨listed.version, listed.latency, listed.resources⟩⟩

theorem FieldEdit.least_mem {words : List UInt32} (filled : words ≠ []) : least words ∈ words := by
  cases found : words.min? with
  | none => exact absurd (List.min?_eq_none_iff.1 found) filled
  | some word => simpa [least, found] using List.min?_mem found

namespace Resources

/-- The resources that complete those of which a patch gives only one. -/
def least (options : NodeOptions) : Resources :=
  ⟨FieldEdit.least options.ram, FieldEdit.least options.cpu⟩

theorem listed_least {options : NodeOptions} (ram : options.ram ≠ []) (cpu : options.cpu ≠ []) :
    (least options).Listed options :=
  ⟨FieldEdit.least_mem ram, FieldEdit.least_mem cpu⟩

theorem listed_updated {options : NodeOptions} {fallback : Resources}
    (fallbackListed : fallback.Listed options) {ram cpu : Option UInt32}
    (ramListed : ∀ size ∈ ram, size ∈ options.ram) (cpuListed : ∀ count ∈ cpu, count ∈ options.cpu)
    {before : Option Resources} (listed : ∀ resources ∈ before, resources.Listed options) :
    ∀ resources ∈ updated fallback ram cpu before, resources.Listed options := by
  have base : (before.getD fallback).Listed options := by
    cases before with
    | none => exact fallbackListed
    | some resources => exact listed resources rfl
  have filled : (⟨ram.getD (before.getD fallback).ram, cpu.getD (before.getD fallback).cpu⟩ :
      Resources).Listed options := by
    constructor
    · cases ram with
      | none => exact base.ram
      | some size => exact ramListed size rfl
    · cases cpu with
      | none => exact base.cpu
      | some count => exact cpuListed count rfl
  intro resources member
  unfold updated at member
  split at member
  · exact listed resources member
  · exact Option.some.inj member ▸ filled

theorem sizeOf_mem {text : String} {sizes : List UInt32}
    (read : ∃ size ∈ sizes, Decimal.readWord32? (Text.trimmed text) = some size) :
    sizeOf text ∈ sizes := by
  obtain ⟨size, listed, found⟩ := read
  simpa [sizeOf, found] using listed

end Resources

namespace Patch

variable {options : NodeOptions} {patch : Patch}

theorem admits_of_value? (valid : patch.Valid options) {field : Field} {value : String}
    (given : patch.value? field = some value) : options.Admits value field := by
  obtain ⟨front, back, split, _⟩ := List.lookup_eq_some_iff.1 given
  have listed : (field.key, value) ∈ patch.entries := by
    rw [← List.mem_reverse, split]
    simp
  obtain ⟨named, _, same, admitted⟩ := valid _ listed
  exact Field.key_injective same ▸ admitted

/-- A valid patch leaves a node within the options. -/
theorem listed_patched (valid : patch.Valid options)
    (least : (Resources.least options).Listed options) {node : Node R}
    (listed : node.Listed options) :
    (node.patched options patch.value?).Listed options where
  version := by
    intro version member
    rcases Option.or_eq_some_iff.1 member with given | ⟨_, kept⟩
    · exact admits_of_value? valid given
    · exact listed.version version kept
  latency := by
    intro latency member
    rcases Option.or_eq_some_iff.1 member with given | ⟨_, kept⟩
    · exact admits_of_value? valid given
    · exact listed.latency latency kept
  resources := by
    refine Resources.listed_updated least ?_ ?_ listed.resources
    · intro size member
      obtain ⟨text, given, rfl⟩ := Option.map_eq_some_iff.1 member
      exact Resources.sizeOf_mem (admits_of_value? valid given)
    · intro count member
      obtain ⟨text, given, rfl⟩ := Option.map_eq_some_iff.1 member
      exact Resources.sizeOf_mem (admits_of_value? valid given)

end Patch

/-! ## Stores -/

/-- True of the operations that bring in no node outside the options. Patches may be any. -/
def StoreOperation.Listed (options : NodeOptions) : StoreOperation R → Prop
  | .seed topology => ∀ node ∈ topology.nodes, node.Listed options
  | .add template => ∀ node ∈ template, node.Listed options
  | _ => True

instance (options : NodeOptions) (operation : StoreOperation R) :
    Decidable (operation.Listed options) :=
  match operation with
  | .seed topology => inferInstanceAs (Decidable (∀ node ∈ topology.nodes, node.Listed options))
  | .add template => inferInstanceAs (Decidable (∀ node ∈ template, node.Listed options))
  | .edit .. | .duplicate _ | .delete _ | .connect .. | .disconnect .. | .move .. | .select _
  | .place _ | .placeAt .. | .applyFrame _ => inferInstanceAs (Decidable True)

namespace Store

/-- True of the stores that go by the options and whose nodes are all within them. -/
structure Within (options : NodeOptions) (store : Store R) : Prop where
  configured : store.options = options
  least : (Resources.least options).Listed options
  listed : ∀ node ∈ store.topology.nodes, node.Listed options

variable {options : NodeOptions} {store after : Store R}

/-- Whatever changes besides, a store stays within its options if every node was there before
or is listed. -/
theorem Within.step (within : store.Within options) (same : after.options = store.options)
    (grown : ∀ node ∈ after.topology.nodes,
      node ∈ store.topology.nodes ∨ node.Listed options) : after.Within options where
  configured := same.trans within.configured
  least := within.least
  listed := fun node member => (grown node member).elim (within.listed node) id

theorem Within.insertNode (within : store.Within options) {make : NodeId → Node R}
    (listed : ∀ id, (make id).Listed options) : (store.insertNode make).Within options := by
  refine within.step rfl fun node member => ?_
  rcases List.mem_append.1 member with old | new
  · exact .inl old
  · exact .inr (List.mem_singleton.1 new ▸ listed store.allocate.1)

theorem Within.duplicate (within : store.Within options) {id copy : NodeId}
    (accepted : store.duplicate id = (.ok copy, after)) : after.Within options := by
  obtain ⟨_, node, found, rfl⟩ := duplicate_eq_ok accepted
  have listed : node.Listed options := within.listed node (List.mem_of_find?_eq_some found)
  exact within.insertNode fun _ => ⟨listed.version, listed.latency, listed.resources⟩

theorem Within.edit (within : store.Within options) {id : NodeId} {patch : Patch}
    (accepted : store.edit id patch = (.ok (), after)) : after.Within options := by
  obtain ⟨valid, live⟩ := valid_and_mem_of_edit accepted
  obtain ⟨front, node, back, split, named, others⟩ := exists_split_of_mem live
  rw [edit_of_valid valid split named others] at accepted
  cases accepted
  have listed : node.Listed options := within.listed node (by simp [split])
  rw [within.configured] at valid
  refine within.step rfl fun other member => ?_
  rcases List.mem_append.1 member with before | edited
  · exact .inl (by simp [split, before])
  · rcases List.mem_cons.1 edited with rfl | behind
    · exact .inr (within.configured ▸ Patch.listed_patched valid within.least listed)
    · exact .inl (by simp [split, behind])

theorem Within.move (within : store.Within options) (id : NodeId) (position : Point R) :
    (store.move id position).2.Within options := by
  unfold Store.move
  split
  · refine within.step rfl fun node member => ?_
    rcases mem_modifyNode member with kept | ⟨old, listed, _, rfl⟩
    · exact .inl kept
    · have before : old.Listed options := within.listed old listed
      exact .inr ⟨before.version, before.latency, before.resources⟩
  · exact within

theorem Within.place (within : store.Within options) (positions : Placement R) :
    (store.place positions).2.Within options := by
  unfold Store.place
  generalize (0 : Nat) = count
  induction positions generalizing count store with
  | nil => exact within
  | cons entry rest ih => exact ih (within.move entry.1 entry.2) _

theorem Within.placeAt (within : store.Within options) (revision : UInt64)
    (positions : Placement R) : (store.placeAt revision positions).2.Within options := by
  unfold Store.placeAt
  split
  · exact within.place positions
  · exact within

variable [Scalar R]

theorem Within.add (within : store.Within options) {template : Option (Node R)}
    (listed : ∀ node ∈ template, node.Listed options) : (store.add template).Within options := by
  cases template with
  | none => exact within.insertNode fun _ => ⟨by rintro _ ⟨⟩, by rintro _ ⟨⟩, by rintro _ ⟨⟩⟩
  | some node =>
    have template : node.Listed options := listed node rfl
    exact within.insertNode fun _ => ⟨template.version, template.latency, template.resources⟩

theorem Within.attempt (within : store.Within options) {operation : StoreOperation R}
    (listed : operation.Listed options) (accepted : store.attempt operation = (.ok (), after)) :
    after.Within options := by
  cases operation with
  | seed topology =>
    cases accepted
    refine within.step rfl fun node member => .inr (listed node ?_)
    exact (Sanitize.mem_nodes member).resolve_left List.not_mem_nil
  | add template => cases accepted; exact within.add listed
  | edit id patch => exact within.edit accepted
  | duplicate id =>
    obtain ⟨copy, copied⟩ := exists_duplicate_eq accepted
    exact within.duplicate copied
  | delete id =>
    obtain ⟨_, rfl⟩ := delete_eq_ok accepted
    exact within.step rfl fun node member => .inl (List.mem_of_mem_eraseP member)
  | connect source target =>
    obtain rfl := connect_eq_ok accepted
    exact within.step rfl fun node member => .inl member
  | disconnect source target =>
    obtain rfl := disconnect_eq_ok accepted
    exact within.step rfl fun node member => .inl member
  | move id position => cases accepted; exact within.move id position
  | select id =>
    cases accepted
    unfold Store.select
    split
    · exact within.step rfl fun node member => .inl member
    · exact within
  | place positions => cases accepted; exact within.place positions
  | placeAt revision positions => cases accepted; exact within.placeAt revision positions
  | applyFrame frame => cases accepted; exact within.placeAt frame.revision frame.positions

theorem Within.apply (within : store.Within options) {operation : StoreOperation R}
    (listed : operation.Listed options) : (store.apply operation).Within options := by
  rcases store.apply_cases operation with same | accepted
  · rw [same]
    exact within
  · exact within.attempt listed accepted

theorem Within.run (within : store.Within options) {operations : List (StoreOperation R)}
    (listed : ∀ operation ∈ operations, operation.Listed options) :
    (store.run operations).Within options :=
  List.foldlRecOn operations Store.apply within fun _ kept operation member =>
    kept.apply (listed operation member)

/-- As long as seeds and templates bring in no value that is not listed, no node of any store
that a run leads through has one, whatever its patches are. -/
theorem nodes_listed_of_run {options : NodeOptions} (ram : options.ram ≠ [])
    (cpu : options.cpu ≠ []) (canvas : Canvas R) (operations : List (StoreOperation R))
    (listed : ∀ operation ∈ operations, operation.Listed options) :
    ∀ reached, reached <+: operations →
      ∀ node ∈ ((new options canvas).run reached).topology.nodes, node.Listed options := by
  intro reached front
  have start : (new options canvas).Within options := ⟨rfl, Resources.listed_least ram cpu, nofun⟩
  have within : ((new options canvas).run reached).Within options :=
    start.run fun operation member => listed operation (front.subset member)
  exact within.listed

/-- The patch gives only the memory, and a copy of the node is what is left. -/
theorem nodes_listed_of_run_completed :
    let options : NodeOptions := { ram := [8, 4], cpu := [6, 2] }
    let seeded : Topology Float :=
      { id := 0, name := "pair", origin := .custom,
        nodes := [{ Node.plain ⟨"a"⟩ "a" with version := some "25.0" }] }
    let operations : List (StoreOperation Float) :=
      [.seed seeded, .edit ⟨"a"⟩ ⟨[("resourceProfile.ram", " 8 ")]⟩,
        .edit ⟨"a"⟩ ⟨[("resourceProfile.cpu", "3")]⟩, .duplicate ⟨"a"⟩, .delete ⟨"a"⟩]
    let store := (new options .standard).run operations
    (options.ram ≠ [] ∧ options.cpu ≠ [] ∧ ∀ operation ∈ operations, operation.Listed options) ∧
      store.topology.nodes.map (·.resources) = [some ⟨8, 2⟩] ∧
      ∀ node ∈ store.topology.nodes, node.Listed options := by
  intro options seeded operations store
  have listed : ∀ operation ∈ operations, operation.Listed options := by decide +kernel
  refine ⟨⟨by decide, by decide, listed⟩, by decide +kernel, ?_⟩
  exact nodes_listed_of_run (by decide) (by decide) .standard operations listed operations
    (List.prefix_refl operations)

end Store

end PeerNet
