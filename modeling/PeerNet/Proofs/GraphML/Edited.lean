import PeerNet.Proofs.GraphML.Exchange
import PeerNet.Proofs.Outcome
import PeerNet.Proofs.Overrides.Canonical
import PeerNet.Proofs.Store.Edit
import PeerNet.Proofs.Store.Invariant

/-!
# Edits in written documents

What the reader of a written topology has of a node that was edited. Documents
declare no key for resources, so that these are not exchanged.
-/

set_option autoImplicit false

namespace PeerNet.GraphML

variable {R : Type} [NumberText R] [Scalar R]

theorem resources_reread (node : Node R) : (reread node).resources = none := by
  rw [reread_eq]

theorem label_reread {node : Node R} (steady : SteadyText node.label) :
    (reread node).label = if node.label.isEmpty then node.id.text else node.label := by
  rw [reread_eq, unified_of_steady steady]

theorem version_reread {node : Node R} {text : String} (valued : node.version = some text)
    (steady : SteadyText text) : (reread node).version = Draft.nonBlank? text := by
  rw [reread_eq, valued, Option.getD_some, unified_of_steady steady]

theorem latency_reread {node : Node R} {text : String} (valued : node.latency = some text)
    (steady : SteadyText text) : (reread node).latency = Draft.nonBlank? text := by
  rw [reread_eq, valued, Option.getD_some, unified_of_steady steady]

theorem overrides_reread {node : Node R} {text : String}
    (valued : node.overrides = .unflatten text) (steady : SteadyText text) :
    (reread node).overrides = node.overrides := by
  have entries : ∀ entry ∈ node.overrides.entries, SteadyText entry.1 ∧ SteadyText entry.2 := by
    intro entry listed
    rw [valued] at listed
    exact ⟨fun c inside => steady c (Overrides.mem_of_mem_unflatten listed (.inl inside)),
      fun c inside => steady c (Overrides.mem_of_mem_unflatten listed (.inr inside))⟩
  have canonical : node.overrides.Canonical := valued ▸ Overrides.canonical_unflatten text
  rw [reread_eq, unified_of_steady (steadyText_flatten entries),
    Overrides.unflatten_flatten canonical]

/-- After an accepted edit at any point of a run, a reader of the written
topology has exactly one node with the id that was edited. Of the fields that
the patch sets, the label, version, latency and overrides come back as they
were set, but an empty label as the id and the other two without blanks around
them; resources do not come back. -/
theorem edited_fields_exported (topology : Option (Topology R)) (options : NodeOptions)
    (canvas : Canvas R) (operations : List (StoreOperation R)) {id : NodeId} {patch : Patch}
    {after : Store R}
    (accepted : ((Store.start topology options canvas).run operations).edit id patch =
      (.ok (), after)) :
    ∃ (node back : Node R) (read : Partial R), after.node? id = some node ∧
      decode (encode after.topology) = .ok read ∧
      (back ∈ read.nodes ∧ back.id = id ∧ ∀ other ∈ read.nodes, other.id = id → other = back) ∧
      (∀ text, patch.value? .label = some text → node.label = text ∧
        (SteadyText text → back.label = if text.isEmpty then id.text else text)) ∧
      (∀ text, patch.value? .version = some text → node.version = some text ∧
        (SteadyText text → back.version = Draft.nonBlank? text)) ∧
      (∀ text, patch.value? .latency = some text → node.latency = some text ∧
        (SteadyText text → back.latency = Draft.nonBlank? text)) ∧
      (∀ text, patch.value? .overrides = some text → node.overrides = .unflatten text ∧
        (SteadyText text → back.overrides = node.overrides)) ∧
      back.resources = none := by
  obtain ⟨_, _, _, _, edited⟩ := Store.node?_edit accepted
  generalize List.foldl _ _ _ = node at edited
  have unique : after.ids.Nodup := by
    have sound := (Store.sound_start topology options canvas).run operations
    have shaped := sound.sameShape (Store.sameShape_edit _ id patch)
    rw [accepted] at shaped
    exact shaped.valid.uniqueIds
  have member : node ∈ after.topology.nodes := List.mem_of_find?_eq_some edited
  have named : node.id = id := by simpa using List.find?_some edited
  refine ⟨node, reread node, ⟨after.topology.nodes.map reread, after.topology.edges⟩, edited,
    decode_encode after.topology, ⟨List.mem_map_of_mem member, ?_, ?_⟩, ?_, ?_, ?_, ?_,
    resources_reread node⟩
  · rw [id_reread, named]
  · intro other listed same
    obtain ⟨source, live, rfl⟩ := List.mem_map.1 listed
    rw [id_reread] at same
    rw [List.inj_on_of_nodup_map unique live member (same.trans named.symm)]
  · intro text valued
    have label : node.label = text := Store.view_edit accepted edited FieldEdit.setBy_label valued
    refine ⟨label, fun steady => ?_⟩
    rw [label_reread (label ▸ steady), label, named]
  · intro text valued
    have version : node.version = some text :=
      Store.view_edit accepted edited FieldEdit.setBy_version valued
    exact ⟨version, version_reread version⟩
  · intro text valued
    have latency : node.latency = some text :=
      Store.view_edit accepted edited FieldEdit.setBy_latency valued
    exact ⟨latency, latency_reread latency⟩
  · intro text valued
    have overrides : node.overrides = .unflatten text :=
      Store.view_edit accepted edited FieldEdit.setBy_overrides valued
    exact ⟨overrides, overrides_reread overrides⟩

/-- Two linked nodes. -/
def linkedPair : Store Float :=
  (Store.start none {} Canvas.standard).run [.add none, .add none, .connect ⟨"0"⟩ ⟨"1"⟩]

/-- A value for every field, two of them for one field, and text like markup. -/
def everyField : Patch :=
  ⟨[("label", "draft"), ("version", "25.0"), ("resourceProfile.ram", " 8 "),
    ("latencyProfile", "50ms"), ("bitcoinConfOverrides", "txindex=1,, =x,dbcache = 450"),
    ("label", "miner <one> & </data>"), ("resourceProfile.cpu", "4")]⟩

theorem edited_fields_exported_everyField :
    ∃ after, linkedPair.edit ⟨"1"⟩ everyField = (.ok (), after) ∧
      ∃ (back : Node Float) (read : Partial Float), decode (encode after.topology) = .ok read ∧
        back ∈ read.nodes ∧ back.id = ⟨"1"⟩ ∧ back.label = "miner <one> & </data>" ∧
        back.version = some "25.0" ∧ back.latency = some "50ms" ∧
        back.overrides = .ofList [("dbcache", "450"), ("txindex", "1")] ∧
        back.resources = none := by
  have success : (linkedPair.edit ⟨"1"⟩ everyField).1.toOption = some () := by decide +kernel
  obtain ⟨after, accepted⟩ : ∃ after, linkedPair.edit ⟨"1"⟩ everyField = (.ok (), after) :=
    ⟨_, Prod.ext (eq_ok_of_toOption success) rfl⟩
  obtain ⟨node, back, read, _, exported, ⟨listed, named, _⟩, label, version, latency, overrides,
    resources⟩ := edited_fields_exported none {} Canvas.standard _ accepted
  refine ⟨after, accepted, back, read, exported, listed, named, ?_, ?_, ?_, ?_, resources⟩
  · exact (label "miner <one> & </data>" (by decide)).2 (by decide)
  · rw [(version "25.0" (by decide)).2 (by decide)]
    decide +kernel
  · rw [(latency "50ms" (by decide)).2 (by decide)]
    decide +kernel
  · obtain ⟨given, kept⟩ := overrides "txindex=1,, =x,dbcache = 450" (by decide)
    rw [kept (by decide), given]
    decide +kernel

/-- A new node in a store whose only version has blanks around it. -/
def blankVersion : Store Float :=
  (Store.start none { versions := [" 1 "] } Canvas.standard).run [.add none]

def blankPatch : Patch :=
  ⟨[("label", ""), ("version", " 1 "), ("resourceProfile.ram", "8")]⟩

/-- The node that the patch makes of the new one. -/
def blankNode : Node Float :=
  { Node.plain ⟨"0"⟩ "" with
    version := some " 1 ", resources := some ⟨8, 1⟩, position := ⟨325.0, 325.0⟩ }

/-- An empty label, a version with blanks around it, and resources do not come
back as an edit sets them. -/
theorem edited_fields_not_exported_as_set :
    ∃ (after : Store Float) (node back : Node Float),
      blankVersion.edit ⟨"0"⟩ blankPatch = (.ok (), after) ∧ after.node? ⟨"0"⟩ = some node ∧
      decode (encode after.topology) = .ok ⟨[back], []⟩ ∧ back.id = node.id ∧
      (node.label = "" ∧ back.label = "0") ∧
      (node.version = some " 1 " ∧ back.version = some "1") ∧
      (node.resources = some ⟨8, 1⟩ ∧ back.resources = none) := by
  have success : (blankVersion.edit ⟨"0"⟩ blankPatch).1.toOption = some () := by decide +kernel
  have stored : (blankVersion.edit ⟨"0"⟩ blankPatch).2.topology =
      { blankVersion.topology with nodes := [blankNode] } := by decide +kernel
  obtain ⟨after, accepted⟩ : ∃ after, blankVersion.edit ⟨"0"⟩ blankPatch = (.ok (), after) :=
    ⟨_, Prod.ext (eq_ok_of_toOption success) rfl⟩
  have topology : after.topology = { blankVersion.topology with nodes := [blankNode] } := by
    rwa [accepted] at stored
  refine ⟨after, blankNode, reread blankNode, accepted, ?_, ?_, id_reread blankNode, ⟨rfl, ?_⟩,
    ⟨rfl, ?_⟩, rfl, resources_reread blankNode⟩
  · rw [Store.node?, topology]
    rfl
  · rw [decode_encode, topology]
    rfl
  · rw [label_reread (by decide)]
    rfl
  · rw [version_reread rfl (by decide)]
    decide +kernel

end PeerNet.GraphML
