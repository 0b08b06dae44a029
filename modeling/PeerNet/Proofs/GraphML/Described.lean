import PeerNet.GraphML.Decode
import PeerNet.Proofs.Markup.Content

/-!
# What a document describes

The nodes and links of a document, taken from its tree in two phases: first the
keys that it declares, then every node with the data inside it, and every link.
Elements of other kinds, remarks and the text outside data describe nothing.
-/

set_option autoImplicit false

namespace PeerNet.GraphML

open Markup

/-- The attributes that an element must have. -/
def requiredAttributes (name : String) : List String :=
  match name with
  | "key" => ["id"]
  | "node" => ["id"]
  | "data" => ["key"]
  | "edge" => ["source", "target"]
  | _ => []

/-- A declared key with its name, which is its id where it declares no name. -/
def declaredKey (key : Element) : String × String :=
  (key.value "id", (key.tag.attribute? "attr.name").getD (key.value "id"))

def declaredKeys (content : Content) : List (String × String) :=
  (content.named "key").map declaredKey

/-- The name of a key by its last declaration, or the key itself without one. -/
def declaredName (keys : List (String × String)) (key : String) : String :=
  (keys.reverse.lookup key).getD key

def describedEdge (edge : Element) : Edge :=
  ⟨⟨edge.value "source"⟩, ⟨edge.value "target"⟩⟩

def describedEdges (content : Content) : List Edge :=
  (content.named "edge").map describedEdge

section

variable {R : Type}

def startedDraft [Scalar R] (node : Element) : Draft R :=
  { node := Node.plain ⟨node.value "id"⟩ "" }

variable [NumberText R]

/-- Sets the attribute that a data element names to the text inside it. An
unknown attribute is passed over. -/
def takeElement (keys : List (String × String)) (draft : Draft R) (data : Element) : Draft R :=
  match NodeAttribute.ofName? (declaredName keys (data.value "key")) with
  | none => draft
  | some meaning => draft.assign (String.ofList data.inside.chars) meaning

variable [Scalar R]

def describedNode (keys : List (String × String)) (node : Element) : Node R :=
  ((node.inside.named "data").foldl (takeElement keys) (startedDraft node)).finish

def described (content : Content) : Partial R :=
  ⟨(content.named "node").map (describedNode (declaredKeys content)), describedEdges content⟩

end

/-- The keys and links that an element gives by itself, whatever is inside. -/
def ownKeys (element : Element) : List (String × String) :=
  if element.name = "key" then [declaredKey element] else []

def ownEdges (element : Element) : List Edge :=
  if element.name = "edge" then [describedEdge element] else []

theorem reverse_ownKeys (element : Element) : (ownKeys element).reverse = ownKeys element := by
  rw [ownKeys]
  split <;> rfl

theorem declaredKeys_eq_nil {content : Content} (none : content.named "key" = []) :
    declaredKeys content = [] := by
  rw [declaredKeys, none, List.map_nil]

theorem declaredKeys_element (tag : Tag) (inside behind : Content) :
    declaredKeys (.element tag inside behind) =
      ownKeys ⟨tag, inside⟩ ++ (declaredKeys inside ++ declaredKeys behind) := by
  rw [declaredKeys, Content.named_element, List.map_append, List.map_append, ownKeys, declaredKeys,
    declaredKeys, Element.name, apply_ite (List.map declaredKey), List.map_singleton, List.map_nil]

theorem describedEdges_element (tag : Tag) (inside behind : Content) :
    describedEdges (.element tag inside behind) =
      ownEdges ⟨tag, inside⟩ ++ (describedEdges inside ++ describedEdges behind) := by
  rw [describedEdges, Content.named_element, List.map_append, List.map_append, ownEdges,
    describedEdges, describedEdges, Element.name, apply_ite (List.map describedEdge),
    List.map_singleton, List.map_nil]

theorem append_describedEdges_element (edges : List Edge) (tag : Tag) (inside behind : Content) :
    edges ++ describedEdges (.element tag inside behind) =
      edges ++ ownEdges ⟨tag, inside⟩ ++ describedEdges inside ++ describedEdges behind := by
  rw [describedEdges_element, List.append_assoc, List.append_assoc]

theorem append_declaredKeys_element (keys : List (String × String)) (tag : Tag)
    (inside behind : Content) :
    keys ++ declaredKeys (.element tag inside behind) =
      keys ++ ownKeys ⟨tag, inside⟩ ++ declaredKeys inside ++ declaredKeys behind := by
  rw [declaredKeys_element, List.append_assoc, List.append_assoc]

/-! ## Regular documents -/

structure Ready (element : Element) : Prop where
  sound : element.tag.Sound
  complete : ∀ name ∈ requiredAttributes element.name, (element.tag.attribute? name).isSome

instance (element : Element) : Decidable (Ready element) :=
  decidable_of_iff (element.tag.Sound ∧
      ∀ name ∈ requiredAttributes element.name, (element.tag.attribute? name).isSome)
    ⟨fun ⟨sound, complete⟩ => ⟨sound, complete⟩, fun ⟨sound, complete⟩ => ⟨sound, complete⟩⟩

/-- True of documents without a fault in a tag or a reference, that declare
keys in front of all nodes only, and do not nest nodes or data. -/
structure Regular (content : Content) : Prop where
  ready : ∀ element ∈ content.elements, Ready element
  known : ∀ chunk ∈ content.chunks, chunk.isKnown
  keysFirst : content.elements.Pairwise fun earlier later =>
    earlier.name = "node" → later.name ≠ "key"
  nodesApart : ∀ node ∈ content.named "node", node.inside.named "node" = []
  dataApart : ∀ data ∈ content.named "data", data.inside.named "data" = []

namespace Regular

theorem part {content part : Content} (regular : Regular content)
    (elements : part.elements.Sublist content.elements)
    (chunks : part.chunks.Sublist content.chunks) : Regular part where
  ready element member := regular.ready element (elements.mem member)
  known chunk member := regular.known chunk (chunks.mem member)
  keysFirst := regular.keysFirst.sublist elements
  nodesApart node member := regular.nodesApart node ((elements.filter _).mem member)
  dataApart data member := regular.dataApart data ((elements.filter _).mem member)

theorem inside {tag : Tag} {first last : Content} (regular : Regular (.element tag first last)) :
    Regular first :=
  regular.part ((List.sublist_append_left _ _).cons _) (List.sublist_append_left _ _)

theorem behind {tag : Tag} {first last : Content} (regular : Regular (.element tag first last)) :
    Regular last :=
  regular.part ((List.sublist_append_right _ _).cons _) (List.sublist_append_right _ _)

theorem behind_loose {chunk : Chunk} {last : Content} (regular : Regular (.loose chunk last)) :
    Regular last :=
  regular.part (List.Sublist.refl _) (List.sublist_cons_self _ _)

/-- Behind the start of a node no key is declared. -/
theorem noKeys_of_node {tag : Tag} {first last : Content}
    (regular : Regular (.element tag first last)) (named : String.ofList tag.name = "node") :
    first.named "key" = [] ∧ last.named "key" = [] := by
  obtain ⟨later, _⟩ := List.pairwise_cons.1 regular.keysFirst
  obtain ⟨inside, behind⟩ := List.forall_mem_append.1 later
  refine ⟨List.filter_eq_nil_iff.2 fun element member => ?_,
    List.filter_eq_nil_iff.2 fun element member => ?_⟩
  · simpa using inside element member named
  · simpa using behind element member named

theorem noKeys_behind_node {tag : Tag} {first last : Content}
    (regular : Regular (.element tag first last)) (nodes : first.named "node" ≠ []) :
    last.named "key" = [] := by
  obtain ⟨node, member⟩ := List.exists_mem_of_ne_nil _ nodes
  obtain ⟨inside, named⟩ := List.mem_filter.1 member
  obtain ⟨_, elements⟩ := List.pairwise_cons.1 regular.keysFirst
  obtain ⟨_, _, apart⟩ := List.pairwise_append.1 elements
  refine List.filter_eq_nil_iff.2 fun element behind => ?_
  simpa using apart node inside element behind (by simpa using named)

end Regular

end PeerNet.GraphML
