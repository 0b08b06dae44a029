import PeerNet.GraphML.Encode
import PeerNet.Proofs.GraphML.Resume

/-!
# Written documents read back

Every written document is read without a fault, whatever its texts hold. Its
nodes and links come back in their order; what becomes of a node is `reread`.
-/

set_option autoImplicit false

namespace PeerNet.GraphML

open Markup

variable {R : Type} [NumberText R] [Scalar R]

omit [Scalar R] in
/-- The draft of a node once its written data for a key have been read. -/
def takeData (node : Node R) (draft : Draft R) (key : Key) : Draft R :=
  match NodeAttribute.ofName? key.name with
  | none => draft
  | some meaning =>
    draft.assign (String.ofList (unifyBreaks (dataText node meaning).toList)) meaning

/-- The node that a written node is read back as. -/
def reread (node : Node R) : Node R :=
  (exportedKeys.foldl (takeData node) { node := Node.plain node.id "" }).finish

def declarations (keys : List Key) : List (String × String) :=
  (keys.map fun key => (key.id, key.name)).reverse

namespace Reading

/-- Where keys are read: inside the document, behind some of the keys. -/
def inDocument (keys : List (String × String)) : Reading R :=
  { keys, depth := 1 }

/-- Where nodes and links are read: inside the graph, behind all keys. -/
def inGraph (nodes : List (Node R)) (edges : List Edge) : Reading R :=
  { keys := declarations exportedKeys, depth := 2, nodes, edges }

def inNode (nodes : List (Node R)) (edges : List Edge) (draft : Draft R) : Reading R :=
  { inGraph nodes edges with draft := some draft, depth := 3 }

/-- The elements that are open inside the document, the graph and a node. -/
def documentPath : List (List Char) := ["graphml".toList]

def graphPath : List (List Char) := "graph".toList :: documentPath

def nodePath : List (List Char) := "node".toList :: graphPath

/-- A line is read as its content is, since its blanks are not data. -/
theorem resume_line {reading after : Reading R} {opened inner : List (List Char)}
    {content : List Char} (before : reading.data = none) (behind : after.data = none)
    (read : ∀ rest, reading.resume opened (content ++ rest) = after.resume inner rest)
    (depth : Nat) (rest : List Char) :
    reading.resume opened (line depth content ++ rest) = after.resume inner rest := by
  have blanks : ∀ c ∈ List.replicate (2 * depth) ' ', endsText c = false := by
    intro c member
    rw [List.eq_of_mem_replicate member]
    rfl
  have feed : ∀ c ∈ ['\n'], endsText c = false := List.forall_mem_singleton.2 rfl
  rw [line, List.append_assoc, List.append_assoc, resume_skip before blanks, read,
    resume_skip behind feed]

/-! ## The heading -/

theorem plain_keyTag (key : Key) : PlainTag "key" ([("id", key.id), ("for", "node"),
    ("attr.name", key.name), ("attr.type", key.type)].map (·.1)) := by
  show PlainTag "key" ["id", "for", "attr.name", "attr.type"]
  decide

omit [NumberText R] [Scalar R] in
theorem plain_nodeTag (node : Node R) : PlainTag "node" ([("id", node.id.text)].map (·.1)) := by
  show PlainTag "node" ["id"]
  decide

theorem plain_dataTag (key : Key) : PlainTag "data" ([("key", key.id)].map (·.1)) := by
  show PlainTag "data" ["key"]
  decide

theorem plain_edgeTag (edge : Edge) : PlainTag "edge" ([("id", edge.source.text),
    ("source", edge.source.text), ("target", edge.target.text)].map (·.1)) := by
  show PlainTag "edge" ["id", "source", "target"]
  decide

theorem resume_keyLine (key : Key) (keys : List (String × String)) (rest : List Char) :
    (inDocument keys : Reading R).resume documentPath (keyLine key ++ rest) =
      (inDocument ((key.id, key.name) :: keys) : Reading R).resume documentPath rest := by
  refine resume_line rfl rfl (fun rest => ?_) 1 rest
  apply resume_selfClosing (plain_keyTag key)
  have named := (Tag.name_written (plain_keyTag key).1 [("id", key.id), ("for", "node"),
    ("attr.name", key.name), ("attr.type", key.type)]).1
  simp only [takeEmpty, named, String.ofList_toList]
  rw [declareKey, required_written (plain_keyTag key) rfl, attributeOf?_written (plain_keyTag key)]
  rfl

theorem resume_keyLines (keys : List Key) (rest : List Char) :
    (inDocument [] : Reading R).resume documentPath (keys.flatMap keyLine ++ rest) =
      (inDocument (declarations keys) : Reading R).resume documentPath rest := by
  rw [resume_flatMap fun key _ => resume_keyLine key, List.foldl_flip_cons_eq_append,
    List.append_nil, declarations]

theorem resume_declaration (rest : List Char) :
    ({} : Reading R).resume []
      ("<?xml version=\"1.0\" encoding=\"UTF-8\"?>".toList ++ rest) =
        ({} : Reading R).resume [] rest := by
  have marks : '?' ∉ "xml version=\"1.0\" encoding=\"UTF-8\"".toList ∧
      '>' ∉ "xml version=\"1.0\" encoding=\"UTF-8\"".toList := by decide
  exact resume_piece (next_instruction marks rest) rfl rfl

theorem resume_documentTag (rest : List Char) :
    ({} : Reading R).resume [] (openingText "graphml" [("xmlns", nameSpace)] ++ rest) =
      (inDocument [] : Reading R).resume documentPath rest :=
  resume_opening (by decide) rfl [] rest

theorem resume_heading (rest : List Char) :
    ({} : Reading R).resume [] (heading ++ rest) =
      (inGraph [] [] : Reading R).resume graphPath rest := by
  have graph (rest : List Char) :
      (inDocument (declarations exportedKeys) : Reading R).resume documentPath
        (openingText "graph" [("edgedefault", "directed")] ++ rest) =
          (inGraph [] [] : Reading R).resume graphPath rest :=
    resume_opening (by decide) rfl documentPath rest
  simp only [heading, List.append_assoc]
  rw [resume_line rfl rfl resume_declaration, resume_line rfl rfl resume_documentTag,
    resume_keyLines exportedKeys]
  exact resume_line rfl rfl graph 1 rest

/-! ## Nodes -/

theorem meaning_of_mem_exportedKeys {key : Key} (member : key ∈ exportedKeys) :
    (declarations exportedKeys).lookup key.id = some key.name ∧
      (NodeAttribute.ofName? key.name).isSome := by
  revert key
  decide

omit [Scalar R] in
theorem assign_declared {key : Key} (member : key ∈ exportedKeys) (node : Node R)
    {meaning : NodeAttribute} (named : NodeAttribute.ofName? key.name = some meaning)
    {reading : Reading R} (declared : reading.keys = declarations exportedKeys)
    (draft : Draft R) :
    reading.assign draft key.id (unifyBreaks (dataText node meaning).toList) =
      takeData node draft key := by
  have name : reading.nameOf key.id = key.name := by
    rw [nameOf, declared, (meaning_of_mem_exportedKeys member).1]
    rfl
  rw [assign, takeData, name, named]

theorem resume_dataLine {key : Key} (member : key ∈ exportedKeys) (node : Node R)
    (nodes : List (Node R)) (edges : List Edge) (draft : Draft R) (rest : List Char) :
    (inNode nodes edges draft).resume nodePath (dataLine node key ++ rest) =
      (inNode nodes edges (takeData node draft key)).resume nodePath rest := by
  obtain ⟨meaning, named⟩ := Option.isSome_iff_exists.1 (meaning_of_mem_exportedKeys member).2
  have plain := plain_dataTag key
  refine resume_line rfl rfl (fun rest => ?_) 3 rest
  -- The data open with nothing in them, take the text in, and are set as they close.
  let opening (text : List Char) : Reading R :=
    { inNode nodes edges draft with data := some (key.id, text), depth := 4 }
  have opened : (inNode nodes edges draft).openElement ⟨tagText "data" [("key", key.id)]⟩ =
      .ok (opening []) := by
    simp only [openElement, (Tag.name_written plain.1 _).1, String.ofList_toList]
    rw [required_written plain rfl]
    rfl
  have stop : textRun (closingText "data" ++ rest) = [] := rfl
  have closed (text : List Char) : (opening text).closeElement "data".toList =
      inNode nodes edges ((opening text).assign draft key.id text) := rfl
  rw [named, Option.map_some, Option.getD_some, List.append_assoc, List.append_assoc,
    resume_opening plain opened, resume_escape stop, resume_closing (by decide)]
  have appended (text : List Char) : (opening []).appendText text = opening text := rfl
  have declared (text : List Char) : (opening text).keys = declarations exportedKeys := rfl
  rw [appended, closed, assign_declared member node named (declared _)]

theorem resume_dataLines (node : Node R) (nodes : List (Node R)) (edges : List Edge)
    (draft : Draft R) (rest : List Char) :
    (inNode nodes edges draft).resume nodePath (exportedKeys.flatMap (dataLine node) ++ rest) =
      (inNode nodes edges (exportedKeys.foldl (takeData node) draft)).resume nodePath rest :=
  resume_flatMap (fun _ member => resume_dataLine member node nodes edges) draft rest

theorem resume_nodeLines (node : Node R) (nodes : List (Node R)) (edges : List Edge)
    (rest : List Char) :
    (inGraph nodes edges).resume graphPath (nodeLines node ++ rest) =
      (inGraph (nodes ++ [reread node]) edges).resume graphPath rest := by
  have plain := plain_nodeTag node
  have opened : (inGraph nodes edges).openElement ⟨tagText "node" [("id", node.id.text)]⟩ =
      .ok (inNode nodes edges { node := Node.plain node.id "" }) := by
    simp only [openElement, (Tag.name_written plain.1 _).1, String.ofList_toList]
    rw [startNode, required_written plain rfl]
    rfl
  have opening (rest : List Char) : (inGraph nodes edges).resume graphPath
      (openingText "node" [("id", node.id.text)] ++ rest) =
        (inNode nodes edges { node := Node.plain node.id "" }).resume nodePath rest :=
    resume_opening plain opened graphPath rest
  have closing (draft : Draft R) (rest : List Char) :
      (inNode nodes edges draft).resume nodePath (closingText "node" ++ rest) =
        (inGraph (nodes ++ [draft.finish]) edges).resume graphPath rest :=
    resume_closing (by decide) _ graphPath rest
  rw [nodeLines, List.append_assoc, List.append_assoc, resume_line rfl rfl opening,
    resume_dataLines]
  exact resume_line rfl rfl (closing _) 2 rest

theorem resume_nodes (nodes : List (Node R)) (rest : List Char) :
    (inGraph [] []).resume graphPath (nodes.flatMap nodeLines ++ rest) =
      (inGraph (nodes.map reread) []).resume graphPath rest := by
  have one (node : Node R) (_ : node ∈ nodes) (earlier : List (Node R)) (rest : List Char) :
      (inGraph earlier []).resume graphPath (nodeLines node ++ rest) =
        (inGraph (earlier ++ [reread node]) []).resume graphPath rest :=
    resume_nodeLines node earlier [] rest
  have all : nodes.foldl (fun earlier node => earlier ++ [reread node]) [] = nodes.map reread := by
    rw [List.foldl_append_eq_append, List.nil_append, ← List.flatMap_def, ← List.map_eq_flatMap]
  rw [resume_flatMap one, all]

/-! ## Links -/

theorem resume_edgeLine (edge : Edge) (nodes : List (Node R)) (edges : List Edge)
    (rest : List Char) :
    (inGraph nodes edges).resume graphPath (edgeLine edge ++ rest) =
      (inGraph nodes (edges ++ [edge])).resume graphPath rest := by
  have plain := plain_edgeTag edge
  refine resume_line rfl rfl (fun rest => ?_) 2 rest
  apply resume_selfClosing plain
  simp only [takeEmpty, (Tag.name_written plain.1 _).1, String.ofList_toList]
  rw [addEdge, required_written plain rfl, required_written plain rfl]
  rfl

theorem resume_edges (edges : List Edge) (nodes : List (Node R)) (rest : List Char) :
    (inGraph nodes []).resume graphPath (edges.flatMap edgeLine ++ rest) =
      (inGraph nodes edges).resume graphPath rest := by
  have one (edge : Edge) (_ : edge ∈ edges) (earlier : List Edge) (rest : List Char) :
      (inGraph nodes earlier).resume graphPath (edgeLine edge ++ rest) =
        (inGraph nodes (earlier ++ [edge])).resume graphPath rest :=
    resume_edgeLine edge nodes earlier rest
  have all : edges.foldl (fun earlier edge => earlier ++ [edge]) [] = edges := by
    rw [List.foldl_append_eq_append, List.nil_append, ← List.flatMap_def, ← List.map_eq_flatMap,
      List.map_id']
  rw [resume_flatMap one, all]

theorem resume_ending (nodes : List (Node R)) (edges : List Edge) :
    (inGraph nodes edges).resume graphPath ending = .ok ⟨nodes, edges⟩ := by
  let behind (depth : Nat) : Reading R := { inGraph nodes edges with depth }
  have graph (rest : List Char) : (behind 2).resume graphPath (closingText "graph" ++ rest) =
      (behind 1).resume documentPath rest :=
    resume_closing (by decide) _ documentPath rest
  have document (rest : List Char) :
      (behind 1).resume documentPath (closingText "graphml" ++ rest) =
        (behind 0).resume [] rest :=
    resume_closing (by decide) _ [] rest
  have last := resume_line rfl rfl document 0 []
  rw [List.append_nil] at last
  rw [ending]
  calc (behind 2).resume graphPath (line 1 (closingText "graph") ++ line 0 (closingText "graphml"))
      = (behind 1).resume documentPath (line 0 (closingText "graphml")) :=
        resume_line rfl rfl graph 1 _
    _ = (behind 0).resume [] [] := last
    _ = .ok ⟨nodes, edges⟩ := resume_nil _ _

end Reading

omit [Scalar R] in
theorem id_takeData (node : Node R) (draft : Draft R) (key : Key) :
    (takeData node draft key).node.id = draft.node.id := by
  rw [takeData]
  cases NodeAttribute.ofName? key.name with
  | none => rfl
  | some meaning => exact draft.id_assign _ meaning

theorem id_reread (node : Node R) : (reread node).id = node.id := by
  have kept (keys : List Key) (draft : Draft R) :
      (keys.foldl (takeData node) draft).node.id = draft.node.id := by
    induction keys generalizing draft with
    | nil => rfl
    | cons key keys ih => rw [List.foldl_cons, ih, id_takeData]
  have finished (draft : Draft R) : draft.finish.id = draft.node.id := rfl
  rw [reread, finished, kept]
  rfl

/-- A document without a byte order mark is read from its start. -/
theorem decode_eq_resume {document : List Char} (unmarked : document.head? ≠ some '\ufeff') :
    decode (String.ofList document) = ({} : Reading R).resume [] document := by
  have scanned : scan document = scanInside [] document := by
    unfold scan
    split
    · exact absurd rfl unmarked
    · rfl
  have events : decode (String.ofList document) =
      ({} : Reading R).conclude (scan (String.ofList document).toList) := rfl
  rw [events, String.toList_ofList, scanned, Reading.resume]

/-- Every written document is read, each node as its own rereading. -/
theorem decode_encode (topology : Topology R) :
    decode (encode topology) = .ok ⟨topology.nodes.map reread, topology.edges⟩ := by
  have text : encodeChars topology =
      heading ++ (topology.nodes.flatMap nodeLines ++
        (topology.edges.flatMap edgeLine ++ ending)) := by
    simp [encodeChars]
  have unmarked : (encodeChars topology).head? ≠ some '\ufeff' := by
    rw [text]
    intro same
    cases same
  rw [encode, decode_eq_resume unmarked, text, Reading.resume_heading, Reading.resume_nodes,
    Reading.resume_edges, Reading.resume_ending]

/-- Every written document is read without a fault, with all nodes and all
links in their places. -/
theorem decode_encode_keeps_ids_and_edges (topology : Topology R) :
    ∃ read : Partial R, decode (encode topology) = .ok read ∧
      read.nodes.map (·.id) = topology.nodes.map (·.id) ∧ read.edges = topology.edges := by
  refine ⟨_, decode_encode topology, ?_, rfl⟩
  rw [List.map_map]
  exact List.map_congr_left fun node _ => id_reread node

end PeerNet.GraphML
