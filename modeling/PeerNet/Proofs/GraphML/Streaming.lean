import PeerNet.Proofs.GraphML.Described
import PeerNet.Proofs.GraphML.Resume
import PeerNet.Proofs.GraphML.Settled

/-!
# Reading in one pass

A reading takes the pieces of a document as they come. On regular documents it
arrives at what the document describes: by the time a node is read, all keys
are declared, and data are complete when they close.
-/

set_option autoImplicit false

namespace PeerNet.GraphML

open Markup

variable {R : Type}

/-! ## Attributes -/

theorem attributeOf?_of_sound {tag : Tag} (sound : tag.Sound) (name : String) :
    attributeOf? tag name = .ok (tag.attribute? name) := by
  rw [attributeOf?, Tag.value?, Tag.attribute?]
  simp only [sound.attributes]
  cases found : tag.attributes.1.find? (·.name = name.toList) with
  | none => rfl
  | some entry =>
    have readable := sound.values entry (List.mem_of_find?_eq_some found)
    cases value : unescape entry.value with
    | error fault =>
      rw [value] at readable
      cases readable
    | ok text => simp [value, Except.toOption]

theorem required_of_ready {element : Element} (ready : Ready element) {name : String}
    (listed : name ∈ requiredAttributes element.name) (kind : String) :
    required element.tag kind name = .ok (element.value name) := by
  obtain ⟨value, given⟩ := Option.isSome_iff_exists.1 (ready.complete name listed)
  rw [required, attributeOf?_of_sound ready.sound, given, Element.value, given]
  rfl

namespace Reading

theorem declareKey_of_ready {element : Element} (ready : Ready element)
    (named : element.name = "key") (reading : Reading R) :
    reading.declareKey element.tag =
      .ok { reading with keys := declaredKey element :: reading.keys } := by
  have listed : "id" ∈ requiredAttributes element.name := by rw [named]; decide
  rw [declareKey, required_of_ready ready listed, attributeOf?_of_sound ready.sound]
  rfl

theorem addEdge_of_ready {element : Element} (ready : Ready element)
    (named : element.name = "edge") (reading : Reading R) :
    reading.addEdge element.tag =
      .ok { reading with edges := reading.edges ++ [describedEdge element] } := by
  have source : "source" ∈ requiredAttributes element.name := by rw [named]; decide
  have target : "target" ∈ requiredAttributes element.name := by rw [named]; decide
  rw [addEdge, required_of_ready ready source, required_of_ready ready target]
  rfl

theorem startNode_of_ready [Scalar R] {element : Element} (ready : Ready element)
    (named : element.name = "node") :
    startNode element.tag = .ok (startedDraft element : Draft R) := by
  have listed : "id" ∈ requiredAttributes element.name := by rw [named]; decide
  rw [startNode, required_of_ready ready listed]
  rfl

/-! ## One element -/

variable [NumberText R] [Scalar R]

omit [NumberText R] in
theorem openElement_node {element : Element} (ready : Ready element)
    (named : element.name = "node") (reading : Reading R) :
    reading.openElement element.tag =
      .ok { reading with draft := some (startedDraft element), depth := reading.depth + 1 } := by
  have kind : String.ofList element.tag.name = "node" := named
  simp only [openElement, kind, startNode_of_ready ready named]
  rfl

omit [NumberText R] in
theorem openElement_data {element : Element} (ready : Ready element)
    (named : element.name = "data") {reading : Reading R} (drafted : reading.draft.isSome) :
    reading.openElement element.tag =
      .ok { reading with data := some (element.value "key", []), depth := reading.depth + 1 } := by
  have kind : String.ofList element.tag.name = "data" := named
  have listed : "key" ∈ requiredAttributes element.name := by rw [named]; decide
  simp only [openElement, kind, required_of_ready ready listed, drafted, ↓reduceIte]
  rfl

omit [NumberText R] in
/-- Elements that neither open a node nor set data. -/
theorem openElement_passing {element : Element} (ready : Ready element) {reading : Reading R}
    (noNode : element.name ≠ "node") (noData : element.name = "data" → reading.draft = none) :
    reading.openElement element.tag =
      .ok { reading with
        keys := ownKeys element ++ reading.keys
        edges := reading.edges ++ ownEdges element
        depth := reading.depth + 1 } := by
  have kind : String.ofList element.tag.name = element.name := rfl
  rw [openElement, kind, ownKeys, ownEdges]
  split
  · next named => simp [declareKey_of_ready ready named, named]
  · next named => exact absurd named noNode
  · next named => simp [noData named, named]
  · next named => simp [addEdge_of_ready ready named, named]
  · next noKey _ _ noEdge =>
    rw [if_neg noKey, if_neg noEdge, List.append_nil]
    rfl

theorem takeEmpty_passing {element : Element} (ready : Ready element) {reading : Reading R}
    (noNode : element.name ≠ "node") (noData : element.name = "data" → reading.draft = none) :
    reading.takeEmpty element.tag =
      .ok { reading with
        keys := ownKeys element ++ reading.keys
        edges := reading.edges ++ ownEdges element } := by
  have kind : String.ofList element.tag.name = element.name := rfl
  obtain ⟨keys, draft, data, depth, nodes, edges⟩ := reading
  rw [takeEmpty, kind, ownKeys, ownEdges]
  split
  · next named => simp [declareKey_of_ready ready named, named]
  · next named => exact absurd named noNode
  · next named =>
    cases noData named
    simp [named]
  · next named => simp [addEdge_of_ready ready named, named]
  · next noKey _ _ noEdge =>
    rw [if_neg noKey, if_neg noEdge, List.append_nil]
    rfl

omit [Scalar R] in
theorem closeElement_passing {element : Element} {reading : Reading R}
    (noNode : element.name ≠ "node") (noData : element.name = "data" → reading.data = none) :
    reading.closeElement element.tag.name = { reading with depth := reading.depth - 1 } := by
  have kind : String.ofList element.tag.name = element.name := rfl
  rw [closeElement, kind]
  split
  · next named =>
    have idle := noData named
    cases reading
    cases idle
    rfl
  · next named => exact absurd named noNode
  · rfl

/-- An element that closes itself is taken in as one that is closed at once. -/
theorem takeEmpty_of_ready {element : Element} (ready : Ready element) {reading : Reading R}
    (noNode : element.name = "node" → reading.draft = none)
    (noData : element.name = "data" → reading.data = none) :
    ∃ first, reading.openElement element.tag = .ok first ∧
      reading.takeEmpty element.tag = .ok (first.closeElement element.tag.name) := by
  have kind : String.ofList element.tag.name = element.name := rfl
  obtain ⟨keys, draft, data, depth, nodes, edges⟩ := reading
  by_cases node : element.name = "node"
  · refine ⟨_, openElement_node ready node _, ?_⟩
    cases noNode node
    simp only [takeEmpty, closeElement, kind, node, startNode_of_ready ready node]
    rfl
  by_cases drafted : element.name = "data" ∧ draft.isSome
  · obtain ⟨named, known⟩ := drafted
    refine ⟨_, openElement_data ready named known, ?_⟩
    obtain ⟨current, rfl⟩ := Option.isSome_iff_exists.1 known
    cases noData named
    have listed : "key" ∈ requiredAttributes element.name := by rw [named]; decide
    simp only [takeEmpty, closeElement, kind, named, required_of_ready ready listed]
    rfl
  have undrafted : element.name = "data" → draft = none := by
    intro named
    simpa [named] using drafted
  refine ⟨_, openElement_passing ready node undrafted, ?_⟩
  have closed {first : Reading R} (same : first.data = data) :
      first.closeElement element.tag.name = { first with depth := first.depth - 1 } :=
    closeElement_passing node fun named => same.trans (noData named)
  rw [closed rfl]
  exact takeEmpty_passing ready node undrafted

/-! ## Content -/

/-- True if a reading that takes a content in arrives at another reading,
whatever stands behind. -/
def Takes (reading : Reading R) (content : Content) (after : Reading R) : Prop :=
  ∀ rest, reading.steps (content.pieces ++ rest) = after.steps rest

theorem takes_nothing (reading : Reading R) : Takes reading .nothing reading :=
  fun _ => rfl

theorem takes_element {reading first middle last : Reading R} {tag : Tag}
    {inside behind : Content} (opened : reading.openElement tag = .ok first)
    (within : Takes first inside middle)
    (later : Takes (middle.closeElement tag.name) behind last) :
    Takes reading (.element tag inside behind) last := by
  intro rest
  have pieces : (Content.element tag inside behind).pieces ++ rest =
      .opening tag :: (inside.pieces ++ .closing tag.name :: (behind.pieces ++ rest)) := by
    simp [Content.pieces]
  rw [pieces, steps, step, opened]
  simp only [within _]
  rw [steps, step]
  exact later rest

theorem takes_selfClosing {reading last : Reading R} {tag : Tag} {behind : Content}
    (ready : Ready ⟨tag, .nothing⟩)
    (noNode : String.ofList tag.name = "node" → reading.draft = none)
    (noData : String.ofList tag.name = "data" → reading.data = none)
    (whole : Takes reading (.element tag .nothing behind) last) :
    Takes reading (.selfClosing tag behind) last := by
  intro rest
  obtain ⟨first, opened, taken⟩ := takeEmpty_of_ready ready noNode noData
  have closed : reading.steps (.opening tag :: .closing tag.name :: (behind.pieces ++ rest)) =
      last.steps rest := whole rest
  rw [steps, step, opened] at closed
  rw [Content.pieces, List.cons_append, steps, step, taken]
  exact closed

theorem takes_loose {reading after : Reading R} {chunk : Chunk} {behind : Content}
    (known : chunk.isKnown) (later : Takes (reading.appendText chunk.chars) behind after) :
    Takes reading (.loose chunk behind) after := by
  intro rest
  have taken : reading.step chunk.event = .ok (reading.appendText chunk.chars) := by
    cases chunk with
    | text content => rfl
    | literal content => rfl
    | remark => rw [Chunk.chars, appendText_nil]; rfl
    | reference name =>
      obtain ⟨c, resolved⟩ := Option.isSome_iff_exists.1 known
      rw [Chunk.event, step, Chunk.chars, resolved]
      split
      · rw [referenceText, resolve?_of_resolved? resolved]
        rfl
      · next idle => rw [appendText_of_idle (by simpa using idle)]
  rw [Content.pieces, List.cons_append, steps, taken]
  exact later rest

theorem takes_passing {reading first middle last : Reading R} {tag : Tag}
    {inside behind : Content} (ready : Ready ⟨tag, inside⟩)
    (noNode : String.ofList tag.name ≠ "node")
    (noData : String.ofList tag.name = "data" → reading.draft = none ∧ middle.data = none)
    (opened : { reading with
      keys := ownKeys ⟨tag, inside⟩ ++ reading.keys
      edges := reading.edges ++ ownEdges ⟨tag, inside⟩
      depth := reading.depth + 1 } = first)
    (within : Takes first inside middle)
    (later : Takes { middle with depth := middle.depth - 1 } behind last) :
    Takes reading (.element tag inside behind) last := by
  refine takes_element (opened ▸ openElement_passing ready noNode fun named => (noData named).1)
    within ?_
  have closed : middle.closeElement (⟨tag, inside⟩ : Element).tag.name =
      { middle with depth := middle.depth - 1 } :=
    closeElement_passing noNode fun named => (noData named).2
  exact closed ▸ later

/-- Within data, text is gathered and links are read. -/
theorem takes_inData {content : Content} (regular : Regular content)
    (noKeys : content.named "key" = []) (noNodes : content.named "node" = [])
    (noData : content.named "data" = []) (keys : List (String × String))
    (draft : Option (Draft R)) (key : String) (text : List Char) (depth : Nat)
    (nodes : List (Node R)) (edges : List Edge) :
    Takes ⟨keys, draft, some (key, text), depth, nodes, edges⟩ content
      ⟨keys, draft, some (key, text ++ content.chars), depth, nodes,
        edges ++ describedEdges content⟩ := by
  induction content using Content.induction_empty generalizing text depth edges with
  | nothing =>
    have same : edges ++ describedEdges .nothing = edges := List.append_nil edges
    rw [Content.chars, List.append_nil, same]
    exact takes_nothing _
  | element tag inside behind ihInside ihBehind =>
    obtain ⟨notKey, noKeysInside, noKeysBehind⟩ := Content.named_element_eq_nil noKeys
    obtain ⟨notNode, noNodesInside, noNodesBehind⟩ := Content.named_element_eq_nil noNodes
    obtain ⟨notData, noDataInside, noDataBehind⟩ := Content.named_element_eq_nil noData
    have own : ownKeys ⟨tag, inside⟩ = [] := if_neg notKey
    rw [append_describedEdges_element, Content.chars, ← List.append_assoc]
    have within := ihInside regular.inside noKeysInside noNodesInside noDataInside text (depth + 1)
      (edges ++ ownEdges ⟨tag, inside⟩)
    have later := ihBehind regular.behind noKeysBehind noNodesBehind noDataBehind
      (text ++ inside.chars) depth (edges ++ ownEdges ⟨tag, inside⟩ ++ describedEdges inside)
    exact takes_passing (regular.ready _ List.mem_cons_self) notNode
      (fun named => absurd named notData) (by rw [own]; rfl) within later
  | empty tag behind ih =>
    have notNode := (Content.named_element_eq_nil noNodes).1
    have notData := (Content.named_element_eq_nil noData).1
    exact takes_selfClosing (regular.ready _ List.mem_cons_self) (fun named => absurd named notNode)
      (fun named => absurd named notData) (ih (regular.part (.refl _) (.refl _)) noKeys noNodes
        noData text depth edges)
  | loose chunk behind ih =>
    rw [Content.chars, ← List.append_assoc]
    exact takes_loose (regular.known _ List.mem_cons_self)
      (ih regular.behind_loose noKeys noNodes noData (text ++ chunk.chars) depth edges)

omit [Scalar R] in
theorem closeElement_data {element : Element} (named : element.name = "data")
    (keys : List (String × String)) (draft : Draft R) (depth : Nat) (nodes : List (Node R))
    (edges : List Edge) :
    (⟨keys.reverse, some draft, some (element.value "key", element.inside.chars), depth + 1, nodes,
      edges⟩ : Reading R).closeElement element.tag.name =
      ⟨keys.reverse, some (takeElement keys draft element), none, depth, nodes, edges⟩ := by
  have kind : String.ofList element.tag.name = "data" := named
  simp only [closeElement, kind]
  rfl

omit [Scalar R] in
theorem closeElement_node {element : Element} (named : element.name = "node")
    (keys : List (String × String)) (draft : Draft R) (depth : Nat) (nodes : List (Node R))
    (edges : List Edge) :
    (⟨keys, some draft, none, depth + 1, nodes, edges⟩ : Reading R).closeElement
        element.tag.name =
      ⟨keys, none, none, depth, nodes ++ [draft.finish], edges⟩ := by
  have kind : String.ofList element.tag.name = "node" := named
  simp only [closeElement, kind]
  rfl

/-- Within a node, its data are set one after the other. -/
theorem takes_inNode {content : Content} (regular : Regular content)
    (noKeys : content.named "key" = []) (noNodes : content.named "node" = [])
    (keys : List (String × String)) (draft : Draft R) (depth : Nat) (nodes : List (Node R))
    (edges : List Edge) :
    Takes ⟨keys.reverse, some draft, none, depth, nodes, edges⟩ content
      ⟨keys.reverse, some ((content.named "data").foldl (takeElement keys) draft), none, depth,
        nodes, edges ++ describedEdges content⟩ := by
  induction content using Content.induction_empty generalizing draft depth edges with
  | nothing =>
    have same : edges ++ describedEdges .nothing = edges := List.append_nil edges
    rw [same]
    exact takes_nothing _
  | element tag inside behind ihInside ihBehind =>
    obtain ⟨notKey, noKeysInside, noKeysBehind⟩ := Content.named_element_eq_nil noKeys
    obtain ⟨notNode, noNodesInside, noNodesBehind⟩ := Content.named_element_eq_nil noNodes
    have ready : Ready ⟨tag, inside⟩ := regular.ready _ List.mem_cons_self
    rw [append_describedEdges_element, Content.named_element]
    by_cases named : String.ofList tag.name = "data"
    · have apart : inside.named "data" = [] :=
        regular.dataApart _ (Content.mem_named_element named inside behind)
      have noEdge : ownEdges ⟨tag, inside⟩ = [] := if_neg (by rw [Element.name, named]; decide)
      have within := takes_inData regular.inside noKeysInside noNodesInside apart keys.reverse
        (some draft) ((⟨tag, inside⟩ : Element).value "key") [] (depth + 1) nodes edges
      have later := ihBehind regular.behind noKeysBehind noNodesBehind
        (takeElement keys draft ⟨tag, inside⟩) depth (edges ++ describedEdges inside)
      have closed := closeElement_data (show (⟨tag, inside⟩ : Element).name = "data" from named)
        keys draft depth nodes (edges ++ describedEdges inside)
      rw [if_pos named, apart, noEdge, List.append_nil]
      exact takes_element (openElement_data ready named rfl) within (closed ▸ later)
    · have own : ownKeys ⟨tag, inside⟩ = [] := if_neg notKey
      have within := ihInside regular.inside noKeysInside noNodesInside draft (depth + 1)
        (edges ++ ownEdges ⟨tag, inside⟩)
      have later := ihBehind regular.behind noKeysBehind noNodesBehind
        ((inside.named "data").foldl (takeElement keys) draft) depth
        (edges ++ ownEdges ⟨tag, inside⟩ ++ describedEdges inside)
      rw [if_neg named, List.nil_append, List.foldl_append]
      exact takes_passing ready notNode (fun same => absurd same named) (by rw [own]; rfl) within
        later
  | empty tag behind ih =>
    have notNode := (Content.named_element_eq_nil noNodes).1
    exact takes_selfClosing (regular.ready _ List.mem_cons_self) (fun named => absurd named notNode)
      (fun _ => rfl) (ih (regular.part (.refl _) (.refl _)) noKeys noNodes draft depth edges)
  | loose chunk behind ih =>
    exact takes_loose (regular.known _ List.mem_cons_self)
      (ih regular.behind_loose noKeys noNodes draft depth edges)

/-- Outside nodes, keys are declared, and nodes and links are read. A node that
is read by the keys so far is read by all of them, since no more follow. -/
theorem takes_outside {content : Content} (regular : Regular content)
    (keys : List (String × String)) (depth : Nat) (nodes : List (Node R)) (edges : List Edge) :
    Takes ⟨keys.reverse, none, none, depth, nodes, edges⟩ content
      ⟨(keys ++ declaredKeys content).reverse, none, none, depth,
        nodes ++ (content.named "node").map (describedNode (keys ++ declaredKeys content)),
        edges ++ describedEdges content⟩ := by
  induction content using Content.induction_empty generalizing keys depth nodes edges with
  | nothing =>
    have noKeys : keys ++ declaredKeys .nothing = keys := List.append_nil keys
    have noEdges : edges ++ describedEdges .nothing = edges := List.append_nil edges
    have noNodes (f : Element → Node R) : nodes ++ (Content.nothing.named "node").map f = nodes :=
      List.append_nil nodes
    rw [noKeys, noEdges, noNodes]
    exact takes_nothing _
  | element tag inside behind ihInside ihBehind =>
    have ready : Ready ⟨tag, inside⟩ := regular.ready _ List.mem_cons_self
    rw [append_describedEdges_element, append_declaredKeys_element, Content.named_element]
    by_cases named : String.ofList tag.name = "node"
    · obtain ⟨noKeysInside, noKeysBehind⟩ := regular.noKeys_of_node named
      have apart : inside.named "node" = [] :=
        regular.nodesApart _ (Content.mem_named_element named inside behind)
      have noEdge : ownEdges ⟨tag, inside⟩ = [] := if_neg (by rw [Element.name, named]; decide)
      have noKey : ownKeys ⟨tag, inside⟩ = [] := if_neg (by rw [Element.name, named]; decide)
      have within := takes_inNode regular.inside noKeysInside apart keys
        (startedDraft ⟨tag, inside⟩) (depth + 1) nodes edges
      have later := ihBehind regular.behind keys depth
        (nodes ++ [describedNode keys ⟨tag, inside⟩]) (edges ++ describedEdges inside)
      have closed := closeElement_node (show (⟨tag, inside⟩ : Element).name = "node" from named)
        keys.reverse ((inside.named "data").foldl (takeElement keys) (startedDraft ⟨tag, inside⟩))
        depth nodes (edges ++ describedEdges inside)
      rw [declaredKeys_eq_nil noKeysBehind, List.append_nil, List.append_assoc] at later
      rw [if_pos named, apart, noEdge, noKey, declaredKeys_eq_nil noKeysInside,
        declaredKeys_eq_nil noKeysBehind, List.append_nil, List.append_nil, List.append_nil,
        List.append_nil, List.nil_append, List.map_append]
      exact takes_element (openElement_node ready named _) within (closed ▸ later)
    · have early : (inside.named "node").map (describedNode (R := R) (keys ++
          ownKeys ⟨tag, inside⟩ ++ declaredKeys inside)) =
            (inside.named "node").map (describedNode (keys ++ ownKeys ⟨tag, inside⟩ ++
              declaredKeys inside ++ declaredKeys behind)) := by
        by_cases none : inside.named "node" = []
        · rw [none, List.map_nil, List.map_nil]
        · rw [declaredKeys_eq_nil (regular.noKeys_behind_node none), List.append_nil]
      have within := ihInside regular.inside (keys ++ ownKeys ⟨tag, inside⟩) (depth + 1) nodes
        (edges ++ ownEdges ⟨tag, inside⟩)
      rw [early] at within
      have later := ihBehind regular.behind (keys ++ ownKeys ⟨tag, inside⟩ ++ declaredKeys inside)
        depth (nodes ++ (inside.named "node").map (describedNode (keys ++ ownKeys ⟨tag, inside⟩ ++
          declaredKeys inside ++ declaredKeys behind)))
        (edges ++ ownEdges ⟨tag, inside⟩ ++ describedEdges inside)
      rw [List.append_assoc nodes, ← List.map_append] at later
      have opened : ownKeys ⟨tag, inside⟩ ++ keys.reverse =
          (keys ++ ownKeys ⟨tag, inside⟩).reverse := by
        rw [List.reverse_append, reverse_ownKeys]
      rw [if_neg named, List.nil_append]
      exact takes_passing ready named (fun _ => ⟨rfl, rfl⟩) (by rw [opened]) within later
  | empty tag behind ih =>
    exact takes_selfClosing (regular.ready _ List.mem_cons_self) (fun _ => rfl) (fun _ => rfl)
      (ih (regular.part (.refl _) (.refl _)) keys depth nodes edges)
  | loose chunk behind ih =>
    exact takes_loose (regular.known _ List.mem_cons_self)
      (ih regular.behind_loose keys depth nodes edges)

end Reading

variable [NumberText R] [Scalar R]

/-- A document without a fault whose elements are closed is a tree, and if it is
regular it is read as what the tree describes. -/
theorem decode_eq_described {document : String} (clean : (scan document.toList).2 = none)
    (balanced : nestAll [] (scan document.toList).1 = .ok []) :
    (∃ content : Content, (scan document.toList).1 = content.pieces) ∧
      ∀ content : Content, (scan document.toList).1 = content.pieces → Regular content →
        decode document = .ok (described content : Partial R) := by
  refine ⟨exists_content balanced, fun content written regular => ?_⟩
  have taken : ({} : Reading R).steps (content.pieces ++ []) = .ok
      ⟨(declaredKeys content).reverse, none, none, 0,
        (content.named "node").map (describedNode (declaredKeys content)),
        describedEdges content⟩ :=
    Reading.takes_outside regular [] 0 [] [] []
  rw [List.append_nil, ← written] at taken
  have events : decode document =
      decodeEvents (R := R) (scan document.toList).1 (scan document.toList).2 := rfl
  rw [events, decodeEvents, taken, clean]
  rfl

/-- Two keys with one id, one without a name, text around an element, data in
another element, data of an unknown attribute, and empty data. -/
def sketchChars : List Char :=
  "<graph><key id='d' attr.name='x'/><key id='d' attr.name='label'/>".toList ++
    "<key id='y'/><edge source='b' target='a'/><node id='a'><data key='d'>".toList ++
    "1 &amp; <i>2</i><![CDATA[ <3>]]></data><port><data key='y'> 1.5 </data>".toList ++
    "</port><data key='hue'>red</data><data key='version'/></node><!-- -->".toList ++
    "<node id='b'/></graph>".toList

def sketch : String :=
  String.ofList sketchChars

def sketchTag (content : String) : Tag :=
  ⟨content.toList⟩

def sketchText (content : String) (behind : Content) : Content :=
  .loose (.text content.toList) behind

def sketchLabel : Content :=
  sketchText "1 " <| .loose (.reference "amp".toList) <| sketchText " " <|
    .element (sketchTag "i") (sketchText "2" .nothing) <|
    .loose (.literal " <3>".toList) .nothing

def sketchNode : Content :=
  .element (sketchTag "data key='d'") sketchLabel <|
    .element (sketchTag "port")
      (.element (sketchTag "data key='y'") (sketchText " 1.5 " .nothing) .nothing) <|
    .element (sketchTag "data key='hue'") (sketchText "red" .nothing) <|
    .selfClosing (sketchTag "data key='version'") .nothing

def sketchContent : Content :=
  .element (sketchTag "graph")
    (.selfClosing (sketchTag "key id='d' attr.name='x'") <|
      .selfClosing (sketchTag "key id='d' attr.name='label'") <|
      .selfClosing (sketchTag "key id='y'") <|
      .selfClosing (sketchTag "edge source='b' target='a'") <|
      .element (sketchTag "node id='a'") sketchNode <| .loose .remark <|
      .selfClosing (sketchTag "node id='b'") .nothing) .nothing

theorem decode_eq_described_sketch :
    (scan sketch.toList).2 = none ∧ nestAll [] (scan sketch.toList).1 = .ok [] ∧
      (scan sketch.toList).1 = sketchContent.pieces ∧ Regular sketchContent ∧
      decode sketch = .ok (⟨[
        { Node.plain ⟨"a"⟩ "1 & 2 <3>" with position := ⟨0.0, 1.5⟩ },
        Node.plain ⟨"b"⟩ "b"], [⟨⟨"b"⟩, ⟨"a"⟩⟩]⟩ : Partial Float) := by
  have scanned : scan sketch.toList = (sketchContent.pieces, none) := by
    rw [sketch, String.toList_ofList]
    decide +kernel
  have nested : nestAll [] sketchContent.pieces = .ok [] := by decide +kernel
  have clean : (scan sketch.toList).2 = none := congrArg Prod.snd scanned
  have written : (scan sketch.toList).1 = sketchContent.pieces := congrArg Prod.fst scanned
  have balanced : nestAll [] (scan sketch.toList).1 = .ok [] := written ▸ nested
  have regular : Regular sketchContent :=
    ⟨by decide +kernel, by decide +kernel, by decide +kernel, by decide +kernel,
      by decide +kernel⟩
  refine ⟨clean, balanced, written, regular, ?_⟩
  have result : described sketchContent = (⟨[
      { Node.plain ⟨"a"⟩ "1 & 2 <3>" with position := ⟨0.0, 1.5⟩ },
      Node.plain ⟨"b"⟩ "b"], [⟨⟨"b"⟩, ⟨"a"⟩⟩]⟩ : Partial Float) := by
    decide +kernel
  rw [← result]
  exact (decode_eq_described clean balanced).2 sketchContent written regular

end PeerNet.GraphML
