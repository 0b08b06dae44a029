import PeerNet.Proofs.GraphML.Described
import PeerNet.Proofs.GraphML.Step

/-!
# Elements that are kept

Which elements of a document its reading keeps, whatever the data of the nodes.
Links are all kept. A node that opens takes the place of the one being read, so
that a node is lost exactly if another one opens inside it; a node that closes
itself takes no place.
-/

set_option autoImplicit false

namespace PeerNet.GraphML

open Markup

/-! ## Nodes in a content -/

def nodeId (node : Element) : NodeId :=
  ⟨node.value "id"⟩

/-- True if a node opens in a content. One that closes itself does not open. -/
def opensNode : Content → Bool
  | .nothing => false
  | .element tag inside behind =>
    String.ofList tag.name = "node" || opensNode inside || opensNode behind
  | .selfClosing _ behind => opensNode behind
  | .loose _ behind => opensNode behind

/-- True of the nodes that no other one opens in. -/
def isInmost (element : Element) : Bool :=
  !opensNode element.inside && element.name = "node"

/-- The nodes that no other one opens in, in the order in which they close. -/
def inmostNodes : Content → List Element
  | .nothing => []
  | .element tag inside behind =>
    inmostNodes inside ++ [⟨tag, inside⟩].filter isInmost ++ inmostNodes behind
  | .selfClosing tag behind => [⟨tag, .nothing⟩].filter isInmost ++ inmostNodes behind
  | .loose _ behind => inmostNodes behind

theorem filter_named_node (content : Content) :
    (content.named "node").filter (!opensNode ·.inside) = content.elements.filter isInmost :=
  List.filter_filter

theorem inmostNodes_perm (content : Content) :
    (inmostNodes content).Perm (content.elements.filter isInmost) := by
  induction content with
  | nothing => exact .refl _
  | element tag inside behind ihInside ihBehind =>
    have own : (Content.element tag inside behind).elements.filter isInmost =
        [⟨tag, inside⟩].filter isInmost ++ (inside.elements ++ behind.elements).filter isInmost :=
      List.filter_append [_] _
    rw [inmostNodes, own, List.filter_append, ← List.append_assoc]
    exact (List.perm_append_comm.trans (ihInside.append_left _)).append ihBehind
  | selfClosing tag behind ih =>
    have own : (Content.selfClosing tag behind).elements.filter isInmost =
        [⟨tag, .nothing⟩].filter isInmost ++ behind.elements.filter isInmost :=
      List.filter_append [_] _
    rw [inmostNodes, own]
    exact ih.append_left _
  | loose chunk behind ih => exact ih

/-- The tag that starts an element. -/
def tagOf? : Event → Option Tag
  | .opening tag => some tag
  | .selfClosing tag => some tag
  | _ => none

theorem exists_piece_of_element {content : Content} {element : Element}
    (member : element ∈ content.elements) :
    ∃ event ∈ content.pieces, tagOf? event = some element.tag := by
  induction content with
  | nothing => cases member
  | element tag inside behind ihInside ihBehind =>
    rcases List.mem_cons.1 member with rfl | later
    · exact ⟨.opening tag, List.mem_cons_self, rfl⟩
    · rcases List.mem_append.1 later with within | after
      · obtain ⟨event, piece, tagged⟩ := ihInside within
        exact ⟨event, List.mem_cons_of_mem _ (List.mem_append_left _ piece), tagged⟩
      · obtain ⟨event, piece, tagged⟩ := ihBehind after
        have late : event ∈ .closing tag.name :: behind.pieces := List.mem_cons_of_mem _ piece
        exact ⟨event, List.mem_cons_of_mem _ (List.mem_append_right _ late), tagged⟩
  | selfClosing tag behind ih =>
    rcases List.mem_cons.1 member with rfl | later
    · exact ⟨.selfClosing tag, List.mem_cons_self, rfl⟩
    · obtain ⟨event, piece, tagged⟩ := ih later
      exact ⟨event, List.mem_cons_of_mem _ piece, tagged⟩
  | loose chunk behind ih =>
    obtain ⟨event, piece, tagged⟩ := ih member
    exact ⟨event, List.mem_cons_of_mem _ piece, tagged⟩

/-! ## Outlines -/

/-- A reading without the data of its nodes. -/
structure Outline where
  opened : Option NodeId
  closed : List NodeId
  edges : List Edge

namespace Outline

def take (outline : Outline) : Event → Outline
  | .opening tag =>
    { outline with
      opened := if String.ofList tag.name = "node" then some (nodeId ⟨tag, .nothing⟩)
        else outline.opened
      edges := outline.edges ++ ownEdges ⟨tag, .nothing⟩ }
  | .selfClosing tag =>
    { outline with
      closed := outline.closed ++
        if String.ofList tag.name = "node" then [nodeId ⟨tag, .nothing⟩] else []
      edges := outline.edges ++ ownEdges ⟨tag, .nothing⟩ }
  | .closing name =>
    if String.ofList name = "node" then
      { outline with opened := none, closed := outline.closed ++ outline.opened.toList }
    else outline
  | _ => outline

/-- Behind a content, its innermost nodes are closed. A node that was open
before is still open only if no other one opened. -/
theorem foldl_take_pieces (content : Content) (outline : Outline) :
    content.pieces.foldl take outline =
      ⟨if opensNode content then none else outline.opened,
        outline.closed ++ (inmostNodes content).map nodeId,
        outline.edges ++ describedEdges content⟩ := by
  induction content generalizing outline with
  | nothing =>
    have noEdges : outline.edges ++ describedEdges .nothing = outline.edges := List.append_nil _
    have noNodes : outline.closed ++ (inmostNodes .nothing).map nodeId = outline.closed :=
      List.append_nil _
    rw [noEdges, noNodes]
    rfl
  | element tag inside behind ihInside ihBehind =>
    have sameEdges : ownEdges ⟨tag, .nothing⟩ = ownEdges ⟨tag, inside⟩ := rfl
    have sameId : nodeId ⟨tag, .nothing⟩ = nodeId ⟨tag, inside⟩ := rfl
    rw [Content.pieces, List.foldl_cons, List.foldl_append, ihInside, List.foldl_cons, ihBehind,
      append_describedEdges_element]
    by_cases named : String.ofList tag.name = "node"
    · cases within : opensNode inside with
      | true =>
        simp [take, opensNode, inmostNodes, isInmost, Element.name, named, within, sameEdges]
      | false =>
        simp [take, opensNode, inmostNodes, isInmost, Element.name, named, within, sameEdges,
          sameId]
    · cases within : opensNode inside with
      | true =>
        simp [take, opensNode, inmostNodes, isInmost, Element.name, named, within, sameEdges]
      | false =>
        simp [take, opensNode, inmostNodes, isInmost, Element.name, named, within, sameEdges]
  | selfClosing tag behind ih =>
    have edges : describedEdges (.selfClosing tag behind) =
        ownEdges ⟨tag, .nothing⟩ ++ describedEdges behind :=
      describedEdges_element tag .nothing behind
    have opens : opensNode (.selfClosing tag behind) = opensNode behind := rfl
    rw [Content.pieces, List.foldl_cons, ih, edges, opens]
    by_cases named : String.ofList tag.name = "node"
    · simp [take, opensNode, inmostNodes, isInmost, Element.name, named]
    · simp [take, inmostNodes, isInmost, Element.name, named]
  | loose chunk behind ih =>
    have idle : outline.take chunk.event = outline := by cases chunk <;> rfl
    rw [Content.pieces, List.foldl_cons, idle]
    exact ih outline

end Outline

/-! ## Tags that are taken in -/

theorem attribute?_of_required {tag : Tag} {kind name value : String}
    (given : required tag kind name = .ok value) : tag.attribute? name = some value := by
  unfold required at given
  split at given
  · cases given
  · cases given
  · next read =>
    cases given
    unfold attributeOf? at read
    split at read
    · cases read
    · cases read
    · next found written =>
      split at read
      · cases read
      · next text unescaped =>
        cases read
        unfold Tag.value? at written
        dsimp only at written
        split at written
        · next entry known =>
          cases written
          rw [Tag.attribute?, known, Option.bind_some, unescaped]
          rfl
        · cases written
        · cases written

theorem ownEdges_eq_nil {tag : Tag} {kind : String} (named : String.ofList tag.name = kind)
    (other : kind ≠ "edge") {inside : Content} : ownEdges ⟨tag, inside⟩ = [] :=
  if_neg (show String.ofList tag.name ≠ "edge" from named ▸ other)

theorem value_of_required {tag : Tag} {kind name value : String}
    (given : required tag kind name = .ok value) (inside : Content) :
    (⟨tag, inside⟩ : Element).value name = value := by
  rw [Element.value, attribute?_of_required given]
  rfl

/-- True of a tag that has what a node or a link must have, if it is one. -/
structure Attributed (tag : Tag) : Prop where
  node : String.ofList tag.name = "node" → (tag.attribute? "id").isSome
  source : String.ofList tag.name = "edge" → (tag.attribute? "source").isSome
  target : String.ofList tag.name = "edge" → (tag.attribute? "target").isSome

theorem attributed_node {tag : Tag} (named : String.ofList tag.name = "node") {id : String}
    (identified : required tag "node" "id" = .ok id) : Attributed tag where
  node _ := by rw [attribute?_of_required identified, Option.isSome_some]
  source same := absurd (named.symm.trans same) (by decide)
  target same := absurd (named.symm.trans same) (by decide)

theorem attributed_other {tag : Tag} (noNode : String.ofList tag.name ≠ "node")
    (noEdge : String.ofList tag.name ≠ "edge") : Attributed tag where
  node same := absurd same noNode
  source same := absurd same noEdge
  target same := absurd same noEdge

namespace Reading

variable {R : Type}

theorem attributed_passing {tag : Tag} {reading after : Reading R}
    (passing : Passing tag reading after) : Attributed tag := by
  cases passing with
  | key named identified called =>
    exact attributed_other (by rw [named]; decide) (by rw [named]; decide)
  | edge named started ended =>
    refine ⟨fun same => absurd (named.symm.trans same) (by decide), fun _ => ?_, fun _ => ?_⟩
    · rw [attribute?_of_required started, Option.isSome_some]
    · rw [attribute?_of_required ended, Option.isSome_some]
  | other noKey noEdge noNode noData => exact attributed_other noNode noEdge

def outline (reading : Reading R) : Outline :=
  ⟨reading.draft.map (·.node.id), reading.nodes.map (·.id), reading.edges⟩

theorem outline_passing {tag : Tag} {reading after : Reading R}
    (passing : Passing tag reading after) :
    String.ofList tag.name ≠ "node" ∧
      after.outline = { reading.outline with
        edges := reading.outline.edges ++ ownEdges ⟨tag, .nothing⟩ } := by
  cases passing with
  | key named identified called =>
    rw [ownEdges_eq_nil named (by decide), List.append_nil, named]
    exact ⟨by decide, rfl⟩
  | edge named started ended =>
    have edge : ownEdges ⟨tag, .nothing⟩ = [describedEdge ⟨tag, .nothing⟩] := if_pos named
    rw [edge, describedEdge, value_of_required started, value_of_required ended, named]
    exact ⟨by decide, rfl⟩
  | other noKey noEdge noNode noData =>
    have none : ownEdges ⟨tag, .nothing⟩ = [] := if_neg noEdge
    rw [none, List.append_nil]
    exact ⟨noNode, rfl⟩

variable [NumberText R]

theorem outline_assign {reading : Reading R} {draft : Draft R}
    (current : reading.draft = some draft) (key : String) (text : List Char) :
    ({ reading with draft := some (reading.assign draft key text) } : Reading R).outline =
      reading.outline := by
  have same : (reading.assign draft key text).node.id = draft.node.id := by
    rw [assign]
    cases NodeAttribute.ofName? (reading.nameOf key) with
    | none => rfl
    | some meaning => exact draft.id_assign _ meaning
  rw [outline, outline, current, Option.map_some, Option.map_some, same]

variable [Scalar R]

/-- A piece is taken into the outline whatever the data of the nodes are. -/
theorem outline_step {reading after : Reading R} {event : Event}
    (taken : reading.step event = .ok after) : after.outline = reading.outline.take event := by
  cases event with
  | opening tag =>
    cases opening_of_openElement taken with
    | node named identified =>
      rw [Outline.take, if_pos named, nodeId, value_of_required identified,
        ownEdges_eq_nil named (by decide), List.append_nil]
      rfl
    | data named drafted keyed =>
      have noNode : String.ofList tag.name ≠ "node" := by rw [named]; decide
      rw [Outline.take, if_neg noNode, ownEdges_eq_nil named (by decide), List.append_nil]
      rfl
    | passing passing =>
      obtain ⟨noNode, passed⟩ := outline_passing passing
      rw [Outline.take, if_neg noNode, passed]
      rfl
  | selfClosing tag =>
    cases emptying_of_takeEmpty taken with
    | node named identified =>
      rw [Outline.take, if_pos named, nodeId, value_of_required identified,
        ownEdges_eq_nil named (by decide), List.append_nil, outline, List.map_append]
      rfl
    | data named current keyed =>
      have noNode : String.ofList tag.name ≠ "node" := by rw [named]; decide
      rw [Outline.take, if_neg noNode, ownEdges_eq_nil named (by decide), List.append_nil,
        List.append_nil]
      exact outline_assign current _ []
    | passing passing =>
      obtain ⟨noNode, passed⟩ := outline_passing passing
      rw [Outline.take, if_neg noNode, passed, List.append_nil]
  | closing name =>
    rw [Outline.take]
    cases closing_of_closeElement (Except.ok.inj taken) with
    | data named opened current =>
      have noNode : String.ofList name ≠ "node" := by rw [named]; decide
      rw [if_neg noNode]
      exact outline_assign current _ _
    | node named current =>
      rw [if_pos named, outline, outline, current, List.map_append]
      rfl
    | dropped named idle =>
      have noNode : String.ofList name ≠ "node" := by rw [named]; decide
      rw [if_neg noNode]
      rfl
    | passed noData noNode =>
      by_cases named : String.ofList name = "node"
      · rw [if_pos named, outline, outline, noNode named, Option.map_none, Option.toList_none,
          List.append_nil]
      · rw [if_neg named]
        rfl
  | text content | literal content | remark =>
    cases taken
    rfl
  | reference name =>
    rw [step] at taken
    split at taken
    · obtain ⟨text, _, rfl⟩ := exists_of_map_eq_ok taken
      rfl
    · cases taken
      rfl

theorem outline_steps {reading after : Reading R} {events : List Event}
    (taken : reading.steps events = .ok after) :
    after.outline = events.foldl Outline.take reading.outline := by
  induction events generalizing reading with
  | nil =>
    cases taken
    rfl
  | cons event rest ih =>
    rw [steps] at taken
    split at taken
    · cases taken
    · next first => rw [List.foldl_cons, ← outline_step first, ih taken]

theorem attributed_step {reading after : Reading R} {event : Event}
    (taken : reading.step event = .ok after) {tag : Tag} (tagged : tagOf? event = some tag) :
    Attributed tag := by
  cases event with
  | opening own =>
    cases tagged
    cases opening_of_openElement taken with
    | node named identified => exact attributed_node named identified
    | data named => exact attributed_other (by rw [named]; decide) (by rw [named]; decide)
    | passing passing => exact attributed_passing passing
  | selfClosing own =>
    cases tagged
    cases emptying_of_takeEmpty taken with
    | node named identified => exact attributed_node named identified
    | data named => exact attributed_other (by rw [named]; decide) (by rw [named]; decide)
    | passing passing => exact attributed_passing passing
  | closing | text | literal | remark | reference => cases tagged

theorem attributed_steps {reading after : Reading R} {events : List Event}
    (taken : reading.steps events = .ok after) {event : Event} (member : event ∈ events)
    {tag : Tag} (tagged : tagOf? event = some tag) : Attributed tag := by
  induction events generalizing reading with
  | nil => cases member
  | cons first rest ih =>
    rw [steps] at taken
    split at taken
    · cases taken
    · next stepped =>
      rcases List.mem_cons.1 member with same | later
      · exact attributed_step (same ▸ stepped) tagged
      · exact ih taken later

end Reading

variable {R : Type} [NumberText R] [Scalar R]

/-- Every link of an accepted document is kept, in order, and of its nodes those
that no other one opens in. So no node is lost exactly if no node opens inside
another one. -/
theorem decode_keeps_links_and_inmost_nodes {document : String} {read : Partial R}
    (accepted : decode document = .ok read) :
    (∃ content : Content, scan document.toList = (content.pieces, none)) ∧
      ∀ content : Content, (scan document.toList).1 = content.pieces →
        (∀ element ∈ content.elements, Attributed element.tag) ∧
        read.edges = describedEdges content ∧
        (read.nodes.map (·.id)).Perm
          (((content.named "node").filter (!opensNode ·.inside)).map nodeId) ∧
        ((read.nodes.map (·.id)).Perm ((content.named "node").map nodeId) ↔
          ∀ node ∈ content.named "node", opensNode node.inside = false) := by
  obtain ⟨last, taken, clean, closed, rfl⟩ := exists_steps_of_decode accepted
  obtain ⟨whole, written⟩ := exists_content (balanced_of_decode accepted)
  refine ⟨⟨whole, Prod.ext written clean⟩, fun content written => ?_⟩
  rw [written] at taken
  have outlined := Reading.outline_steps taken
  rw [Outline.foldl_take_pieces] at outlined
  have edges : last.edges = describedEdges content := congrArg Outline.edges outlined
  have ids : last.nodes.map (·.id) = (inmostNodes content).map nodeId :=
    congrArg Outline.closed outlined
  have kept : (last.nodes.map (·.id)).Perm
      (((content.named "node").filter (!opensNode ·.inside)).map nodeId) := by
    rw [ids, filter_named_node]
    exact (inmostNodes_perm content).map nodeId
  refine ⟨fun element member => ?_, edges, kept, ?_⟩
  · obtain ⟨event, piece, tagged⟩ := exists_piece_of_element member
    exact Reading.attributed_steps taken piece tagged
  · constructor
    · intro all node member
      have same : ((content.named "node").filter (!opensNode ·.inside)).length =
          (content.named "node").length := by
        simpa using (kept.symm.trans all).length_eq
      have every := List.length_filter_eq_length_iff.1 same node member
      simpa using every
    · intro apart
      have every : (content.named "node").filter (!opensNode ·.inside) = content.named "node" := by
        refine List.filter_eq_self.2 fun node member => ?_
        rw [apart node member]
        rfl
      exact every ▸ kept

/-- A node with a graph inside it, in which a node closes itself. -/
def hosting : String :=
  "<graph><node id='a'><graph><node id='b'/><edge source='b' target='a'/></graph></node>" ++
    "<edge source='a' target='b'/></graph>"

def hostingContent : Content :=
  .element ⟨"graph".toList⟩
    (.element ⟨"node id='a'".toList⟩
      (.element ⟨"graph".toList⟩
        (.selfClosing ⟨"node id='b'".toList⟩ <|
          .selfClosing ⟨"edge source='b' target='a'".toList⟩ .nothing) .nothing) <|
      .selfClosing ⟨"edge source='a' target='b'".toList⟩ .nothing) .nothing

theorem decode_keeps_links_and_inmost_nodes_hosting :
    ∃ read : Partial Float, decode hosting = .ok read ∧
      (scan hosting.toList).1 = hostingContent.pieces ∧
      read.edges = [⟨⟨"b"⟩, ⟨"a"⟩⟩, ⟨⟨"a"⟩, ⟨"b"⟩⟩] ∧
      (read.nodes.map (·.id)).Perm [⟨"a"⟩, ⟨"b"⟩] := by
  have success : (decode hosting : Except DecodeFault (Partial Float)).toOption.isSome := by
    decide +kernel
  obtain ⟨read, accepted⟩ := exists_eq_ok success
  have written : (scan hosting.toList).1 = hostingContent.pieces := by decide +kernel
  obtain ⟨_, edges, _, all⟩ :=
    (decode_keeps_links_and_inmost_nodes accepted).2 hostingContent written
  have linked : describedEdges hostingContent = [⟨⟨"b"⟩, ⟨"a"⟩⟩, ⟨⟨"a"⟩, ⟨"b"⟩⟩] := by
    decide +kernel
  have named : (hostingContent.named "node").map nodeId = [⟨"a"⟩, ⟨"b"⟩] := by decide +kernel
  exact ⟨read, accepted, written, edges.trans linked, named ▸ all.2 (by decide +kernel)⟩

/-- A node with a graph inside it, in which a node opens. -/
def enclosing : String :=
  "<graphml><graph><node id=\"a\"><graph><node id=\"b\"></node></graph></node></graph></graphml>"

def enclosingContent : Content :=
  .element ⟨"graphml".toList⟩
    (.element ⟨"graph".toList⟩
      (.element ⟨"node id=\"a\"".toList⟩
        (.element ⟨"graph".toList⟩
          (.element ⟨"node id=\"b\"".toList⟩ .nothing .nothing) .nothing) .nothing) .nothing)
    .nothing

/-- The node around another one is lost. -/
theorem decode_enclosing :
    decode enclosing = .ok (⟨[Node.plain ⟨"b"⟩ "b"], []⟩ : Partial Float) ∧
      scan enclosing.toList = (enclosingContent.pieces, none) ∧
      ¬ ([Node.plain ⟨"b"⟩ "b"].map fun node : Node Float => node.id).Perm
        ((enclosingContent.named "node").map nodeId) := by
  refine ⟨eq_ok_of_toOption (by decide +kernel), by decide +kernel, fun all => ?_⟩
  have named : (enclosingContent.named "node").map nodeId = [⟨"a"⟩, ⟨"b"⟩] := by decide +kernel
  rw [named] at all
  exact absurd all.length_eq (by decide)

end PeerNet.GraphML
