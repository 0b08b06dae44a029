import PeerNet.GraphML.Key
import PeerNet.Markup.Event
import PeerNet.Topology.Basic

/-!
# Read documents

The nodes and links of a GraphML document. The pieces of the document are taken
in one after another: keys declare attribute names, data inside a node sets its
attributes, and a node is complete when its element closes. The first problem
is reported; a document that ends inside an element is not complete.
-/

set_option autoImplicit false

namespace PeerNet.GraphML

inductive Problem where
  | markup (fault : Markup.Fault)
  | attributes (fault : Markup.AttributeFault)
  | value (fault : Markup.ValueFault)
  | reference (fault : Markup.ReferenceFault)
  | unknownEntity (name : List Char)
  deriving DecidableEq, Repr

def Problem.message : Problem → String
  | .markup fault => fault.message
  | .attributes fault => fault.message
  | .value fault => fault.message
  | .reference fault => fault.message
  | .unknownEntity name => "unknown entity &" ++ String.ofList name ++ ";"

inductive DecodeFault where
  | malformed (problem : Problem)
  | truncated (opened : Nat)
  | missing (element required : String)
  deriving DecidableEq, Repr

def DecodeFault.message : DecodeFault → String
  | .malformed problem => "malformed GraphML: " ++ problem.message
  | .truncated opened =>
    "document ended with " ++ Nat.repr opened ++ " unclosed element(s)"
  | .missing element required =>
    "<" ++ element ++ "> is missing the '" ++ required ++ "' attribute"

def attributeOf? (tag : Markup.Tag) (name : String) : Except DecodeFault (Option String) :=
  match tag.value? name.toList with
  | .error fault => .error (.malformed (.attributes fault))
  | .ok none => .ok none
  | .ok (some value) =>
    match Markup.unescape value with
    | .error fault => .error (.malformed (.value fault))
    | .ok text => .ok (some (String.ofList text))

def required (tag : Markup.Tag) (element name : String) : Except DecodeFault String :=
  match attributeOf? tag name with
  | .error fault => .error fault
  | .ok none => .error (.missing element name)
  | .ok (some value) => .ok value

variable {R : Type}

/-- A node being read. Its resources are collected apart, since a document may
carry only one of them. -/
structure Draft (R : Type) where
  node : Node R
  ram : Option UInt32 := none
  cpu : Option UInt32 := none

namespace Draft

/-- The text without blanks around it, unless nothing is left. -/
def nonBlank? (text : String) : Option String :=
  let trimmed := Text.trimmed text
  if trimmed.isEmpty then none else some trimmed

def number? [NumberText R] (text : String) : Option R :=
  (nonBlank? text).bind NumberText.read?

def count? (text : String) : Option UInt32 :=
  (nonBlank? text).bind Decimal.readWord32?

variable [NumberText R]

/-- Sets an attribute of the node. A size or coordinate that is no number
leaves the node as it is. -/
def assign (draft : Draft R) (text : String) : NodeAttribute → Draft R
  | .label => { draft with node := { draft.node with label := text } }
  | .size => { draft with node := { draft.node with size := (number? text).getD draft.node.size } }
  | .version => { draft with node := { draft.node with version := nonBlank? text } }
  | .latency => { draft with node := { draft.node with latency := nonBlank? text } }
  | .bitcoinConf => { draft with node := { draft.node with overrides := .unflatten text } }
  | .x =>
    let position := draft.node.position
    { draft with node := { draft.node with
        position := ⟨(number? text).getD position.x, position.y⟩ } }
  | .y =>
    let position := draft.node.position
    { draft with node := { draft.node with
        position := ⟨position.x, (number? text).getD position.y⟩ } }
  | .ram => { draft with ram := count? text }
  | .cpu => { draft with cpu := count? text }
  | .baseFee => { draft with node := { draft.node with baseFee := number? text } }

theorem id_assign (draft : Draft R) (text : String) (meaning : NodeAttribute) :
    (draft.assign text meaning).node.id = draft.node.id := by
  cases meaning <;> simp only [assign]

omit [NumberText R] in
/-- The node, which takes its id for a label if it has none, and has resources
if one of them was given. -/
def finish (draft : Draft R) : Node R :=
  { draft.node with
    label := if draft.node.label.isEmpty then draft.node.id.text else draft.node.label
    resources :=
      if draft.ram.isSome || draft.cpu.isSome then
        some ⟨draft.ram.getD 0, draft.cpu.getD 0⟩
      else draft.node.resources }

end Draft

structure Reading (R : Type) where
  keys : List (String × String) := []
  draft : Option (Draft R) := none
  data : Option (String × List Char) := none
  depth : Nat := 0
  nodes : List (Node R) := []
  edges : List Edge := []

namespace Reading

def nameOf (reading : Reading R) (key : String) : String :=
  (reading.keys.lookup key).getD key

def declareKey (reading : Reading R) (tag : Markup.Tag) : Except DecodeFault (Reading R) := do
  let id ← required tag "key" "id"
  let name ← attributeOf? tag "attr.name"
  return { reading with keys := (id, name.getD id) :: reading.keys }

def addEdge (reading : Reading R) (tag : Markup.Tag) : Except DecodeFault (Reading R) := do
  let source ← required tag "edge" "source"
  let target ← required tag "edge" "target"
  return { reading with edges := reading.edges ++ [⟨⟨source⟩, ⟨target⟩⟩] }

def appendText (reading : Reading R) (text : List Char) : Reading R :=
  { reading with data := reading.data.map fun (key, content) => (key, content ++ text) }

def referenceText (name : List Char) : Except DecodeFault (List Char) :=
  match Markup.resolve? name with
  | .error fault => .error (.malformed (.reference fault))
  | .ok (some character) => .ok [character]
  | .ok none => .error (.malformed (.unknownEntity name))

variable [NumberText R]

/-- Sets the attribute of a key on the node being read. An attribute without a
meaning is passed over. -/
def assign (reading : Reading R) (draft : Draft R) (key : String) (text : List Char) :
    Draft R :=
  match NodeAttribute.ofName? (reading.nameOf key) with
  | none => draft
  | some meaning => draft.assign (String.ofList text) meaning

def closeElement (reading : Reading R) (name : List Char) : Reading R :=
  let reading := { reading with depth := reading.depth - 1 }
  match String.ofList name with
  | "data" =>
    match reading.data, reading.draft with
    | some (key, text), some draft =>
      { reading with data := none, draft := some (reading.assign draft key text) }
    | _, _ => { reading with data := none }
  | "node" =>
    match reading.draft with
    | some draft =>
      { reading with draft := none, nodes := reading.nodes ++ [draft.finish] }
    | none => reading
  | _ => reading

variable [Scalar R]

omit [NumberText R] in
def startNode (tag : Markup.Tag) : Except DecodeFault (Draft R) :=
  (required tag "node" "id").map fun id => { node := Node.plain ⟨id⟩ "" }

omit [NumberText R] in
def openElement (reading : Reading R) (tag : Markup.Tag) : Except DecodeFault (Reading R) :=
  let reading := { reading with depth := reading.depth + 1 }
  match String.ofList tag.name with
  | "key" => reading.declareKey tag
  | "node" => (startNode tag).map fun draft => { reading with draft := some draft }
  | "data" =>
    if reading.draft.isSome then
      (required tag "data" "key").map fun key => { reading with data := some (key, []) }
    else .ok reading
  | "edge" => reading.addEdge tag
  | _ => .ok reading

def takeEmpty (reading : Reading R) (tag : Markup.Tag) : Except DecodeFault (Reading R) :=
  match String.ofList tag.name with
  | "key" => reading.declareKey tag
  | "node" =>
    (startNode tag).map fun draft => { reading with nodes := reading.nodes ++ [draft.finish] }
  | "data" =>
    match reading.draft with
    | some draft =>
      (required tag "data" "key").map fun key =>
        { reading with draft := some (reading.assign draft key []) }
    | none => .ok reading
  | "edge" => reading.addEdge tag
  | _ => .ok reading

def step (reading : Reading R) : Markup.Event → Except DecodeFault (Reading R)
  | .opening tag => reading.openElement tag
  | .selfClosing tag => reading.takeEmpty tag
  | .closing name => .ok (reading.closeElement name)
  | .text content => .ok (reading.appendText content)
  | .literal content => .ok (reading.appendText content)
  | .reference name =>
    if reading.data.isSome then (referenceText name).map reading.appendText
    else .ok reading
  | .remark => .ok reading

def steps (reading : Reading R) : List Markup.Event → Except DecodeFault (Reading R)
  | [] => .ok reading
  | event :: rest =>
    match reading.step event with
    | .error fault => .error fault
    | .ok reading => reading.steps rest

end Reading

variable [NumberText R] [Scalar R]

def decodeEvents (events : List Markup.Event) (fault : Option Markup.Fault) :
    Except DecodeFault (Partial R) :=
  match ({} : Reading R).steps events with
  | .error fault => .error fault
  | .ok reading =>
    match fault with
    | some fault => .error (.malformed (.markup fault))
    | none =>
      if reading.depth > 0 then .error (.truncated reading.depth)
      else .ok ⟨reading.nodes, reading.edges⟩

def decode (document : String) : Except DecodeFault (Partial R) :=
  let (events, fault) := Markup.scan document.toList
  decodeEvents events fault

/-- The nodes and links of a document; nothing if it has a problem. -/
def decodeSoft (document : String) : Partial R :=
  match decode document with
  | .error _ => {}
  | .ok read => read

end PeerNet.GraphML
