import PeerNet.GraphML.Key
import PeerNet.Markup.Print
import PeerNet.Topology.Basic

/-!
# Written documents

A topology as a GraphML document: the declared keys, then every node with data
for every key, empty where the node has none, then the links, whose ids repeat
their sources.
-/

set_option autoImplicit false

namespace PeerNet.GraphML

variable {R : Type} [NumberText R]

/-- The text of a node attribute; empty where the node has no value. -/
def dataText (node : Node R) : NodeAttribute → String
  | .label => node.label
  | .size => NumberText.write node.size
  | .version => node.version.getD ""
  | .latency => node.latency.getD ""
  | .bitcoinConf => node.overrides.flatten
  | .x => NumberText.write node.position.x
  | .y => NumberText.write node.position.y
  | .ram => (node.resources.map fun resources => Nat.repr resources.ram.toNat).getD ""
  | .cpu => (node.resources.map fun resources => Nat.repr resources.cpu.toNat).getD ""
  | .baseFee => (node.baseFee.map NumberText.write).getD ""

def line (depth : Nat) (content : List Char) : List Char :=
  List.replicate (2 * depth) ' ' ++ content ++ ['\n']

def keyLine (key : Key) : List Char :=
  line 1 (Markup.selfClosingText "key"
    [("id", key.id), ("for", "node"), ("attr.name", key.name), ("attr.type", key.type)])

def dataLine (node : Node R) (key : Key) : List Char :=
  let value := ((NodeAttribute.ofName? key.name).map (dataText node)).getD ""
  line 3 (Markup.openingText "data" [("key", key.id)] ++ Markup.escape value.toList ++
    Markup.closingText "data")

def nodeLines (node : Node R) : List Char :=
  line 2 (Markup.openingText "node" [("id", node.id.text)]) ++
    exportedKeys.flatMap (dataLine node) ++
    line 2 (Markup.closingText "node")

def edgeLine (edge : Edge) : List Char :=
  line 2 (Markup.selfClosingText "edge"
    [("id", edge.source.text), ("source", edge.source.text), ("target", edge.target.text)])

def nameSpace : String := "http://graphml.graphdrawing.org/xmlns"

def heading : List Char :=
  line 0 "<?xml version=\"1.0\" encoding=\"UTF-8\"?>".toList ++
    line 0 (Markup.openingText "graphml" [("xmlns", nameSpace)]) ++
    exportedKeys.flatMap keyLine ++
    line 1 (Markup.openingText "graph" [("edgedefault", "directed")])

def ending : List Char :=
  line 1 (Markup.closingText "graph") ++ line 0 (Markup.closingText "graphml")

def encodeChars (topology : Topology R) : List Char :=
  heading ++ topology.nodes.flatMap nodeLines ++ topology.edges.flatMap edgeLine ++ ending

def encode (topology : Topology R) : String :=
  String.ofList (encodeChars topology)

def exportName : String := "graph.graphml"

end PeerNet.GraphML
