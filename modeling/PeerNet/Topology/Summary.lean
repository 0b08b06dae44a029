import PeerNet.Json.Basic
import PeerNet.Topology.Peers

/-!
# Summaries

The counts of a topology's nodes and links, how many nodes have each software
version, and the links at every node.
-/

set_option autoImplicit false

namespace PeerNet

structure Summary where
  nodes : Nat
  edges : Nat
  isolated : List NodeId
  versions : List (String × Nat)
  degrees : List Degree
  deriving DecidableEq, Repr

namespace Summary

def versionOf {R : Type} (node : Node R) : String :=
  node.version.getD "unset"

def counts (texts : List String) : List (String × Nat) :=
  ((texts.eraseDups).mergeSort fun a b => decide (a ≤ b)).map fun text =>
    (text, texts.count text)

def ofTopology {R : Type} (topology : Topology R) : Summary where
  nodes := topology.nodes.length
  edges := topology.edges.length
  isolated := topology.isolated.map (·.id)
  versions := counts (topology.nodes.map versionOf)
  degrees := topology.nodes.map fun node => topology.degree node.id

def lines (summary : Summary) (name : String) : List String :=
  [name ++ ": " ++ Nat.repr summary.nodes ++ " nodes, " ++ Nat.repr summary.edges ++ " edges"] ++
    summary.versions.map (fun (version, count) =>
      "  version " ++ version ++ ": " ++ Nat.repr count ++ " node(s)") ++
    (if summary.isolated.isEmpty then []
      else ["  isolated: " ++ ", ".intercalate (summary.isolated.map (·.text))])

variable {R : Type}

def degreeJson (degree : Degree) : Json R :=
  .object [("node_id", .string degree.id.text), ("outbound", .integer degree.outbound),
    ("inbound", .integer degree.inbound), ("total", .integer degree.total)]

def toJson (summary : Summary) : Json R :=
  .object [("nodes", .integer summary.nodes), ("edges", .integer summary.edges),
    ("isolated", .array (summary.isolated.map fun id => .string id.text)),
    ("versions", .object (summary.versions.map fun (version, count) => (version, .integer count))),
    ("degrees", .array (summary.degrees.map degreeJson))]

end Summary

end PeerNet
