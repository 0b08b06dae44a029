import PeerNet.Topology.Basic

/-!
# Peers

Queries over nodes and links: the nodes joined to a node in either direction,
the links that leave and reach it, and the nodes without any link.
-/

set_option autoImplicit false

namespace PeerNet

structure Degree where
  id : NodeId
  outbound : Nat
  inbound : Nat
  deriving DecidableEq, Repr

/-- All links at a node; a self-loop counts at both ends. -/
def Degree.total (degree : Degree) : Nat :=
  degree.outbound + degree.inbound

namespace Topology

variable {R : Type}

def otherEnd? (id : NodeId) (edge : Edge) : Option NodeId :=
  if edge.source = id then some edge.target
  else if edge.target = id then some edge.source
  else none

/-- The nodes joined to a node by a link in either direction, in node order. A
node is never its own peer. -/
def peers (topology : Topology R) (id : NodeId) : List (Node R) :=
  let ends := (topology.edges.filterMap (otherEnd? id)).filter (· ≠ id)
  topology.nodes.filter (·.id ∈ ends)

def degree (topology : Topology R) (id : NodeId) : Degree :=
  { id
    outbound := topology.edges.countP (·.source = id)
    inbound := topology.edges.countP (·.target = id) }

def isolated (topology : Topology R) : List (Node R) :=
  let linked := topology.edges.flatMap fun edge => [edge.source, edge.target]
  topology.nodes.filter (·.id ∉ linked)

end Topology

end PeerNet
