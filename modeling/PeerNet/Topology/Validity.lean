import PeerNet.Topology.Basic

/-!
# Valid topologies

A topology is valid when its node ids are distinct and its links are distinct,
join nodes of the topology, and join two different nodes. The check reports the
first violation, nodes before links, and for one link a missing source before a
missing target before a self-loop before a repetition.
-/

set_option autoImplicit false

namespace PeerNet

inductive Violation where
  | duplicateNode (id : NodeId)
  | missingSource (id : NodeId)
  | missingTarget (id : NodeId)
  | selfLoop (id : NodeId)
  | duplicateEdge (source target : NodeId)
  deriving DecidableEq, Repr

def Violation.message : Violation → String
  | .duplicateNode id => "Duplicate node ID: " ++ id.text
  | .missingSource id => "Edge references non-existent source node: " ++ id.text
  | .missingTarget id => "Edge references non-existent target node: " ++ id.text
  | .selfLoop id => "Self-loop on node " ++ id.text
  | .duplicateEdge source target => "Duplicate edge " ++ source.text ++ " -> " ++ target.text

namespace Topology

variable {R : Type}

structure Valid (topology : Topology R) : Prop where
  uniqueIds : (topology.nodes.map (·.id)).Nodup
  endsLive : ∀ edge ∈ topology.edges,
    topology.hasNode edge.source = true ∧ topology.hasNode edge.target = true
  loopFree : ∀ edge ∈ topology.edges, edge.source ≠ edge.target
  uniqueEdges : topology.edges.Nodup

def checkNodes (seen : List NodeId) : List (Node R) → Except Violation Unit
  | [] => .ok ()
  | node :: rest =>
    if node.id ∈ seen then .error (.duplicateNode node.id)
    else checkNodes (node.id :: seen) rest

/-- The first link that breaks an invariant, given the node ids and the links
before it. -/
def checkEdges (ids : List NodeId) (seen : List Edge) : List Edge → Except Violation Unit
  | [] => .ok ()
  | edge :: rest =>
    if edge.source ∉ ids then .error (.missingSource edge.source)
    else if edge.target ∉ ids then .error (.missingTarget edge.target)
    else if edge.source = edge.target then .error (.selfLoop edge.source)
    else if edge ∈ seen then .error (.duplicateEdge edge.source edge.target)
    else checkEdges ids (edge :: seen) rest

def validate (topology : Topology R) : Except Violation Unit :=
  match checkNodes [] topology.nodes with
  | .error violation => .error violation
  | .ok () => checkEdges (topology.nodes.map (·.id)) [] topology.edges

end Topology

end PeerNet
