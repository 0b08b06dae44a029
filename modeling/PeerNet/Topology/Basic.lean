import PeerNet.Overrides.Basic
import PeerNet.Decimal.Numeral
import PeerNet.Scalar

/-!
# Topologies

The data that every part of the library shares: simulated hosts, directed peer
links between them, and the topology that owns both. Coordinates are over a
type `R` of scalars. A topology is plain data: nothing here asks that ids are
unique or that links join existing nodes.
-/

set_option autoImplicit false

namespace PeerNet

structure NodeId where
  text : String
  deriving DecidableEq, Repr, Inhabited

namespace NodeId

instance : ToString NodeId := ⟨text⟩

/-- The number that an id writes, if it is a numeral of at most 64 bits. -/
def numeric? (id : NodeId) : Option UInt64 :=
  Decimal.readWord64? id.text

def ofNat (n : Nat) : NodeId :=
  ⟨Nat.repr n⟩

theorem ofNat_inj {m n : Nat} : ofNat m = ofNat n ↔ m = n :=
  ⟨fun same => Decimal.repr_injective (congrArg text same), fun same => same ▸ rfl⟩

end NodeId

structure Point (R : Type) where
  x : R
  y : R
  deriving DecidableEq, Repr, Inhabited

def Point.distance {R : Type} [Scalar R] (a b : Point R) : R :=
  Scalar.sqrt ((a.x - b.x) * (a.x - b.x) + (a.y - b.y) * (a.y - b.y))

structure Resources where
  ram : UInt32
  cpu : UInt32
  deriving DecidableEq, Repr

structure Node (R : Type) where
  id : NodeId
  label : String
  size : R
  version : Option String := none
  latency : Option String := none
  baseFee : Option R := none
  resources : Option Resources := none
  overrides : Overrides := .empty
  position : Point R
  deriving DecidableEq

structure Edge where
  source : NodeId
  target : NodeId
  deriving DecidableEq, Repr

def Edge.touches (edge : Edge) (id : NodeId) : Bool :=
  edge.source = id || edge.target = id

inductive Origin where
  | custom
  | prebuilt (asset : String)
  deriving DecidableEq, Repr

namespace Origin

def asset? : Origin → Option String
  | .custom => none
  | .prebuilt asset => some asset

def isPrebuilt (origin : Origin) : Bool :=
  origin.asset?.isSome

end Origin

structure Topology (R : Type) where
  id : UInt32
  name : String
  origin : Origin
  nodes : List (Node R) := []
  edges : List Edge := []
  deriving DecidableEq

section

variable {R : Type}

/-- The size at which a node is drawn unless its data say otherwise. -/
def Node.defaultSize [Scalar R] : R := 10.0

/-- A node of which only the id and the label are known. -/
def Node.plain [Scalar R] (id : NodeId) (label : String) : Node R :=
  { id, label, size := Node.defaultSize, position := ⟨0.0, 0.0⟩ }

namespace Topology

def node? (topology : Topology R) (id : NodeId) : Option (Node R) :=
  topology.nodes.find? (·.id = id)

def hasNode (topology : Topology R) (id : NodeId) : Bool :=
  topology.nodes.any (·.id = id)

def hasEdge (topology : Topology R) (source target : NodeId) : Bool :=
  topology.edges.any fun edge => edge.source = source && edge.target = target

end Topology

structure Partial (R : Type) where
  nodes : List (Node R) := []
  edges : List Edge := []
  deriving DecidableEq

namespace Partial

def isEmpty (read : Partial R) : Bool :=
  read.nodes.isEmpty && read.edges.isEmpty

def ofTopology (topology : Topology R) : Partial R :=
  ⟨topology.nodes, topology.edges⟩

def toTopology (read : Partial R) (id : UInt32) (name : String) (origin : Origin) :
    Topology R :=
  { id, name, origin, nodes := read.nodes, edges := read.edges }

end Partial

end

end PeerNet
