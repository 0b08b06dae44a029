import PeerNet.Config.Settings
import PeerNet.Topology.Basic
import PeerNet.Random.Source

/-!
# Generated topologies

Custom topologies with nodes numbered from zero: a single node to start from,
fixed connection patterns, a ring with random extra links, and a random graph.
Links are added one by one, and one that would be a self-loop or a repetition is
left out.
-/

set_option autoImplicit false

namespace PeerNet

inductive Template where
  | star
  | mesh
  | ring
  | dag
  deriving DecidableEq, Repr

namespace Template

def word : Template → String
  | .star => "star"
  | .mesh => "mesh"
  | .ring => "ring"
  | .dag => "dag"

def ofWord? (text : String) : Option Template :=
  [star, mesh, ring, dag].find? (·.word = text)

inductive Unsuitable where
  | largeMesh
  | smallRing
  | smallStar
  deriving DecidableEq, Repr

def Unsuitable.message : Unsuitable → String
  | .largeMesh => "Mesh template not recommended for more than 50 nodes due to link count"
  | .smallRing => "Ring template requires at least 3 nodes"
  | .smallStar => "Star template requires at least 2 nodes"

def checkCount (template : Template) (count : Nat) : Except Unsuitable Unit :=
  match template with
  | .mesh => if count > 50 then .error .largeMesh else .ok ()
  | .ring => if count < 3 then .error .smallRing else .ok ()
  | .star => if count < 2 then .error .smallStar else .ok ()
  | .dag => .ok ()

/-- The links that a pattern asks for, in order; self-loops and repetitions
among them are left out when they are added. -/
def pairs (template : Template) (count : Nat) : List (Nat × Nat) :=
  let all := List.range count
  match template with
  | .star => (all.drop 1).map fun i => (i, 0)
  | .mesh => all.flatMap fun i => all.map fun j => (i, j)
  | .ring =>
    if count ≤ 1 then []
    else all.flatMap fun i =>
      [(i, if i = 0 then count - 1 else i - 1), (i, if i = count - 1 then 0 else i + 1)]
  | .dag => all.flatMap fun i => (List.range i).map fun j => (i, j)

end Template

namespace Topology

variable {R : Type} [Scalar R]

def scratch (canvas : Canvas R) : Topology R :=
  let (x, y) := canvas.center
  { id := 1
    name := "Start from scratch"
    origin := .custom
    nodes := [{ Node.plain ⟨"0"⟩ "new node" with position := ⟨x, y⟩ }] }

def numberedNodes (count : Nat) (version : String) (overrides : Overrides) : List (Node R) :=
  (List.range count).map fun i =>
    { Node.plain (NodeId.ofNat i) ("node " ++ Nat.repr i) with
      version := some version, overrides }

def numbered (name : String) (count : Nat) (version : String) (overrides : Overrides) :
    Topology R :=
  { id := 0, name, origin := .custom, nodes := numberedNodes count version overrides }

omit [Scalar R] in
/-- The topology with one more link between numbered nodes, unless the link is
a self-loop or already there. -/
def link (topology : Topology R) (pair : Nat × Nat) : Topology R :=
  let source := NodeId.ofNat pair.1
  let target := NodeId.ofNat pair.2
  if source = target || topology.hasEdge source target then topology
  else { topology with edges := topology.edges ++ [⟨source, target⟩] }

def ofTemplate (template : Template) (count : Nat) (version : String) : Topology R :=
  (template.pairs count).foldl link
    (numbered (template.word ++ "_" ++ Nat.repr count) count version .empty)

variable {G : Type} [RandomSource G]

omit [Scalar R] in
def candidates (topology : Topology R) (count source : Nat) : List Nat :=
  (List.range count).filter fun target =>
    target ≠ source && !topology.hasEdge (NodeId.ofNat source) (NodeId.ofNat target)

omit [Scalar R] in
/-- Links a node to at most `extra` of its candidates, drawn in random order. -/
def linkExtra (count extra : Nat) (state : Topology R × G) (source : Nat) : Topology R × G :=
  let (chosen, left) := RandomSource.shuffle (state.1.candidates count source) state.2
  (((chosen.take extra).map (source, ·)).foldl link state.1, left)

def cycle (count extra : Nat) (version : String) (overrides : Overrides) (source : G) :
    Topology R × G :=
  let nodes := numbered ("cycle_" ++ Nat.repr count) count version overrides
  let all := List.range count
  let ring := if count > 1 then all.map fun i => (i, (i + 1) % count) else []
  all.foldl (linkExtra count extra) (ring.foldl link nodes, source)

def linkByChance (probability : R) (state : Topology R × G) (pair : Nat × Nat) :
    Topology R × G :=
  if pair.1 = pair.2 then state
  else
    let (chosen, left) := RandomSource.chance probability state.2
    (if chosen then state.1.link pair else state.1, left)

/-- The random graph that links each ordered pair with a probability, which is
held between zero and one; one that is not comparable to itself links nothing. -/
def random (count : Nat) (probability : R) (version : String) (source : G) :
    Topology R × G :=
  let probability := if probability == probability then Scalar.clamp 0.0 1.0 probability else 0.0
  let all := List.range count
  (all.flatMap fun i => all.map fun j => (i, j)).foldl (linkByChance probability)
    (numbered ("random_" ++ Nat.repr count) count version .empty, source)

end Topology

end PeerNet
