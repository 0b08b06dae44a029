import PeerNet.Store.Allocator
import PeerNet.Store.Patch
import PeerNet.Layout.Frame

/-!
# The topology store

The store owns the topology being edited. Every operation keeps the topology
valid, never hands out an id twice between two seeds, and refuses invalid input
with a reason and without any change: its answer stands beside the store that it
leaves, also where it is refused. The revision counts changes of the node and
link sets, so that positions computed for an older revision can be told.
-/

set_option autoImplicit false

namespace PeerNet

structure Store (R : Type) where
  topology : Topology R
  options : NodeOptions
  canvas : Canvas R
  allocator : Allocator
  retired : List NodeId
  selected : Option NodeId
  /-- Counts changes of the node and link sets, modulo `2 ^ 64`. -/
  revision : UInt64

namespace Sanitize

variable {R : Type}

def nodes (kept : List (Node R)) : List (Node R) → List (Node R)
  | [] => kept
  | node :: rest =>
    if kept.any (·.id = node.id) then nodes kept rest else nodes (kept ++ [node]) rest

def edges (live : List (Node R)) (kept : List Edge) : List Edge → List Edge
  | [] => kept
  | edge :: rest =>
    if edge.source ≠ edge.target ∧ live.any (·.id = edge.source) ∧
        live.any (·.id = edge.target) ∧ edge ∉ kept then
      edges live (kept ++ [edge]) rest
    else edges live kept rest

end Sanitize

/-- The topology without its faults: the first node of each id, and the first
link of each ordered pair of different ids that name kept nodes. -/
def Topology.sanitized {R : Type} (topology : Topology R) : Topology R :=
  let nodes := Sanitize.nodes [] topology.nodes
  { topology with nodes, edges := Sanitize.edges nodes [] topology.edges }

namespace Store

variable {R : Type}

def new (options : NodeOptions) (canvas : Canvas R) : Store R where
  topology := { id := 0, name := "Untitled", origin := .custom }
  options
  canvas
  allocator := .initial
  retired := []
  selected := none
  revision := 0

def ids (store : Store R) : List NodeId :=
  store.topology.nodes.map (·.id)

def node? (store : Store R) (id : NodeId) : Option (Node R) :=
  store.topology.node? id

def bump (store : Store R) : Store R :=
  { store with revision := store.revision + 1 }

/-- Replaces the topology. Repeated nodes and invalid links are dropped, and
ids are handed out from above the largest number seen. -/
def seed (store : Store R) (topology : Topology R) : Store R :=
  let topology := topology.sanitized
  bump { store with
    topology
    allocator := .above (topology.nodes.map (·.id))
    retired := []
    selected := none }

def ofTopology (topology : Topology R) (options : NodeOptions) (canvas : Canvas R) : Store R :=
  (new options canvas).seed topology

def select (store : Store R) (id : NodeId) : Bool × Store R :=
  if store.topology.hasNode id then (true, { store with selected := some id })
  else (false, store)

def allocate (store : Store R) : NodeId × Allocator :=
  store.allocator.fresh (store.ids ++ store.retired)

/-- The label of a node that was given none. It counts the nodes whose label
speaks of a new node. -/
def defaultLabel (store : Store R) : String :=
  let count := store.topology.nodes.countP fun node =>
    (Text.around? "new node".toList node.label.toList).isSome
  "new node " ++ Nat.repr count

def defaultNode [Scalar R] (store : Store R) (id : NodeId) : Node R :=
  let (x, y) := store.canvas.center
  { Node.plain id store.defaultLabel with position := ⟨x, y⟩ }

def instantiate (store : Store R) (template : Node R) (id : NodeId) : Node R :=
  { template with
    id
    label := if template.label.isEmpty then store.defaultLabel else template.label }

def insertNode (store : Store R) (make : NodeId → Node R) : Store R :=
  let (id, allocator) := store.allocate
  bump { store with
    topology := { store.topology with nodes := store.topology.nodes ++ [make id] }
    allocator
    selected := some id }

def add [Scalar R] (store : Store R) (template : Option (Node R)) : Store R :=
  match template with
  | none => store.insertNode store.defaultNode
  | some node => store.insertNode (store.instantiate node)

def modifyNode (id : NodeId) (change : Node R → Node R) : List (Node R) → List (Node R)
  | [] => []
  | node :: rest =>
    if node.id = id then change node :: rest else node :: modifyNode id change rest

def edit (store : Store R) (id : NodeId) (patch : Patch) : Except Rejection Unit × Store R :=
  match patch.resolve store.options with
  | .error rejection => (.error rejection, store)
  | .ok edits =>
    if store.topology.hasNode id then
      (.ok (), { store with
        topology := { store.topology with
          nodes := modifyNode id (edits.foldl (FieldEdit.apply store.options))
            store.topology.nodes } })
    else (.error (.unknownNode id), store)

/-- Copies a node under a fresh id, which is read off the selection that the copy
leaves. Links are not copied. -/
def duplicate (store : Store R) (id : NodeId) : Except Rejection NodeId × Store R :=
  match store.node? id with
  | none => (.error (.unknownNode id), store)
  | some node =>
    let copy := { node with label := node.label ++ " duplicate" }
    let grown := store.insertNode (store.instantiate copy)
    match grown.selected with
    | none => (.error (.unknownNode id), grown)
    | some copied => (.ok copied, grown)

def removeNode (id : NodeId) (nodes : List (Node R)) : List (Node R) :=
  nodes.eraseP (·.id = id)

def delete (store : Store R) (id : NodeId) : Except Rejection Unit × Store R :=
  if store.topology.hasNode id then
    (.ok (), bump { store with
      topology := { store.topology with
        nodes := removeNode id store.topology.nodes
        edges := store.topology.edges.filter (!·.touches id) }
      selected := if store.selected = some id then none else store.selected
      retired := id :: store.retired })
  else (.error (.unknownNode id), store)

def connect (store : Store R) (source target : NodeId) : Except Rejection Unit × Store R :=
  if source = target then (.error (.selfLoop source), store)
  else if !store.topology.hasNode source then (.error (.unknownNode source), store)
  else if !store.topology.hasNode target then (.error (.unknownNode target), store)
  else if store.topology.hasEdge source target then (.error (.duplicateEdge source target), store)
  else
    (.ok (), bump { store with
      topology := { store.topology with
        edges := store.topology.edges ++ [⟨source, target⟩] } })

def disconnect (store : Store R) (source target : NodeId) : Except Rejection Unit × Store R :=
  if store.topology.hasEdge source target then
    (.ok (), bump { store with
      topology := { store.topology with
        edges := store.topology.edges.erase ⟨source, target⟩ } })
  else (.error (.missingEdge source target), store)

/-- Moves a node. The revision stays. -/
def move (store : Store R) (id : NodeId) (position : Point R) : Bool × Store R :=
  if store.topology.hasNode id then
    (true, { store with
      topology := { store.topology with
        nodes := modifyNode id (fun node => { node with position }) store.topology.nodes } })
  else (false, store)

def place (store : Store R) (positions : Placement R) : Nat × Store R :=
  positions.foldl
    (fun (count, store) (id, position) =>
      let (moved, store) := store.move id position
      (if moved then count + 1 else count, store))
    (0, store)

/-- Applies positions computed for a revision, unless the store has another. -/
def placeAt (store : Store R) (revision : UInt64) (positions : Placement R) : Bool × Store R :=
  if revision = store.revision then (true, (store.place positions).2) else (false, store)

/-- Applies a frame, unless it was computed for another revision. -/
def applyFrame (store : Store R) (frame : Frame R) : Bool × Store R :=
  store.placeAt frame.revision frame.positions

end Store

end PeerNet
