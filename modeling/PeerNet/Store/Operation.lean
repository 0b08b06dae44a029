import PeerNet.Store.Basic

/-!
# Runs of the store

Every way to change a store as one type, and what a sequence of such operations
makes of it. An operation may be asked for its answer, or made without one.
-/

set_option autoImplicit false

namespace PeerNet

inductive StoreOperation (R : Type) where
  | seed (topology : Topology R)
  | add (template : Option (Node R))
  | edit (id : NodeId) (patch : Patch)
  | duplicate (id : NodeId)
  | delete (id : NodeId)
  | connect (source target : NodeId)
  | disconnect (source target : NodeId)
  | move (id : NodeId) (position : Point R)
  | select (id : NodeId)
  | place (positions : Placement R)
  | placeAt (revision : UInt64) (positions : Placement R)
  | applyFrame (frame : Frame R)

def StoreOperation.isSeed {R : Type} : StoreOperation R → Bool
  | .seed _ => true
  | _ => false

namespace Store

variable {R : Type}

def start (topology : Option (Topology R)) (options : NodeOptions) (canvas : Canvas R) : Store R :=
  match topology with
  | none => new options canvas
  | some topology => ofTopology topology options canvas

variable [Scalar R]

/-- Whether an operation is accepted, or the reason why it is refused, and the
store after it. -/
def attempt (store : Store R) : StoreOperation R → Except Rejection Unit × Store R
  | .seed topology => (.ok (), store.seed topology)
  | .add template => (.ok (), store.add template)
  | .edit id patch => store.edit id patch
  | .duplicate id =>
    let (copied, after) := store.duplicate id
    (copied.map fun _ => (), after)
  | .delete id => store.delete id
  | .connect source target => store.connect source target
  | .disconnect source target => store.disconnect source target
  | .move id position => (.ok (), (store.move id position).2)
  | .select id => (.ok (), (store.select id).2)
  | .place positions => (.ok (), (store.place positions).2)
  | .placeAt revision positions => (.ok (), (store.placeAt revision positions).2)
  | .applyFrame frame => (.ok (), (store.applyFrame frame).2)

/-- The store after an operation, whatever its answer is. -/
def apply (store : Store R) (operation : StoreOperation R) : Store R :=
  (store.attempt operation).2

def run (store : Store R) (operations : List (StoreOperation R)) : Store R :=
  operations.foldl apply store

end Store

end PeerNet
