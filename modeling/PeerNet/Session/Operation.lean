import PeerNet.Session.Basic

/-!
# Runs of a session

Every way to act on a session as one type, and what a sequence of such
operations makes of it. Preset loads may be requested and finished in any
order, with whatever was read for them.
-/

set_option autoImplicit false

namespace PeerNet

inductive SessionOperation (R : Type) where
  | startFromScratch
  | openCustom (topology : Topology R)
  | openSaved (topology : Topology R)
  | browse
  | requestPreset (name : String)
  | completePreset (ticket : GraphML.Ticket) (read : Partial R)
  | loadPreset (name : String)
  | confirmPreset
  | back
  | teardown
  | applyLayout (strategy : Strategy)
  | tick
  | dragStart (id : NodeId)
  | dragTo (id : NodeId) (position : Point R)
  | dragEnd (id : NodeId)
  | add (template : Option (Node R))
  | edit (id : NodeId) (patch : Patch)
  | duplicate (id : NodeId)
  | delete (id : NodeId)
  | connect (source target : NodeId)
  | disconnect (source target : NodeId)

namespace Session

variable {R : Type} [Scalar R] [NumberText R]

def apply (session : Session R) : SessionOperation R → Session R
  | .startFromScratch => session.startFromScratch.2
  | .openCustom topology => (session.openCustom topology).2
  | .openSaved topology => (session.openSaved topology).2
  | .browse => session.browse.2
  | .requestPreset name => (session.requestPreset name).2
  | .completePreset ticket read => (session.completePreset ticket read).2
  | .loadPreset name => (session.loadPreset name).2
  | .confirmPreset => session.confirmPreset.2
  | .back => session.back
  | .teardown => session.teardown
  | .applyLayout strategy => (session.applyLayout strategy).2
  | .tick => session.tick.2
  | .dragStart id => (session.dragStart id).2
  | .dragTo id position => (session.dragTo id position).2
  | .dragEnd id => (session.dragEnd id).2
  | .add template => session.add template
  | .edit id patch => session.edit id patch
  | .duplicate id => session.duplicate id
  | .delete id => session.delete id
  | .connect source target => session.connect source target
  | .disconnect source target => session.disconnect source target

def run (session : Session R) (operations : List (SessionOperation R)) : Session R :=
  operations.foldl apply session

end Session

end PeerNet
