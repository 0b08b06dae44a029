import PeerNet.Topology.Basic

/-!
# Frames

Positions for the nodes of a topology, and the frame that a simulation emits:
positions tagged with the revision of the node and link sets that they were
computed for.
-/

set_option autoImplicit false

namespace PeerNet

abbrev Placement (R : Type) := List (NodeId × Point R)

structure Frame (R : Type) where
  revision : UInt64
  alpha : R
  positions : Placement R
  deriving DecidableEq

end PeerNet
