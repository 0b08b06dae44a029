import PeerNet.Layout.Acyclic

/-!
# Ranks

The rank of a node in an acyclic graph is the length of the longest path that
ends in it. Nodes are settled when all edges into them have been seen.
-/

set_option autoImplicit false

namespace PeerNet.Layout

structure Ranking where
  pending : List Nat
  ranks : List Nat
  queue : List Nat
  /-- The settled nodes, the latest first. -/
  settled : List Nat
  deriving DecidableEq, Repr

namespace Ranking

def see (rank : Nat) (ranking : Ranking) (target : Nat) : Ranking :=
  let left := ranking.pending.getD target 0 - 1
  { ranking with
    pending := ranking.pending.set target left
    ranks := ranking.ranks.modify target (max · (rank + 1))
    queue := if left = 0 then ranking.queue ++ [target] else ranking.queue }

def settle (arcs : List Arc) (ranking : Ranking) : Ranking :=
  match ranking.queue with
  | [] => ranking
  | node :: queue =>
    (successors arcs node).foldl (see (ranking.ranks.getD node 0))
      { ranking with queue, settled := node :: ranking.settled }

/-- Settles at most `steps` nodes. -/
def settleAll (arcs : List Arc) : Nat → Ranking → Ranking
  | 0, ranking => ranking
  | steps + 1, ranking =>
    if ranking.queue.isEmpty then ranking else settleAll arcs steps (ranking.settle arcs)

def initial (count : Nat) (arcs : List Arc) : Ranking :=
  let pending := (List.range count).map fun node => arcs.countP (·.2 = node)
  { pending
    ranks := List.replicate count 0
    queue := (List.range count).filter fun node => pending.getD node 0 = 0
    settled := [] }

def final (count : Nat) (arcs : List Arc) : Ranking :=
  settleAll arcs count (initial count arcs)

end Ranking

def longestPathRanks (count : Nat) (arcs : List Arc) : List Nat :=
  (Ranking.final count arcs).ranks

end PeerNet.Layout
