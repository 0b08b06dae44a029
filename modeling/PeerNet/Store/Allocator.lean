import PeerNet.Topology.Basic

/-!
# Fresh node ids

Ids are handed out in counting order from a first number, and once the numbers
that fit 64 bits are used up, as `n1`, `n2` and so on. A candidate that is
taken is passed over.
-/

set_option autoImplicit false

namespace PeerNet

structure Allocator where
  next? : Option UInt64
  spilled : UInt64
  deriving DecidableEq, Repr

namespace Allocator

/-- The next word, unless it would not fit. -/
def successor? (n : UInt64) : Option UInt64 :=
  if n.toNat + 1 < UInt64.size then some (n + 1) else none

def initial : Allocator := ⟨some 0, 0⟩

def above (ids : List NodeId) : Allocator :=
  match (ids.filterMap NodeId.numeric?).max? with
  | none => initial
  | some largest => ⟨successor? largest, 0⟩

def draw (allocator : Allocator) : NodeId × Allocator :=
  match allocator.next? with
  | some n => (.ofNat n.toNat, { allocator with next? := successor? n })
  | none =>
    let spilled := (successor? allocator.spilled).getD allocator.spilled
    (⟨"n" ++ Nat.repr spilled.toNat⟩, { allocator with spilled })

/-- The first of at most `tries` candidates that is not taken. -/
def find? (taken : NodeId → Bool) : Nat → Allocator → Option (NodeId × Allocator)
  | 0, _ => none
  | tries + 1, allocator =>
    let (candidate, allocator) := allocator.draw
    if taken candidate then find? taken tries allocator else some (candidate, allocator)

def beyond (taken : List NodeId) : NodeId :=
  ⟨String.ofList ('n' :: taken.flatMap (·.text.toList))⟩

/-- A fresh id, given the ids that are taken. Candidates differ from one
another, so one more of them than there are taken ids suffices. Only where both
64-bit counters are used up does the search not end; an id beyond all taken ones
then stands for its result. -/
def fresh (taken : List NodeId) (allocator : Allocator) : NodeId × Allocator :=
  (find? (· ∈ taken) (taken.length + 1) allocator).getD (beyond taken, allocator)

end Allocator

end PeerNet
