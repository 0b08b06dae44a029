import PeerNet.Layout.Ranks
import PeerNet.Scalar

/-!
# Layers

The nodes of each rank in an order that keeps links short. Sweeps go down and
up over the ranks in turn; each one sorts the nodes of a rank by the mean place
of their neighbours in the rank before, where a node without such neighbours
keeps its own place, and equal means keep their order.
-/

set_option autoImplicit false

namespace PeerNet.Layout

structure Layers where
  rows : List (List Nat)
  slots : List Nat
  deriving DecidableEq, Repr

namespace Layers

def noteRow (slots : List Nat) (row : List Nat) : List Nat :=
  row.zipIdx.foldl (fun slots (node, place) => slots.set node place) slots

def initial (count : Nat) (ranks : List Nat) : Layers :=
  let depth := ranks.foldl max 0 + 1
  let rows := (List.range depth).map fun rank =>
    (List.range count).filter fun node => ranks.getD node 0 = rank
  { rows, slots := rows.foldl noteRow (List.replicate count 0) }

inductive Direction where
  | down
  | up
  deriving DecidableEq, Repr

def neighbours (arcs : List Arc) (node : Nat) : Direction → List Nat
  | .down => (arcs.filter (·.2 = node)).map (·.1)
  | .up => (arcs.filter (·.1 = node)).map (·.2)

section

variable (R : Type) [Scalar R]

def meanPlace (slots : List Nat) (node : Nat) (adjacent : List Nat) : R :=
  if adjacent.isEmpty then Scalar.ofNat (slots.getD node 0)
  else
    adjacent.foldl (fun sum other => sum + Scalar.ofNat (slots.getD other 0))
      (Scalar.ofNat 0 : R) / Scalar.ofNat adjacent.length

def sortRow (arcs : List Arc) (direction : Direction) (layers : Layers) (rank : Nat) : Layers :=
  let row := layers.rows.getD rank []
  let keyed : List (R × Nat) := row.map fun node =>
    (meanPlace R layers.slots node (neighbours arcs node direction), node)
  let sorted := (keyed.mergeSort fun a b => !decide (b.1 < a.1)).map (·.2)
  { rows := layers.rows.set rank sorted, slots := noteRow layers.slots sorted }

def sweepRanks (depth : Nat) : Direction → List Nat
  | .down => (List.range depth).drop 1
  | .up => (List.range (depth - 1)).reverse

def sweep (arcs : List Arc) (layers : Layers) (direction : Direction) : Layers :=
  (sweepRanks layers.rows.length direction).foldl (sortRow R arcs direction) layers

def ordered (count : Nat) (arcs : List Arc) (ranks : List Nat) : Layers :=
  [Direction.down, .up, .down, .up].foldl (sweep R arcs) (initial count ranks)

end

end Layers

end PeerNet.Layout
