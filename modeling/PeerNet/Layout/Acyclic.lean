/-!
# Breaking cycles

A depth-first walk over a directed graph on the numbers below a count. Every
edge that leads back to a node on the current path is reversed; what is left is
listed in order, each edge once.
-/

set_option autoImplicit false

namespace PeerNet.Layout

abbrev Arc := Nat × Nat

def successors (arcs : List Arc) (node : Nat) : List Nat :=
  (arcs.filter (·.1 = node)).map (·.2)

inductive Mark where
  | fresh
  | active
  | done
  deriving DecidableEq, Repr

structure Walk where
  marks : List Mark
  back : List Arc
  deriving DecidableEq, Repr

namespace Walk

def mark (walk : Walk) (node : Nat) : Mark :=
  walk.marks.getD node .done

def setMark (walk : Walk) (node : Nat) (mark : Mark) : Walk :=
  { walk with marks := walk.marks.set node mark }

/-- Walks from a fresh node to everything that can be reached over fresh nodes.
Paths are never longer than `depth`. -/
def visit (arcs : List Arc) : Nat → Walk → Nat → Walk
  | 0, walk, _ => walk
  | depth + 1, walk, node =>
    let walk := (successors arcs node).foldl
      (fun walk target =>
        match walk.mark target with
        | .fresh => visit arcs depth walk target
        | .active => { walk with back := (node, target) :: walk.back }
        | .done => walk)
      (walk.setMark node .active)
    walk.setMark node .done

def all (count : Nat) (arcs : List Arc) : Walk :=
  (List.range count).foldl
    (fun walk node => if walk.mark node = .fresh then visit arcs count walk node else walk)
    ⟨List.replicate count .fresh, []⟩

end Walk

def arcLE (a b : Arc) : Bool :=
  a.1 < b.1 || (a.1 == b.1 && a.2 ≤ b.2)

def dropRepeats : List Arc → List Arc
  | a :: b :: rest => if a = b then dropRepeats (b :: rest) else a :: dropRepeats (b :: rest)
  | short => short

def orient (back : List Arc) (arc : Arc) : Arc :=
  if arc ∈ back then (arc.2, arc.1) else arc

def breakCycles (count : Nat) (arcs : List Arc) : List Arc :=
  let back := (Walk.all count arcs).back
  dropRepeats ((arcs.map (orient back)).mergeSort arcLE)

end PeerNet.Layout
