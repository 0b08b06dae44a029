import PeerNet.Layout.IndexedLinks
import PeerNet.Layout.Layers
import PeerNet.Layout.Frame
import PeerNet.Config.Settings

/-!
# The ranked layout

Nodes stand from left to right by rank and from top to bottom by their place in
the rank. The steps shrink where the drawing would be larger than the canvas,
and the drawing is centred on it. The result depends on nothing but the node
and link lists and the measures.
-/

set_option autoImplicit false

namespace PeerNet.Layout

variable {R : Type} [Scalar R]

/-- A step that lets a number of evenly spaced places span at most an extent. -/
def fitStep (step : R) (places : Nat) (extent : R) : R :=
  if places < 2 || !decide ((0.0 : R) < extent) then step
  else Scalar.smaller step (extent / Scalar.ofNat (places - 1))

def bounds (first : R) (others : List R) : R × R :=
  others.foldl (fun (low, high) x => (Scalar.smaller low x, Scalar.larger high x)) (first, first)

def centering (place : R) (numbers : List R) : R :=
  match numbers with
  | [] => place
  | first :: others =>
    let (low, high) := bounds first others
    place - Scalar.half (low + high)

def gridPoints (settings : RankedSettings R) (canvas : Canvas R) (ranks : List Nat)
    (layers : Layers) : List (Point R) :=
  let widest := (layers.rows.map List.length).foldl max 0
  let rankStep := fitStep (settings.nodeWidth + settings.rankGap) layers.rows.length canvas.width
  let nodeStep := fitStep (settings.nodeHeight + settings.nodeGap) widest canvas.height
  (ranks.zip layers.slots).map fun (rank, slot) =>
    ⟨Scalar.ofNat rank * rankStep, Scalar.ofNat slot * nodeStep⟩

def centred (center : R × R) (points : List (Point R)) : List (Point R) :=
  let dx := centering center.1 (points.map (·.x))
  let dy := centering center.2 (points.map (·.y))
  points.map fun point => ⟨point.x + dx, point.y + dy⟩

/-- A position for every node, in node order. A single node stands at the
middle of the canvas. -/
def rankedLayout (settings : RankedSettings R) (canvas : Canvas R) (topology : Topology R) :
    Placement R :=
  let count := topology.nodes.length
  let center := canvas.center
  match topology.nodes with
  | [] => []
  | [only] => [(only.id, ⟨center.1, center.2⟩)]
  | nodes =>
    let arcs := breakCycles count (indexedLinks topology)
    let ranks := longestPathRanks count arcs
    let layers := Layers.ordered R count arcs ranks
    (nodes.map (·.id)).zip (centred center (gridPoints settings canvas ranks layers))

end PeerNet.Layout
