import PeerNet.Layout.Ranked
import PeerNet.Layout.Simulation

/-!
# Layout strategies

The two ways to place the nodes of a topology, and which of them, if any, is
used when a topology is first shown. The ranked layout is refused to prebuilt
topologies, whose coordinates carry meaning.
-/

set_option autoImplicit false

namespace PeerNet

inductive Strategy where
  | force
  | ranked
  deriving DecidableEq, Repr

def Strategy.word : Strategy → String
  | .force => "force"
  | .ranked => "hierarchical"

def Strategy.ofWord? (text : String) : Option Strategy :=
  [force, ranked].find? (·.word = text)

inductive LayoutFault where
  | prebuiltPositions (asset : String)
  deriving DecidableEq, Repr

def LayoutFault.message : LayoutFault → String
  | .prebuiltPositions asset =>
    "prebuilt topology '" ++ asset ++ "' keeps its asset coordinates"

namespace Layout

def maxForceTicks : Nat := 1000

/-- The strategy for a topology that is first shown. Prebuilt topologies and
those placed before are left as they are, and links call for ranks. -/
def initialStrategy (origin : Origin) (hasEdges laidOut : Bool) : Option Strategy :=
  match origin with
  | .prebuilt _ => none
  | .custom => if laidOut then none else if hasEdges then some .ranked else some .force

variable {R : Type} [Scalar R]

/-- A position for every node by a strategy. Force layouts start from the
current positions. -/
def layout (topology : Topology R) (strategy : Strategy) (settings : LayoutSettings R)
    (canvas : Canvas R) : Except LayoutFault (Placement R) :=
  match strategy with
  | .ranked =>
    match topology.origin with
    | .prebuilt asset => .error (.prebuiltPositions asset)
    | .custom => .ok (rankedLayout settings.ranked canvas topology)
  | .force =>
    let simulation := Simulation.new topology 0 settings.force canvas
    .ok (simulation.runUntilSettled maxForceTicks).2.positions

end Layout

end PeerNet
