import PeerNet.Layout.IndexedLinks
import PeerNet.Layout.Frame
import PeerNet.Config.Settings
import PeerNet.Random.Source

/-!
# The force simulation

Nodes are bodies that springs along the links, a charge between each two, and a
pull toward the middle of the canvas accelerate. The forces are scaled by an
energy that cools toward a target with every tick; below a least energy the
simulation stops. A dragged node is pinned: it stands where the drag holds it,
whatever forces there are.
-/

set_option autoImplicit false

namespace PeerNet

structure Body (R : Type) where
  id : NodeId
  position : Point R
  velocity : Point R
  pin : Option (Point R) := none
  deriving DecidableEq

structure Spring (R : Type) where
  source : Nat
  target : Nat
  strength : R
  bias : R
  deriving DecidableEq

structure Simulation (R : Type) where
  settings : ForceSettings R
  center : Point R
  bodies : List (Body R)
  springs : List (Spring R)
  alpha : R
  alphaTarget : R
  revision : UInt64
  running : Bool
  ticks : UInt64
  noise : Random.Stream

namespace Simulation

variable {R : Type} [Scalar R]

/-- Where the body at a place in the list starts. One that would stand on an
earlier body is moved away along a spiral. -/
def startAt (earlier : List (Body R)) (place : Nat) (position : Point R) : Point R :=
  if earlier.any fun body => body.position.x == position.x && body.position.y == position.y then
    let radius : R := 10.0 * Scalar.sqrt (0.5 + Scalar.ofNat place)
    let angle : R := Scalar.ofNat place * Scalar.pi * (3.0 - Scalar.sqrt 5.0)
    ⟨position.x + radius * Scalar.cos angle, position.y + radius * Scalar.sin angle⟩
  else position

def addBodies (earlier : List (Body R)) : List (Node R) → List (Body R)
  | [] => earlier
  | node :: rest =>
    addBodies
      (earlier ++ [{
        id := node.id
        position := startAt earlier earlier.length node.position
        velocity := ⟨0.0, 0.0⟩ }])
      rest

/-- Counts a link at both of its ends. -/
def countEnds (degrees : List Nat) (link : Nat × Nat) : List Nat :=
  (degrees.modify link.1 (· + 1)).modify link.2 (· + 1)

/-- How many links each of a number of places has. -/
def linkDegrees (places : Nat) (links : List (Nat × Nat)) : List Nat :=
  links.foldl countEnds (List.replicate places 0)

/-- The strength of a spring between ends with these degrees. It is weaker the
more links the less linked end has. -/
def springStrength (source target : Nat) : R :=
  1.0 / Scalar.ofNat (min source target)

/-- The share of a spring's pull that its target takes. The more linked end is
moved less. -/
def springBias (source target : Nat) : R :=
  Scalar.ofNat source / Scalar.ofNat (source + target)

def springOf (degrees : List Nat) (link : Nat × Nat) : Spring R :=
  let source := degrees.getD link.1 0
  let target := degrees.getD link.2 0
  { source := link.1
    target := link.2
    strength := springStrength source target
    bias := springBias source target }

def new (topology : Topology R) (revision : UInt64) (settings : ForceSettings R)
    (canvas : Canvas R) : Simulation R :=
  let links := Layout.indexedLinks topology
  let degrees := linkDegrees topology.nodes.length links
  let (x, y) := canvas.center
  { settings
    center := ⟨x, y⟩
    bodies := addBodies [] topology.nodes
    springs := links.map (springOf degrees)
    alpha := 1.0
    alphaTarget := 0.0
    revision
    running := true
    ticks := 0
    noise := .ofSeed settings.seed }

omit [Scalar R] in
def positions (simulation : Simulation R) : Placement R :=
  simulation.bodies.map fun body => (body.id, body.position)

omit [Scalar R] in
def frame (simulation : Simulation R) : Frame R :=
  ⟨simulation.revision, simulation.alpha, simulation.positions⟩

omit [Scalar R] in
/-- Stops the simulation. Further ticks yield nothing. -/
def stop (simulation : Simulation R) : Simulation R :=
  { simulation with running := false }

def rest (simulation : Simulation R) : Simulation R :=
  { simulation.stop with alpha := 0.0, alphaTarget := 0.0 }

def reheat (simulation : Simulation R) (alpha : R) : Simulation R :=
  { simulation with alpha := Scalar.larger simulation.alpha alpha, running := true }

omit [Scalar R] in
def place? (simulation : Simulation R) (id : NodeId) : Option Nat :=
  Layout.lastPlace? (simulation.bodies.map (·.id)) id

def dragStart (simulation : Simulation R) (id : NodeId) : Bool × Simulation R :=
  match simulation.place? id with
  | none => (false, simulation)
  | some place =>
    let target := simulation.settings.dragAlphaTarget
    let bodies := simulation.bodies.modify place fun body => { body with pin := some body.position }
    (true, reheat { simulation with bodies, alphaTarget := target } target)

def dragTo (simulation : Simulation R) (id : NodeId) (position : Point R) :
    Bool × Simulation R :=
  match simulation.place? id with
  | none => (false, simulation)
  | some place =>
    let bodies := simulation.bodies.modify place fun body =>
      { body with pin := some position, position, velocity := ⟨0.0, 0.0⟩ }
    (true, { simulation with bodies })

/-- Releases a node. When no node is pinned any more, the simulation cools. -/
def dragEnd (simulation : Simulation R) (id : NodeId) : Bool × Simulation R :=
  match simulation.place? id with
  | none => (false, simulation)
  | some place =>
    let bodies := simulation.bodies.modify place fun body => { body with pin := none }
    let free := bodies.all (·.pin.isNone)
    (true, { simulation with
      bodies, alphaTarget := if free then 0.0 else simulation.alphaTarget })

@[inline] def jiggle (noise : Random.Stream) : R × Random.Stream :=
  let (fraction, noise) := RandomSource.fraction noise
  ((fraction - 0.5) * 1e-6, noise)

@[inline] def separate (difference : R) (noise : Random.Stream) : R × Random.Stream :=
  if difference == 0.0 then jiggle noise else (difference, noise)

@[inline] def accelerate (body : Body R) (x y : R) : Body R :=
  { body with velocity := ⟨body.velocity.x + x, body.velocity.y + y⟩ }

def pullSpring (alpha distance : R) (state : List (Body R) × Random.Stream)
    (spring : Spring R) : List (Body R) × Random.Stream :=
  let (bodies, noise) := state
  match bodies[spring.source]?, bodies[spring.target]? with
  | some source, some target =>
    let (dx, noise) := separate
      (target.position.x + target.velocity.x - source.position.x - source.velocity.x) noise
    let (dy, noise) := separate
      (target.position.y + target.velocity.y - source.position.y - source.velocity.y) noise
    let length := Scalar.sqrt (dx * dx + dy * dy)
    let factor := (length - distance) / length * alpha * spring.strength
    let fx := dx * factor
    let fy := dy * factor
    let share := 1.0 - spring.bias
    let bodies := bodies.modify spring.target fun body =>
      { body with
        velocity := ⟨body.velocity.x - fx * spring.bias, body.velocity.y - fy * spring.bias⟩ }
    (bodies.modify spring.source fun body => accelerate body (fx * share) (fy * share), noise)
  | _, _ => (bodies, noise)

@[specialize] def pushFrom (strength : R) (position : Point R)
    (state : Point R × Random.Stream) (other : Point R) : Point R × Random.Stream :=
  let (velocity, noise) := state
  let (dx, noise) := separate (other.x - position.x) noise
  let (dy, noise) := separate (other.y - position.y) noise
  let squared := dx * dx + dy * dy
  let squared := if squared < (1.0 : R) then Scalar.sqrt (1.0 * squared) else squared
  let weight := strength / squared
  (⟨velocity.x + dx * weight, velocity.y + dy * weight⟩, noise)

/-- Adds the push of all bodies but itself to the velocity of the body at a
place. -/
def charge (strength : R) (points : List (Nat × Point R)) (place : Nat) (body : Body R)
    (noise : Random.Stream) : Body R × Random.Stream :=
  let (velocity, noise) := points.foldl
    (fun state (other, point) =>
      if other = place then state else pushFrom strength body.position state point)
    (body.velocity, noise)
  ({ body with velocity }, noise)

def chargeAll (strength : R) (points : List (Nat × Point R)) (place : Nat) :
    List (Body R) → Random.Stream → List (Body R) × Random.Stream
  | [], noise => ([], noise)
  | body :: rest, noise =>
    let (body, noise) := charge strength points place body noise
    let (others, noise) := chargeAll strength points (place + 1) rest noise
    (body :: others, noise)

def pullCenter (center : Point R) (strength : R) (body : Body R) : Body R :=
  accelerate body ((center.x - body.position.x) * strength)
    ((center.y - body.position.y) * strength)

def integrate (retain : R) (body : Body R) : Body R :=
  match body.pin with
  | some pin => { body with position := pin, velocity := ⟨0.0, 0.0⟩ }
  | none =>
    let velocity := ⟨body.velocity.x * retain, body.velocity.y * retain⟩
    { body with
      velocity
      position := ⟨body.position.x + velocity.x, body.position.y + velocity.y⟩ }

def advance (simulation : Simulation R) (alpha : R) : List (Body R) × Random.Stream :=
  let settings := simulation.settings
  let (bodies, noise) := simulation.springs.foldl (pullSpring alpha settings.linkDistance)
    (simulation.bodies, simulation.noise)
  let points := bodies.zipIdx.map fun (body, place) => (place, body.position)
  let (bodies, noise) := chargeAll (settings.chargeStrength * alpha) points 0 bodies noise
  let bodies := bodies.map (pullCenter simulation.center (settings.centerStrength * alpha))
  (bodies.map (integrate (1.0 - settings.velocityDecay)), noise)

def cooled (simulation : Simulation R) : R :=
  simulation.alpha +
    (simulation.alphaTarget - simulation.alpha) * simulation.settings.alphaDecay

def tick (simulation : Simulation R) : Option (Frame R) × Simulation R :=
  if !simulation.running then (none, simulation)
  else
    let alpha := simulation.cooled
    let (bodies, noise) := simulation.advance alpha
    let after := { simulation with
      alpha
      bodies
      noise
      ticks := simulation.ticks + 1
      running := !decide (alpha < simulation.settings.alphaMin) }
    (some after.frame, after)

/-- Runs at most a number of ticks, until the simulation stops, and gives the
last frame after an earlier one. -/
def runFrom (last : Option (Frame R)) (simulation : Simulation R) :
    Nat → Option (Frame R) × Simulation R
  | 0 => (last, simulation)
  | limit + 1 =>
    match simulation.tick with
    | (none, after) => (last, after)
    | (some frame, after) => runFrom (some frame) after limit

def runUntilSettled (simulation : Simulation R) (limit : Nat) :
    Option (Frame R) × Simulation R :=
  runFrom none simulation limit

end Simulation

inductive SimulationOperation (R : Type) where
  | tick
  | runUntilSettled (limit : Nat)
  | dragStart (id : NodeId)
  | dragTo (id : NodeId) (position : Point R)
  | dragEnd (id : NodeId)
  | stop
  | rest
  | reheat (alpha : R)

namespace Simulation

variable {R : Type} [Scalar R]

def apply (simulation : Simulation R) : SimulationOperation R → Simulation R
  | .tick => simulation.tick.2
  | .runUntilSettled limit => (simulation.runUntilSettled limit).2
  | .dragStart id => (simulation.dragStart id).2
  | .dragTo id position => (simulation.dragTo id position).2
  | .dragEnd id => (simulation.dragEnd id).2
  | .stop => simulation.stop
  | .rest => simulation.rest
  | .reheat alpha => simulation.reheat alpha

def run (simulation : Simulation R) (operations : List (SimulationOperation R)) : Simulation R :=
  operations.foldl apply simulation

end Simulation

end PeerNet
