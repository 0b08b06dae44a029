import PeerNet.GraphML.Encode
import PeerNet.GraphML.Presets
import PeerNet.Layout.Strategy
import PeerNet.Store.Basic
import PeerNet.Topology.Generate

/-!
# Editing sessions

A session takes a user from the choice of a start to the editing of a topology.
It owns the store, the running simulation and the outstanding preset load.
Every structural edit starts the simulation anew, and every way out of the
editor ends it.
-/

set_option autoImplicit false

namespace PeerNet

inductive Step where
  | chooseStart
  | selectPreset
  | presetInfo
  | editGraph
  deriving DecidableEq, Repr

structure Session (R : Type) where
  settings : Settings R
  store : Store R
  step : Step
  simulation : Option (Simulation R)
  presets : GraphML.Presets
  preview : Option (Topology R)

namespace Session

variable {R : Type}

def new (settings : Settings R) (files : FileTree) (root : FilePath) : Session R where
  settings
  store := .new settings.options settings.canvas
  step := .chooseStart
  simulation := none
  presets := .new files root settings.assets
  preview := none

def isSimulating (session : Session R) : Bool :=
  session.simulation.any (·.running)

def teardown (session : Session R) : Session R :=
  { session with simulation := none }

def browse (session : Session R) : Bool × Session R :=
  if session.step = .chooseStart then (true, { session with step := .selectPreset })
  else (false, session)

/-- Requests a preset, which supersedes every earlier request. -/
def requestPreset (session : Session R) (name : String) :
    Option GraphML.Ticket × Session R :=
  if session.step = .selectPreset then
    let (ticket, presets) := session.presets.request name
    (some ticket, { session with presets })
  else (none, session)

/-- Finishes a preset load. A superseded or empty one changes nothing. -/
def completePreset (session : Session R) (ticket : GraphML.Ticket) (read : Partial R) :
    Bool × Session R :=
  if session.step = .selectPreset then
    match session.presets.complete? ticket read with
    | some topology => (true, { session with preview := some topology, step := .presetInfo })
    | none => (false, session)
  else (false, session)

def back (session : Session R) : Session R :=
  match session.step with
  | .chooseStart => session
  | .selectPreset =>
    { session with step := .chooseStart, presets := session.presets.cancel }
  | .presetInfo => { session with step := .selectPreset, preview := none }
  | .editGraph =>
    { session.teardown with
      step := .chooseStart
      store := .new session.settings.options session.settings.canvas }

section

variable [Scalar R]

/-- Starts a simulation of the topology, unless it is prebuilt. -/
def startSimulation (session : Session R) : Session R :=
  if session.store.topology.origin.isPrebuilt then session
  else
    { session with
      simulation := some (.new session.store.topology session.store.revision
        session.settings.layout.force session.settings.canvas) }

/-- Places the nodes by a strategy, unless it is refused. -/
def applyLayout (session : Session R) (strategy : Strategy) : Bool × Session R :=
  match Layout.layout session.store.topology strategy session.settings.layout
      session.settings.canvas with
  | .ok positions => (true, { session with store := (session.store.place positions).2 })
  | .error _ => (false, session)

/-- Seeds the store and arranges the topology for the first time. A ranked
arrangement stays at rest until a drag or a structural edit. -/
def openTopology (session : Session R) (topology : Topology R) (laidOut : Bool) : Session R :=
  let hasEdges := !topology.edges.isEmpty
  let session := { session.teardown with store := session.store.seed topology }
  match Layout.initialStrategy topology.origin hasEdges laidOut with
  | some .ranked =>
    let session := (session.applyLayout .ranked).2.startSimulation
    { session with simulation := session.simulation.map Simulation.rest }
  | some .force => session.startSimulation
  | none => session

def openFromStart (session : Session R) (topology : Topology R) (laidOut : Bool) :
    Bool × Session R :=
  if session.step = .chooseStart then
    (true, openTopology { session with step := .editGraph } topology laidOut)
  else (false, session)

def startFromScratch (session : Session R) : Bool × Session R :=
  session.openFromStart (.scratch session.settings.canvas) false

def openCustom (session : Session R) (topology : Topology R) : Bool × Session R :=
  session.openFromStart topology false

def openSaved (session : Session R) (topology : Topology R) : Bool × Session R :=
  session.openFromStart topology true

def confirmPreset (session : Session R) : Bool × Session R :=
  if session.step = .presetInfo then
    match session.preview with
    | some topology =>
      (true, openTopology { session with preview := none, step := .editGraph } topology false)
    | none => (false, session)
  else (false, session)

def tick (session : Session R) : Bool × Session R :=
  match session.simulation with
  | none => (false, session)
  | some simulation =>
    let (frame, simulation) := simulation.tick
    match frame with
    | some frame =>
      let (applied, store) := session.store.applyFrame frame
      (applied, { session with simulation := some simulation, store })
    | none => (false, { session with simulation := some simulation })

def dragStart (session : Session R) (id : NodeId) : Bool × Session R :=
  (session.store.topology.hasNode id,
    { session with simulation := session.simulation.map fun held => (held.dragStart id).2 })

def dragTo (session : Session R) (id : NodeId) (position : Point R) : Bool × Session R :=
  let (moved, store) := session.store.move id position
  (moved, { session with
    store
    simulation := session.simulation.map fun held => (held.dragTo id position).2 })

def dragEnd (session : Session R) (id : NodeId) : Bool × Session R :=
  (session.store.topology.hasNode id,
    { session with simulation := session.simulation.map fun held => (held.dragEnd id).2 })

/-- Takes over the store that an edit leaves, and starts the simulation anew if
there is one and the node or link set changed. -/
def update (session : Session R) (store : Store R) : Session R :=
  let changed := store.revision ≠ session.store.revision
  let session := { session with store }
  if changed && session.simulation.isSome then session.startSimulation else session

def add (session : Session R) (template : Option (Node R)) : Session R :=
  session.update (session.store.add template)

/-- Edits a node. The simulation is not concerned. -/
def edit (session : Session R) (id : NodeId) (patch : Patch) : Session R :=
  { session with store := (session.store.edit id patch).2 }

def duplicate (session : Session R) (id : NodeId) : Session R :=
  session.update (session.store.duplicate id).2

def delete (session : Session R) (id : NodeId) : Session R :=
  session.update (session.store.delete id).2

def connect (session : Session R) (source target : NodeId) : Session R :=
  session.update (session.store.connect source target).2

def disconnect (session : Session R) (source target : NodeId) : Session R :=
  session.update (session.store.disconnect source target).2

variable [NumberText R]

def loadPreset (session : Session R) (name : String) : Bool × Session R :=
  match session.requestPreset name with
  | (some ticket, session) =>
    session.completePreset ticket (session.presets.fetchSoft ticket)
  | (none, session) => (false, session)

omit [Scalar R] in
def exportText (session : Session R) : String :=
  GraphML.encode session.store.topology

end

end Session

end PeerNet
