import PeerNet.CommandLine.Arguments
import PeerNet.Config.Load
import PeerNet.GraphML.Encode
import PeerNet.GraphML.Presets
import PeerNet.Json.Print
import PeerNet.Overrides.Conf
import PeerNet.Store.Basic
import PeerNet.Topology.Summary
import PeerNet.Topology.Validity

/-!
# Runs of the program

What a request does to the files and what it prints. Its paths are taken from a
working directory. A request either succeeds, or says why it failed and changes
no file. Topologies are checked before they are written.
-/

set_option autoImplicit false

namespace PeerNet.CommandLine

inductive RunFault (R : Type) where
  | settings (fault : LoadFault R)
  | unreadable (path : String)
  | unwritable (path : String)
  | rejected (path : String) (fault : GraphML.DecodeFault)
  | probability (value : R)
  | unsuitable (reason : Template.Unsuitable)
  | invalid (violation : Violation)
  | layout (fault : LayoutFault)
  | missingNode (node : NodeId) (path : String)
  | noPresets (path : String)
  deriving DecidableEq

namespace RunFault

variable {R : Type} [NumberText R]

def message : RunFault R → String
  | .settings .unreadable => "Failed to open the configuration"
  | .settings .unparsable => "Failed to parse the configuration"
  | .settings (.invalid fault) => fault.message
  | .unreadable path => "Failed to read '" ++ path ++ "'"
  | .unwritable path => "Failed to write '" ++ path ++ "'"
  | .rejected path fault => "Failed to decode '" ++ path ++ "': " ++ fault.message
  | .probability value => "probability must be within [0, 1], got " ++ NumberText.write value
  | .unsuitable reason => reason.message
  | .invalid violation => violation.message
  | .layout fault => fault.message
  | .missingNode node path => "Node '" ++ node.text ++ "' not found in '" ++ path ++ "'"
  | .noPresets path => "Failed to list presets in '" ++ path ++ "'"

end RunFault

structure Done where
  lines : List String := []
  files : FileTree
  shown : Duration := ⟨0⟩
  deriving DecidableEq, Repr

abbrev Outcome (R : Type) (α : Type) := Except (RunFault R) α

structure Place where
  files : FileTree
  directory : FilePath
  deriving DecidableEq, Repr

def Place.path? (place : Place) (text : String) : Option FilePath :=
  FilePath.ofFileText? place.directory text

/-- The file that a document is written to unless another one is given. -/
def standardFile : String := GraphML.exportName

section

variable {R : Type}

def readFile (place : Place) (path : String) : Outcome R String :=
  match (place.path? path).bind place.files.read? with
  | some text => .ok text
  | none => .error (.unreadable path)

def readOverrides (place : Place) : Option String → Outcome R Overrides
  | none => .ok .empty
  | some path => (readFile place path).map Overrides.parseConf

def presetsOf (settings : Settings R) (place : Place) (assets : String) : GraphML.Presets :=
  .new place.files (.ofText place.directory assets) settings.assets

def runPresets (settings : Settings R) (place : Place) (assets : String) : Outcome R Done :=
  let presets := presetsOf settings place assets
  match presets.list? with
  | some lines => .ok { lines, files := place.files }
  | none => .error (.noPresets ("/" ++ presets.directory.toText))

variable [Scalar R]

def laidOut (settings : Settings R) (strategy : Strategy) (topology : Topology R) :
    Outcome R (Topology R) :=
  match Layout.layout topology strategy settings.layout settings.canvas with
  | .error fault => .error (.layout fault)
  | .ok positions =>
    .ok ((Store.ofTopology topology settings.options settings.canvas).place positions).2.topology

/-- Applies the frames of a simulation to a store until the simulation stops,
within a number of ticks. Gives the number of frames and the store. -/
def animateFrom (shown : Nat) (simulation : Simulation R) (store : Store R) :
    Nat → Nat × Store R
  | 0 => (shown, store)
  | limit + 1 =>
    match simulation.tick with
    | (none, _) => (shown, store)
    | (some frame, simulation) =>
      animateFrom (shown + 1) simulation (store.applyFrame frame).2 limit

def animated (settings : Settings R) (topology : Topology R) : Nat × Topology R :=
  let store := Store.ofTopology topology settings.options settings.canvas
  let simulation :=
    Simulation.new store.topology store.revision settings.layout.force settings.canvas
  let (shown, store) := animateFrom 0 simulation store Layout.maxForceTicks
  (shown, store.topology)

variable [JsonNumber R]

def readTopology (place : Place) (path : String) : Outcome R (Topology R) := do
  let document ← readFile place path
  match GraphML.decode document with
  | .error fault => .error (.rejected path fault)
  | .ok read => .ok (read.toTopology 0 path .custom)

def writeTopology (place : Place) (path : String) (topology : Topology R) : Outcome R Done :=
  match topology.validate with
  | .error violation => .error (.invalid violation)
  | .ok () =>
    match (place.path? path).bind (place.files.write? · (GraphML.encode topology)) with
    | some files => .ok { files }
    | none => .error (.unwritable path)

def runCreate (settings : Settings R) (place : Place) (noise : Random.Stream)
    (nodes outbounds : Nat) (version conf outfile : Option String) : Outcome R Done := do
  let version := version.getD settings.options.defaultVersion
  let overrides ← readOverrides place conf
  writeTopology place (outfile.getD standardFile)
    (Topology.cycle nodes outbounds version overrides noise).1

def runRandom (settings : Settings R) (place : Place) (noise : Random.Stream) (nodes : Nat)
    (probability : R) (outfile : Option String) : Outcome R Done :=
  if (0.0 : R) ≤ probability ∧ probability ≤ (1.0 : R) then
    writeTopology place (outfile.getD standardFile)
      (Topology.random nodes probability settings.options.defaultVersion noise).1
  else .error (.probability probability)

def runTemplate (settings : Settings R) (place : Place) (template : Template) (nodes : Nat)
    (outfile : Option String) : Outcome R Done := do
  match template.checkCount nodes with
  | .error reason => .error (.unsuitable reason)
  | .ok () =>
    let topology := Topology.ofTemplate template nodes settings.options.defaultVersion
    writeTopology place (outfile.getD standardFile) (← laidOut settings .ranked topology)

def runInfo (place : Place) (path : String) (json : Bool) : Outcome R Done := do
  let summary := Summary.ofTopology (← readTopology (R := R) place path)
  let lines := if json then [Json.pretty (summary.toJson : Json R)] else summary.lines path
  .ok { lines, files := place.files }

def runPeers (place : Place) (path : String) (node : NodeId) : Outcome R Done := do
  let topology : Topology R ← readTopology place path
  if topology.hasNode node then
    let lines := (topology.peers node).map fun peer => peer.id.text ++ "\t" ++ peer.label
    .ok { lines, files := place.files }
  else .error (.missingNode node path)

/-- New positions for the nodes of a document. An animation shows the frames of
the force simulation one by one. -/
def runLayout (settings : Settings R) (place : Place) (path : String) (strategy : Strategy)
    (animate : Bool) (outfile : Option String) : Outcome R Done := do
  let topology ← readTopology place path
  if animate ∧ strategy = .force then
    let (shown, topology) := animated settings topology
    let done ← writeTopology place (outfile.getD path) topology
    .ok { done with shown := ⟨shown * settings.layout.force.tickInterval.nanoseconds⟩ }
  else writeTopology place (outfile.getD path) (← laidOut settings strategy topology)

variable [Yaml.ScalarNumber R]

def Request.settings (request : Request R) (place : Place) : Outcome R (Settings R) :=
  match request.config with
  | none => (Settings.load place.files none).mapError .settings
  | some text =>
    match place.path? text with
    | none => .error (.settings .unreadable)
    | some path => (Settings.load place.files (some path)).mapError .settings

def Request.fileTexts (request : Request R) : List String :=
  request.config.toList ++
    match request.command with
    | .create _ _ _ conf _ outfile => conf.toList ++ [outfile.getD standardFile]
    | .random _ _ _ outfile | .template _ _ outfile | .scratch outfile =>
      [outfile.getD standardFile]
    | .info file _ | .peers file _ => [file]
    | .layout file _ _ outfile => [file] ++ outfile.toList
    | .presets => []

def Request.listed? (request : Request R) (place : Place) : Option FilePath :=
  match request.command, request.settings place with
  | .presets, .ok settings => some (presetsOf settings place request.assets).directory
  | _, _ => none

/-- Does what a request asks for. Where it gives no seed, random draws start
from another one. -/
def Request.run (request : Request R) (otherSeed : UInt64) (place : Place) :
    Outcome R Done := do
  let settings ← request.settings place
  let noise (seed : Option UInt64) : Random.Stream := .ofSeed (seed.getD otherSeed)
  match request.command with
  | .create nodes outbounds version conf seed outfile =>
    runCreate settings place (noise seed) nodes outbounds version conf outfile
  | .random nodes probability seed outfile =>
    runRandom settings place (noise seed) nodes probability outfile
  | .template template nodes outfile => runTemplate settings place template nodes outfile
  | .scratch outfile =>
    writeTopology place (outfile.getD standardFile) (.scratch settings.canvas)
  | .info file json => runInfo place file json
  | .peers file node => runPeers place file node
  | .layout file strategy animate outfile =>
    runLayout settings place file strategy animate outfile
  | .presets => runPresets settings place request.assets

end

end PeerNet.CommandLine
