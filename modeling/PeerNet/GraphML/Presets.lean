import PeerNet.GraphML.Decode
import PeerNet.Files.Tree
import PeerNet.Config.Settings

/-!
# Presets

Prebuilt topologies are documents in one directory, named with the extension
`.graphml`. A load is a request that yields a ticket, a fetch, and a completion;
only the ticket of the latest request can be completed, so that a load which
was superseded changes nothing.
-/

set_option autoImplicit false

namespace PeerNet.GraphML

structure Ticket where
  name : String
  path : FilePath
  generation : UInt64
  deriving DecidableEq, Repr

inductive FetchFault where
  | unreadable
  | rejected (fault : DecodeFault)
  deriving DecidableEq, Repr

structure Presets where
  files : FileTree
  directory : FilePath
  /-- Counts requests and cancellations, modulo `2 ^ 64`. -/
  generation : UInt64
  deriving DecidableEq, Repr

namespace Presets

def extension : String := ".graphml"

def new (files : FileTree) (root : FilePath) (settings : AssetSettings) : Presets :=
  { files, directory := .ofText root settings.presetDirectory, generation := 0 }

def stem (name : String) : String :=
  match Text.withoutEnding? extension.toList name.toList with
  | some rest => String.ofList rest
  | none => name

/-- The path of a preset. The name may carry the extension. -/
def pathOf (presets : Presets) (name : String) : FilePath :=
  .ofText presets.directory (stem name ++ extension)

/-- The preset that an entry of the directory holds: its name without the
extension, where something is left of it. -/
def presetOf? (entry : String) : Option String :=
  match Text.withoutEnding? extension.toList entry.toList with
  | some (c :: rest) => some (String.ofList (c :: rest))
  | _ => none

/-- The names of all presets, in order; none if there is no directory. -/
def list? (presets : Presets) : Option (List String) :=
  (presets.files.entries? presets.directory).map fun entries =>
    (entries.filterMap presetOf?).mergeSort fun a b => decide (a ≤ b)

/-- Starts a load, which supersedes every earlier one. -/
def request (presets : Presets) (name : String) : Ticket × Presets :=
  let generation := presets.generation + 1
  let name := stem name
  (⟨name, presets.pathOf name, generation⟩, { presets with generation })

def cancel (presets : Presets) : Presets :=
  { presets with generation := presets.generation + 1 }

def isCurrent (presets : Presets) (ticket : Ticket) : Bool :=
  ticket.generation = presets.generation

variable {R : Type}

/-- Finishes a load, unless it was superseded or there is nothing to import. -/
def complete? (presets : Presets) (ticket : Ticket) (read : Partial R) : Option (Topology R) :=
  if presets.isCurrent ticket && !read.isEmpty then
    some (read.toTopology 0 ticket.name (.prebuilt ticket.name))
  else none

variable [NumberText R] [Scalar R]

def fetch (presets : Presets) (ticket : Ticket) : Except FetchFault (Partial R) :=
  match presets.files.read? ticket.path with
  | none => .error .unreadable
  | some document => (decode document).mapError .rejected

/-- Reads the document of a ticket; nothing if that fails. -/
def fetchSoft (presets : Presets) (ticket : Ticket) : Partial R :=
  match presets.fetch ticket with
  | .error _ => {}
  | .ok read => read

def load? (presets : Presets) (name : String) : Option (Topology R) × Presets :=
  let (ticket, presets) := presets.request name
  (presets.complete? ticket (presets.fetchSoft ticket), presets)

end Presets

end PeerNet.GraphML
