import PeerNet.Json.Basic
import PeerNet.Topology.Basic

/-!
# Topologies as JSON values

The value of a topology and the topology of a value. The origin is spread over
two fields, `kind` and `asset`. What a node does not have is left out, and may
be null in a value that is read. Only the topology itself has to be an object,
all of whose fields have a meaning; nodes, links and their parts may also be
arrays of all their fields.
-/

set_option autoImplicit false

namespace PeerNet

variable {R : Type} [JsonNumber R]

namespace Point

def toJson (point : Point R) : Json R :=
  .object [("x", .ofNumber point.x), ("y", .ofNumber point.y)]

def ofJson? (value : Json R) : Option (Point R) := do
  match ← value.fields? ["x", "y"] with
  | [some x, some y] => some ⟨← x.number?, ← y.number?⟩
  | _ => none

end Point

namespace Resources

omit [JsonNumber R] in
def toJson (resources : Resources) : Json R :=
  .object [("ram", .integer resources.ram.toNat), ("cpu", .integer resources.cpu.toNat)]

omit [JsonNumber R] in
def ofJson? (value : Json R) : Option Resources := do
  match ← value.fields? ["ram", "cpu"] with
  | [some ram, some cpu] =>
    some ⟨.ofNat (← ram.natural? UInt32.size), .ofNat (← cpu.natural? UInt32.size)⟩
  | _ => none

end Resources

namespace Overrides

omit [JsonNumber R] in
def toJson (overrides : Overrides) : Json R :=
  .object (overrides.entries.map fun (name, value) => (name, .string value))

omit [JsonNumber R] in
def settingOf? (field : String × Json R) : Option (String × String) :=
  field.2.string?.map (field.1, ·)

omit [JsonNumber R] in
/-- The overrides that a value gives. A later value for a name replaces an
earlier one. -/
def ofJson? : Json R → Option Overrides
  | .object fields => (fields.mapM settingOf?).map ofList
  | _ => none

end Overrides

namespace Json

omit [JsonNumber R] in
def optional? {α : Type} (read? : Json R → Option α) : Option (Json R) → Option (Option α)
  | none | some .null => some none
  | some value => (read? value).map some

omit [JsonNumber R] in
def fieldOf (name : String) (value? : Option (Json R)) : List (String × Json R) :=
  value?.toList.map (name, ·)

end Json

namespace Node

def jsonFields : List String :=
  ["id", "label", "size", "version", "latency_profile", "base_fee_rate", "resource_profile",
    "bitcoin_conf_overrides", "position"]

def toJson (node : Node R) : Json R :=
  .object
    ([("id", .string node.id.text), ("label", .string node.label), ("size", .ofNumber node.size)] ++
      Json.fieldOf "version" (node.version.map .string) ++
      Json.fieldOf "latency_profile" (node.latency.map .string) ++
      Json.fieldOf "base_fee_rate" (node.baseFee.map .ofNumber) ++
      Json.fieldOf "resource_profile" (node.resources.map Resources.toJson) ++
      Json.fieldOf "bitcoin_conf_overrides"
        (if node.overrides.isEmpty then none else some node.overrides.toJson) ++
      [("position", node.position.toJson)])

def ofJson? (value : Json R) : Option (Node R) := do
  match ← value.fields? jsonFields with
  | [some id, some label, some size, version, latency, baseFee, resources, overrides,
      some position] =>
    some {
      id := ⟨← id.string?⟩
      label := ← label.string?
      size := ← size.number?
      version := ← Json.optional? Json.string? version
      latency := ← Json.optional? Json.string? latency
      baseFee := ← Json.optional? Json.number? baseFee
      resources := ← Json.optional? Resources.ofJson? resources
      overrides := ← (overrides.map Overrides.ofJson?).getD (some .empty)
      position := ← Point.ofJson? position }
  | _ => none

end Node

namespace Edge

omit [JsonNumber R] in
def toJson (edge : Edge) : Json R :=
  .object [("source", .string edge.source.text), ("target", .string edge.target.text)]

omit [JsonNumber R] in
def ofJson? (value : Json R) : Option Edge := do
  match ← value.fields? ["source", "target"] with
  | [some source, some target] => some ⟨⟨← source.string?⟩, ⟨← target.string?⟩⟩
  | _ => none

end Edge

namespace Origin

omit [JsonNumber R] in
def toJsonFields : Origin → List (String × Json R)
  | .custom => [("kind", .string "custom")]
  | .prebuilt asset => [("kind", .string "prebuilt"), ("asset", .string asset)]

omit [JsonNumber R] in
/-- The origin that fields tell. A kind may also be given by its number. The
asset of a custom topology is not looked at. -/
def ofJsonFields? (fields : List (String × Json R)) : Option Origin := do
  match ← Json.once? fields "kind" with
  | some (.string "custom") | some (.integer 0) => some .custom
  | some (.string "prebuilt") | some (.integer 1) =>
    match ← Json.once? fields "asset" with
    | some asset => asset.string?.map .prebuilt
    | none => none
  | _ => none

end Origin

namespace Topology

def toJson (topology : Topology R) : Json R :=
  .object
    ([("id", .integer topology.id.toNat), ("name", .string topology.name)] ++
      topology.origin.toJsonFields ++
      [("nodes", .array (topology.nodes.map Node.toJson)),
        ("edges", .array (topology.edges.map Edge.toJson))])

def ownFields : List String :=
  ["id", "name", "nodes", "edges"]

omit [JsonNumber R] in
/-- True of a field that is the topology's own, or else has a meaning and is
nested at most 126 deep. -/
def isSoundField (field : String × Json R) : Bool :=
  field.1 ∈ ownFields || field.2.isSound 126

def ofJson? (value : Json R) : Option (Topology R) := do
  match value with
  | .object fields =>
    guard (fields.all isSoundField)
    match ← ownFields.mapM (Json.once? fields) with
    | [some id, some name, some nodes, some edges] =>
      some {
        id := .ofNat (← id.natural? UInt32.size)
        name := ← name.string?
        origin := ← Origin.ofJsonFields? fields
        nodes := ← (← nodes.items?).mapM Node.ofJson?
        edges := ← (← edges.items?).mapM Edge.ofJson? }
    | _ => none
  | _ => none

end Topology

end PeerNet
