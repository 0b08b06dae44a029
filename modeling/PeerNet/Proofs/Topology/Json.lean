import PeerNet.Topology.Json
import PeerNet.Proofs.Overrides.Canonical

/-!
# Topologies read back from their JSON values

A record is written field by field, and what it does not have is left out. Each field is
read back as it was written, whatever else is there, so a record is read back when its parts
are. Of the parts only numbers may be lost: one that is not finite is written as null, which
is no number, and stands for an unset base fee. So a topology is read back from its value
just when its numbers are finite.
-/

set_option autoImplicit false

namespace PeerNet

/-- Items are read back one by one. -/
theorem mapM_map_eq_some_iff {α β γ : Type} {write : α → β} {read : β → Option γ} {value : α → γ}
    {items : List α} :
    (items.map write).mapM read = some (items.map value) ↔
      ∀ item ∈ items, read (write item) = some (value item) := by
  induction items with
  | nil => simp
  | cons item rest ih =>
    rw [List.forall_mem_cons, ← ih, List.map_cons, List.map_cons, List.mapM_cons]
    cases first : read (write item) with
    | none => simp
    | some found =>
      cases others : (rest.map write).mapM read with
      | none => simp
      | some list => simp

theorem mapM_map_eq_some_self_iff {α β : Type} {write : α → β} {read : β → Option α}
    {items : List α} :
    (items.map write).mapM read = some items ↔ ∀ item ∈ items, read (write item) = some item := by
  have each := @mapM_map_eq_some_iff α β α write read id items
  rwa [List.map_id] at each

variable {R : Type}

namespace Json

/-! ## Records -/

/-- The fields of a record, where those without a value are left out. -/
def record (entries : List (String × Option (Json R))) : List (String × Json R) :=
  entries.flatMap fun entry => fieldOf entry.1 entry.2

theorem filter_fieldOf (field name : String) (value? : Option (Json R)) :
    (fieldOf field value?).filter (·.1 = name) =
      if field = name then fieldOf field value? else [] := by
  cases value? with
  | none => simp [fieldOf]
  | some value => by_cases same : field = name <;> simp [fieldOf, same]

theorem filter_record_of_not_mem {entries : List (String × Option (Json R))} {name : String}
    (absent : name ∉ entries.map (·.1)) : (record entries).filter (·.1 = name) = [] := by
  induction entries with
  | nil => rfl
  | cons entry rest ih =>
    rw [List.map_cons, List.mem_cons, not_or] at absent
    rw [record, List.flatMap_cons, List.filter_append, filter_fieldOf,
      if_neg (Ne.symm absent.1), List.nil_append]
    exact ih absent.2

theorem filter_record {entries : List (String × Option (Json R))} {name : String}
    {value? : Option (Json R)} (distinct : (entries.map (·.1)).Nodup)
    (member : (name, value?) ∈ entries) :
    (record entries).filter (·.1 = name) = fieldOf name value? := by
  induction entries with
  | nil => cases member
  | cons entry rest ih =>
    obtain ⟨once, distinct⟩ := List.nodup_cons.1 distinct
    rw [record, List.flatMap_cons, List.filter_append, filter_fieldOf]
    rcases List.mem_cons.1 member with rfl | later
    · rw [if_pos rfl]
      exact (congrArg _ (filter_record_of_not_mem once)).trans (List.append_nil _)
    · have apart : entry.1 ≠ name := fun same =>
        once (List.mem_map.2 ⟨_, later, same.symm⟩)
      rw [if_neg apart, List.nil_append]
      exact ih distinct later

/-- A field of a record is read back, or found missing where it was left out. -/
theorem once?_record {entries : List (String × Option (Json R))} {name : String}
    {value? : Option (Json R)} (distinct : (entries.map (·.1)).Nodup)
    (member : (name, value?) ∈ entries) : once? (record entries) name = some value? := by
  rw [once?, filter_record distinct member]
  cases value? <;> rfl

theorem fields?_of_record {names : List String} {values : List (Option (Json R))}
    {value : Json R} (written : value = object (record (names.zip values)))
    (distinct : names.Nodup) (full : names.length = values.length) :
    value.fields? names = some values := by
  have named : (names.zip values).map (·.1) = names := List.map_fst_zip (Nat.le_of_eq full)
  have valued : (names.zip values).map (·.2) = values :=
    List.map_snd_zip (Nat.le_of_eq full.symm)
  have unique : ((names.zip values).map (·.1)).Nodup := by
    rw [named]
    exact distinct
  have read : ((names.zip values).map (·.1)).mapM (once? (record (names.zip values))) =
      some ((names.zip values).map (·.2)) :=
    mapM_map_eq_some_iff.2 fun _ member => once?_record unique member
  rw [named, valued] at read
  rw [written]
  exact read

theorem optional?_some {α : Type} {read : Json R → Option α} {value : Json R}
    (there : value ≠ null) : optional? read (some value) = (read value).map some := by
  cases value with
  | null => exact absurd rfl there
  | _ => rfl

/-- What may be unset is read back when what is set is, and is not written as null. -/
theorem optional?_map {α : Type} (write : α → Json R) {read : Json R → Option α}
    (readBack : ∀ x, read (write x) = some x) (there : ∀ x, write x ≠ null) (x? : Option α) :
    optional? read (x?.map write) = some x? := by
  cases x? with
  | none => rfl
  | some x => rw [Option.map_some, optional?_some (there x), readBack, Option.map_some]

/-! ## Numbers -/

variable [JsonNumber R]

theorem number?_ofNumber (x : R) :
    (ofNumber x).number? = if JsonNumber.isFinite x then some x else none := by
  unfold ofNumber
  split
  · rfl
  · rfl

/-- An unset number is left out, and one that is not finite is read back as unset. -/
theorem optional?_ofNumber (x? : Option R) :
    optional? number? (x?.map ofNumber) = some (x?.filter JsonNumber.isFinite) := by
  cases x? with
  | none => rfl
  | some x =>
    rw [Option.map_some, Option.filter, ofNumber]
    split
    · rfl
    · rfl

end Json

/-! ## Parts of a node -/

section

variable [JsonNumber R]

theorem Point.ofJson?_toJson (point : Point R) :
    ofJson? point.toJson =
      if JsonNumber.isFinite point.x ∧ JsonNumber.isFinite point.y then some point else none := by
  have read : point.toJson.fields? ["x", "y"] =
      some [some (.ofNumber point.x), some (.ofNumber point.y)] :=
    Json.fields?_of_record rfl (by decide) rfl
  rw [ofJson?, read]
  by_cases x : JsonNumber.isFinite point.x <;> by_cases y : JsonNumber.isFinite point.y <;>
    simp [Json.number?_ofNumber, x, y]

end

theorem Resources.ofJson?_toJson (resources : Resources) :
    ofJson? (resources.toJson : Json R) = some resources := by
  have read : (resources.toJson : Json R).fields? ["ram", "cpu"] =
      some [some (.integer resources.ram.toNat), some (.integer resources.cpu.toNat)] :=
    Json.fields?_of_record rfl (by decide) rfl
  rw [ofJson?, read]
  simp [Json.natural?, UInt32.toNat_lt_size]

theorem Edge.ofJson?_toJson (edge : Edge) : ofJson? (edge.toJson : Json R) = some edge := by
  have read : (edge.toJson : Json R).fields? ["source", "target"] =
      some [some (.string edge.source.text), some (.string edge.target.text)] :=
    Json.fields?_of_record rfl (by decide) rfl
  rw [ofJson?, read]
  rfl

theorem Overrides.ofJson?_toJson (overrides : Overrides) :
    ofJson? (overrides.toJson : Json R) = some overrides := by
  have read : (overrides.entries.map fun entry => (entry.1, (.string entry.2 : Json R))).mapM
      settingOf? = some overrides.entries :=
    mapM_map_eq_some_self_iff.2 fun _ _ => rfl
  calc ofJson? (overrides.toJson : Json R)
      _ = (some overrides.entries).map ofList := congrArg (Option.map ofList) read
      _ = some overrides := congrArg some (ofList_entries overrides)

/-- Overrides are left out when there are none. -/
theorem Overrides.optional_ofJson?_toJson (overrides : Overrides) :
    ((if overrides.isEmpty then none else some (overrides.toJson : Json R)).map
      ofJson?).getD (some empty) = some overrides := by
  split
  · next none =>
    rw [isEmpty, List.isEmpty_iff] at none
    exact congrArg some (ext_entries none.symm)
  · exact ofJson?_toJson overrides

/-! ## Nodes -/

namespace Node

variable [JsonNumber R]

/-- What a node has under each of its field names. -/
def jsonValues (node : Node R) : List (Option (Json R)) :=
  [some (.string node.id.text), some (.string node.label), some (.ofNumber node.size),
    node.version.map .string, node.latency.map .string, node.baseFee.map .ofNumber,
    node.resources.map Resources.toJson,
    if node.overrides.isEmpty then none else some node.overrides.toJson,
    some node.position.toJson]

theorem toJson_eq_record (node : Node R) :
    node.toJson = .object (Json.record (jsonFields.zip node.jsonValues)) := by
  simp [toJson, jsonFields, jsonValues, Json.record, Json.fieldOf]

/-- A node is read back from its value if its size and its position are finite, less a base
fee that is not. -/
theorem ofJson?_toJson (node : Node R) :
    ofJson? node.toJson =
      if JsonNumber.isFinite node.size ∧ JsonNumber.isFinite node.position.x ∧
          JsonNumber.isFinite node.position.y then
        some { node with baseFee := node.baseFee.filter JsonNumber.isFinite }
      else none := by
  have read : node.toJson.fields? jsonFields = some node.jsonValues :=
    Json.fields?_of_record node.toJson_eq_record (by decide) rfl
  have version : Json.optional? Json.string? (node.version.map (Json.string (R := R))) =
      some node.version := Json.optional?_map Json.string (fun _ => rfl) (fun _ => nofun) _
  have latency : Json.optional? Json.string? (node.latency.map (Json.string (R := R))) =
      some node.latency := Json.optional?_map Json.string (fun _ => rfl) (fun _ => nofun) _
  have resources : Json.optional? Resources.ofJson? (node.resources.map
      (Resources.toJson (R := R))) = some node.resources :=
    Json.optional?_map Resources.toJson Resources.ofJson?_toJson (fun _ => nofun) _
  rw [ofJson?, read]
  simp only [jsonValues, bind, Option.bind_some, Json.number?_ofNumber, version, latency,
    resources, Json.optional?_ofNumber, Overrides.optional_ofJson?_toJson, Point.ofJson?_toJson]
  simp only [Json.string?, Option.bind_some]
  by_cases size : JsonNumber.isFinite node.size
  · by_cases place : JsonNumber.isFinite node.position.x ∧ JsonNumber.isFinite node.position.y
    · simp [size, place]
    · simp [size, place]
  · simp [size]

/-- The size, the position and a base fee that is set are finite. -/
structure HasFiniteNumbers (node : Node R) : Prop where
  size : JsonNumber.isFinite node.size
  x : JsonNumber.isFinite node.position.x
  y : JsonNumber.isFinite node.position.y
  baseFee : ∀ fee ∈ node.baseFee, JsonNumber.isFinite fee

theorem filter_isFinite_eq_self_iff {x? : Option R} :
    x?.filter JsonNumber.isFinite = x? ↔ ∀ x ∈ x?, JsonNumber.isFinite x := by
  cases x? with
  | none => simp
  | some x => simp [Option.filter]

theorem ofJson?_toJson_eq_some_iff (node : Node R) :
    ofJson? node.toJson = some node ↔ node.HasFiniteNumbers := by
  rw [ofJson?_toJson]
  constructor
  · intro readBack
    split at readBack
    · next finite =>
      have fee : node.baseFee.filter JsonNumber.isFinite = node.baseFee :=
        congrArg baseFee (Option.some.inj readBack)
      exact ⟨finite.1, finite.2.1, finite.2.2, filter_isFinite_eq_self_iff.1 fee⟩
    · cases readBack
  · intro finite
    rw [if_pos ⟨finite.size, finite.x, finite.y⟩, filter_isFinite_eq_self_iff.2 finite.baseFee]

end Node

/-! ## Topologies -/

namespace Topology

variable [JsonNumber R]

def jsonEntries (topology : Topology R) : List (String × Option (Json R)) :=
  [("id", some (.integer topology.id.toNat)), ("name", some (.string topology.name)),
    ("kind", some (.string (if topology.origin.isPrebuilt then "prebuilt" else "custom"))),
    ("asset", topology.origin.asset?.map .string),
    ("nodes", some (.array (topology.nodes.map Node.toJson))),
    ("edges", some (.array (topology.edges.map Edge.toJson)))]

theorem toJson_eq_record (topology : Topology R) :
    topology.toJson = .object (Json.record topology.jsonEntries) := by
  obtain ⟨id, name, origin, nodes, edges⟩ := topology
  cases origin with
  | custom => rfl
  | prebuilt asset => rfl

theorem once?_toJson (topology : Topology R) {name : String} {value? : Option (Json R)}
    (member : (name, value?) ∈ topology.jsonEntries) :
    Json.once? (Json.record topology.jsonEntries) name = some value? :=
  Json.once?_record (by simp [jsonEntries]) member

theorem isSoundField_toJson (topology : Topology R) :
    (Json.record topology.jsonEntries).all isSoundField = true := by
  obtain ⟨id, name, origin, nodes, edges⟩ := topology
  cases origin with
  | custom => rfl
  | prebuilt asset => rfl

theorem ofJsonFields?_toJson (topology : Topology R) :
    Origin.ofJsonFields? (Json.record topology.jsonEntries) = some topology.origin := by
  have kind : Json.once? (Json.record topology.jsonEntries) "kind" =
      some (some (.string (if topology.origin.isPrebuilt then "prebuilt" else "custom"))) :=
    topology.once?_toJson (by simp [jsonEntries])
  have asset : Json.once? (Json.record topology.jsonEntries) "asset" =
      some (topology.origin.asset?.map .string) :=
    topology.once?_toJson (by simp [jsonEntries])
  rw [Origin.ofJsonFields?, kind, asset]
  cases topology.origin with
  | custom => rfl
  | prebuilt asset => rfl

/-- The numbers of all nodes are finite. -/
def HasFiniteNumbers (topology : Topology R) : Prop :=
  ∀ node ∈ topology.nodes, node.HasFiniteNumbers

theorem ownFields_toJson (topology : Topology R) :
    ownFields.mapM (Json.once? (Json.record topology.jsonEntries)) =
      some [some (.integer topology.id.toNat), some (.string topology.name),
        some (.array (topology.nodes.map Node.toJson)),
        some (.array (topology.edges.map Edge.toJson))] := by
  let own : List (String × Option (Json R)) :=
    [("id", some (.integer topology.id.toNat)), ("name", some (.string topology.name)),
      ("nodes", some (.array (topology.nodes.map Node.toJson))),
      ("edges", some (.array (topology.edges.map Edge.toJson)))]
  have listed : own ⊆ topology.jsonEntries := by simp [own, jsonEntries]
  have read : (own.map (·.1)).mapM (Json.once? (Json.record topology.jsonEntries)) =
      some (own.map (·.2)) :=
    mapM_map_eq_some_iff.2 fun _ member => topology.once?_toJson (listed member)
  exact read

/-- All of a topology but its nodes is read back whatever it is. -/
theorem ofJson?_toJson (topology : Topology R) :
    ofJson? topology.toJson =
      ((topology.nodes.map Node.toJson).mapM Node.ofJson?).map fun nodes =>
        { topology with nodes } := by
  have id : (Json.integer topology.id.toNat : Json R).natural? UInt32.size =
      some topology.id.toNat := if_pos topology.id.toNat_lt_size
  have edges : (topology.edges.map Edge.toJson).mapM (Edge.ofJson? (R := R)) =
      some topology.edges :=
    mapM_map_eq_some_self_iff.2 fun edge _ => edge.ofJson?_toJson
  have sound : guard ((Json.record topology.jsonEntries).all isSoundField) = some () :=
    if_pos topology.isSoundField_toJson
  rw [toJson_eq_record, ofJson?, sound, ownFields_toJson]
  simp only [id, Json.string?, ofJsonFields?_toJson, Json.items?, edges, bind, Option.bind_some,
    UInt32.ofNat_toNat]
  cases (topology.nodes.map Node.toJson).mapM Node.ofJson? with
  | none => rfl
  | some nodes => rfl

/-- A topology is read back from its value as it was just when its numbers are finite, of
whatever origin it is and whatever is set in its nodes. -/
theorem ofJson?_toJson_eq_self_iff (topology : Topology R) :
    ofJson? topology.toJson = some topology ↔ topology.HasFiniteNumbers := by
  have whole : ofJson? topology.toJson = some topology ↔
      (topology.nodes.map Node.toJson).mapM Node.ofJson? = some topology.nodes := by
    rw [ofJson?_toJson, Option.map_eq_some_iff]
    constructor
    · rintro ⟨nodes, readBack, same⟩
      rw [readBack, ← congrArg Topology.nodes same]
    · intro readBack
      exact ⟨_, readBack, rfl⟩
  rw [whole, mapM_map_eq_some_self_iff]
  exact forall₂_congr fun node _ => node.ofJson?_toJson_eq_some_iff

end Topology

end PeerNet
