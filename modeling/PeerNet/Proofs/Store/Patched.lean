import PeerNet.Proofs.Store.Edit

/-!
# What a patch makes of a node

A patch is accepted when each of its entries names a field and gives a value that the field
takes, and it is then applied to a live node. What becomes of the node is told by the value
that the patch gives last to each field: neither the order of the entries nor a value that is
given before matters. Otherwise the first bad entry is reported, before a missing node.
-/

set_option autoImplicit false

namespace PeerNet

variable {R : Type}

/-! ## Entries -/

/-- The values that the options let a field take. -/
def NodeOptions.Admits (options : NodeOptions) (value : String) : Field → Prop
  | .label | .overrides => True
  | .version => value ∈ options.versions
  | .latency => value ∈ options.latencies
  | .ram => ∃ size ∈ options.ram, Decimal.readWord32? (Text.trimmed value) = some size
  | .cpu => ∃ count ∈ options.cpu, Decimal.readWord32? (Text.trimmed value) = some count

instance (options : NodeOptions) (value : String) (field : Field) :
    Decidable (options.Admits value field) :=
  match field with
  | .label | .overrides => inferInstanceAs (Decidable True)
  | .version => inferInstanceAs (Decidable (value ∈ options.versions))
  | .latency => inferInstanceAs (Decidable (value ∈ options.latencies))
  | .ram => inferInstanceAs (Decidable (∃ size ∈ options.ram, _ = some size))
  | .cpu => inferInstanceAs (Decidable (∃ count ∈ options.cpu, _ = some count))

namespace Patch

/-- True of an entry that names a field and gives it a value that it takes. -/
def ValidEntry (options : NodeOptions) (entry : String × String) : Prop :=
  ∃ field ∈ Field.all, entry.1 = field.key ∧ options.Admits entry.2 field

instance (options : NodeOptions) (entry : String × String) :
    Decidable (ValidEntry options entry) :=
  inferInstanceAs (Decidable (∃ field ∈ Field.all, _))

def Valid (options : NodeOptions) (patch : Patch) : Prop :=
  ∀ entry ∈ patch.entries, ValidEntry options entry

instance (options : NodeOptions) (patch : Patch) : Decidable (patch.Valid options) :=
  inferInstanceAs (Decidable (∀ entry ∈ patch.entries, _))

/-- Why a bad entry is refused. -/
def entryFault (entry : String × String) : Rejection :=
  if entry.1 ∈ Field.all.map (·.key) then .invalidValue entry.1 entry.2 else .unknownField entry.1

end Patch

theorem Field.ofKey?_key (field : Field) : Field.ofKey? field.key = some field := by
  cases field <;> decide

theorem Field.ofKey?_eq_some_iff {key : String} {field : Field} :
    Field.ofKey? key = some field ↔ key = field.key := by
  constructor
  · intro known
    have same : field.key = key := by simpa using List.find?_some known
    exact same.symm
  · rintro rfl
    exact field.ofKey?_key

namespace FieldEdit

variable {options : NodeOptions}

theorem ofValue?_isSome_iff {field : Field} {value : String} :
    (ofValue? options field value).isSome = true ↔ options.Admits value field := by
  cases field with
  | label | overrides => exact iff_of_true rfl trivial
  | version | latency => simp [ofValue?, NodeOptions.Admits]
  | ram | cpu =>
    simp only [ofValue?, NodeOptions.Admits, Option.isSome_map, Option.isSome_filter]
    cases Decimal.readWord32? (Text.trimmed value) <;> simp

theorem exists_ofEntry_eq_ok {entry : String × String} (valid : Patch.ValidEntry options entry) :
    ∃ edit, ofEntry options entry.1 entry.2 = .ok edit := by
  obtain ⟨field, _, named, admitted⟩ := valid
  obtain ⟨edit, valued⟩ := Option.isSome_iff_exists.1 (ofValue?_isSome_iff.2 admitted)
  exact ⟨edit, by rw [ofEntry, named, field.ofKey?_key]; simp only [valued]⟩

theorem ofEntry_eq_error {entry : String × String} (bad : ¬Patch.ValidEntry options entry) :
    ofEntry options entry.1 entry.2 = .error (Patch.entryFault entry) := by
  unfold ofEntry
  cases known : Field.ofKey? entry.1 with
  | none =>
    have unnamed : entry.1 ∉ Field.all.map (·.key) := by
      intro listed
      obtain ⟨field, _, same⟩ := List.mem_map.1 listed
      rw [← same, field.ofKey?_key] at known
      cases known
    simp only [Patch.entryFault, if_neg unnamed]
  | some field =>
    have named : entry.1 = field.key := Field.ofKey?_eq_some_iff.1 known
    have listed : entry.1 ∈ Field.all.map (·.key) :=
      List.mem_map.2 ⟨field, field.mem_all, named.symm⟩
    have refused : ofValue? options field entry.2 = none := by
      rw [← Option.not_isSome_iff_eq_none, ofValue?_isSome_iff]
      exact fun admitted => bad ⟨field, field.mem_all, named, admitted⟩
    simp only [refused, Patch.entryFault, if_pos listed]

end FieldEdit

namespace Patch

variable {options : NodeOptions}

theorem exists_resolveEntries_eq_ok {entries : List (String × String)}
    (valid : ∀ entry ∈ entries, ValidEntry options entry) :
    ∃ edits, resolveEntries options entries = .ok edits := by
  induction entries with
  | nil => exact ⟨[], rfl⟩
  | cons entry rest ih =>
    obtain ⟨edit, parsed⟩ := FieldEdit.exists_ofEntry_eq_ok (valid entry List.mem_cons_self)
    obtain ⟨edits, resolved⟩ := ih fun other member => valid other (List.mem_cons_of_mem entry member)
    exact ⟨edit :: edits, by simp only [resolveEntries, parsed, resolved]⟩

/-- The first bad entry is the one that is reported. -/
theorem resolveEntries_of_fault {front back : List (String × String)} {entry : String × String}
    (valid : ∀ other ∈ front, ValidEntry options other) (bad : ¬ValidEntry options entry) :
    resolveEntries options (front ++ entry :: back) = .error (entryFault entry) := by
  induction front with
  | nil => simp only [List.nil_append, resolveEntries, FieldEdit.ofEntry_eq_error bad]
  | cons other rest ih =>
    obtain ⟨edit, parsed⟩ := FieldEdit.exists_ofEntry_eq_ok (valid other List.mem_cons_self)
    have later := ih fun another member => valid another (List.mem_cons_of_mem other member)
    simp only [List.cons_append, resolveEntries, parsed, later]

theorem valid_or_exists_fault (options : NodeOptions) (entries : List (String × String)) :
    (∀ entry ∈ entries, ValidEntry options entry) ∨
      ∃ front entry back, entries = front ++ entry :: back ∧
        (∀ other ∈ front, ValidEntry options other) ∧ ¬ValidEntry options entry := by
  cases found : entries.find? (fun entry => !decide (ValidEntry options entry)) with
  | none => exact .inl (by simpa using found)
  | some entry =>
    obtain ⟨bad, front, back, split, valid⟩ := List.find?_eq_some_iff_append.1 found
    exact .inr ⟨front, entry, back, split, by simpa using valid, by simpa using bad⟩

end Patch

/-! ## Nodes -/

namespace Resources

/-- The number that an accepted text writes. -/
def sizeOf (text : String) : UInt32 :=
  (Decimal.readWord32? (Text.trimmed text)).getD 0

/-- Resources after new values are given to some of them. A node that had none has the least
ones of those that it is not given. -/
def updated (least : Resources) (ram cpu : Option UInt32) (before : Option Resources) :
    Option Resources :=
  match ram, cpu with
  | none, none => before
  | _, _ => some ⟨ram.getD (before.getD least).ram, cpu.getD (before.getD least).cpu⟩

theorem updated_updated (least : Resources) (ram cpu laterRam laterCpu : Option UInt32)
    (before : Option Resources) :
    updated least laterRam laterCpu (updated least ram cpu before) =
      updated least (laterRam.or ram) (laterCpu.or cpu) before := by
  cases laterRam <;> cases laterCpu <;> cases ram <;> cases cpu <;> rfl

end Resources

namespace Node

/-- A node with the values that are given to its fields, and all else as it was. -/
def patched (options : NodeOptions) (given : Field → Option String) (node : Node R) : Node R :=
  { node with
    label := (given .label).getD node.label
    version := (given .version).or node.version
    latency := (given .latency).or node.latency
    resources := Resources.updated ⟨FieldEdit.least options.ram, FieldEdit.least options.cpu⟩
      ((given .ram).map Resources.sizeOf) ((given .cpu).map Resources.sizeOf) node.resources
    overrides := ((given .overrides).map Overrides.unflatten).getD node.overrides }

/-- Of two values that are given to a field the later one counts. -/
theorem patched_patched (options : NodeOptions) (first last : Field → Option String)
    (node : Node R) :
    (node.patched options first).patched options last =
      node.patched options fun field => (last field).or (first field) := by
  simp only [patched, Resources.updated_updated, Option.map_or, Option.or_assoc, Option.getD_or]

end Node

namespace FieldEdit

variable {options : NodeOptions}

/-- A single edit gives one value. -/
theorem apply_eq_patched {field : Field} {value : String} {edit : FieldEdit}
    (valued : ofValue? options field value = some edit) (node : Node R) :
    apply options node edit =
      node.patched options fun other => if other = field then some value else none := by
  cases field with
  | label | overrides =>
    cases valued
    rfl
  | version | latency =>
    obtain ⟨_, rfl⟩ := by simpa [ofValue?] using valued
    rfl
  | ram | cpu =>
    rw [ofValue?] at valued
    obtain ⟨size, kept, rfl⟩ := Option.map_eq_some_iff.1 valued
    obtain ⟨read, _⟩ := Option.filter_eq_some_iff.1 kept
    have written : Resources.sizeOf value = size := by rw [Resources.sizeOf, read]; rfl
    simp [apply, Node.patched, Resources.updated, resourcesOf, written]

/-- Edits made one after the other give each field the last value of their patch. -/
theorem foldl_apply_eq_patched {entries : List (String × String)} {edits : List FieldEdit}
    (resolved : Patch.resolveEntries options entries = .ok edits) (node : Node R) :
    edits.foldl (apply options) node =
      node.patched options fun field => entries.reverse.lookup field.key := by
  induction entries generalizing edits node with
  | nil =>
    cases resolved
    rfl
  | cons entry rest ih =>
    obtain ⟨key, value⟩ := entry
    unfold Patch.resolveEntries at resolved
    split at resolved
    · cases resolved
    · next edit parsed =>
      split at resolved
      · cases resolved
      · next later resolvedRest =>
        cases resolved
        obtain ⟨named, rfl, valued⟩ := ofEntry_eq_ok parsed
        rw [List.foldl_cons, ih resolvedRest, apply_eq_patched valued, Node.patched_patched]
        congr 1
        funext field
        rw [List.reverse_cons, List.lookup_append]
        congr 1
        by_cases same : field = named
        · rw [if_pos same, same, List.lookup_cons_self]
        · have apart : (field.key == named.key) = false :=
            beq_eq_false_iff_ne.2 fun equal => same (Field.key_injective equal)
          rw [if_neg same, List.lookup_cons, apart]
          rfl

end FieldEdit

/-! ## Edits -/

namespace Store

/-- The store with other nodes. -/
def withNodes (store : Store R) (nodes : List (Node R)) : Store R :=
  { store with topology := { store.topology with nodes } }

theorem modifyNode_append {id : NodeId} {change : Node R → Node R} {front back : List (Node R)}
    {node : Node R} (others : ∀ other ∈ front, other.id ≠ id) (named : node.id = id) :
    modifyNode id change (front ++ node :: back) = front ++ change node :: back := by
  induction front with
  | nil => exact if_pos named
  | cons other rest ih =>
    rw [List.cons_append, modifyNode, if_neg (others other List.mem_cons_self),
      ih fun another member => others another (List.mem_cons_of_mem other member)]
    rfl

theorem exists_split_of_mem {store : Store R} {id : NodeId} (live : id ∈ store.ids) :
    ∃ front node back, store.topology.nodes = front ++ node :: back ∧ node.id = id ∧
      ∀ other ∈ front, other.id ≠ id := by
  cases found : store.node? id with
  | none =>
    obtain ⟨node, member, named⟩ := List.mem_map.1 live
    exact absurd named (by simpa using List.find?_eq_none.1 found node member)
  | some node =>
    obtain ⟨named, front, back, split, others⟩ := List.find?_eq_some_iff_append.1 found
    exact ⟨front, node, back, split, by simpa using named, by simpa using others⟩

variable {store : Store R} {id : NodeId} {patch : Patch}

/-- A valid patch replaces the first node of its id. -/
theorem edit_of_valid (valid : patch.Valid store.options) {front back : List (Node R)}
    {node : Node R} (split : store.topology.nodes = front ++ node :: back) (named : node.id = id)
    (others : ∀ other ∈ front, other.id ≠ id) :
    store.edit id patch =
      (.ok (), store.withNodes (front ++ node.patched store.options patch.value? :: back)) := by
  obtain ⟨edits, resolved⟩ := Patch.exists_resolveEntries_eq_ok valid
  have live : store.topology.hasNode id = true :=
    Topology.hasNode_eq_true_iff.2 (List.mem_map.2 ⟨node, by simp [split], named⟩)
  rw [edit, Patch.resolve, resolved]
  dsimp only
  rw [if_pos live, split, modifyNode_append others named, FieldEdit.foldl_apply_eq_patched resolved]
  rfl

theorem edit_of_missing (valid : patch.Valid store.options) (missing : id ∉ store.ids) :
    store.edit id patch = (.error (.unknownNode id), store) := by
  obtain ⟨edits, resolved⟩ := Patch.exists_resolveEntries_eq_ok valid
  rw [edit, Patch.resolve, resolved]
  exact if_neg fun live => missing (Topology.hasNode_eq_true_iff.1 live)

/-- A bad entry is reported whether or not there is a node of the id. -/
theorem edit_of_fault {front back : List (String × String)} {entry : String × String}
    (split : patch.entries = front ++ entry :: back)
    (valid : ∀ other ∈ front, Patch.ValidEntry store.options other)
    (bad : ¬Patch.ValidEntry store.options entry) :
    store.edit id patch = (.error (Patch.entryFault entry), store) := by
  rw [edit, Patch.resolve, split, Patch.resolveEntries_of_fault valid bad]

theorem valid_and_mem_of_edit {after : Store R}
    (accepted : store.edit id patch = (.ok (), after)) :
    patch.Valid store.options ∧ id ∈ store.ids := by
  rcases Patch.valid_or_exists_fault store.options patch.entries with valid | fault
  · refine ⟨valid, Decidable.byContradiction fun missing => ?_⟩
    rw [edit_of_missing valid missing] at accepted
    cases accepted
  · obtain ⟨front, entry, back, split, valid, bad⟩ := fault
    rw [edit_of_fault split valid bad] at accepted
    cases accepted

/-- An edit is accepted just when every entry of the patch names a field and gives it a value
that it takes, and the node exists. Otherwise the first bad entry is reported, a missing node
only if there is none, and the store stays as it was. An accepted edit changes nothing but the
node, and of the node nothing but its fields, each to the value that the patch gives it last:
patches that agree on these values make the same of the store. -/
theorem edit_outcome (store : Store R) (id : NodeId) (patch : Patch) :
    ((∃ after, store.edit id patch = (.ok (), after)) ↔
        patch.Valid store.options ∧ id ∈ store.ids) ∧
      (∀ rejection after, store.edit id patch = (.error rejection, after) ↔
        after = store ∧ ((∃ front entry back, patch.entries = front ++ entry :: back ∧
            (∀ other ∈ front, Patch.ValidEntry store.options other) ∧
            ¬Patch.ValidEntry store.options entry ∧ rejection = Patch.entryFault entry) ∨
          patch.Valid store.options ∧ id ∉ store.ids ∧ rejection = .unknownNode id)) ∧
      (∀ after, store.edit id patch = (.ok (), after) →
        ∃ front node back, store.topology.nodes = front ++ node :: back ∧ node.id = id ∧
          (∀ other ∈ front, other.id ≠ id) ∧
          after = store.withNodes (front ++ node.patched store.options patch.value? :: back)) ∧
      ∀ (other : Patch) (after final : Store R), store.edit id patch = (.ok (), after) →
        store.edit id other = (.ok (), final) →
        (∀ field, other.value? field = patch.value? field) → final = after := by
  refine ⟨⟨fun ⟨_, accepted⟩ => valid_and_mem_of_edit accepted, fun ⟨valid, live⟩ => ?_⟩,
    fun rejection after => ⟨fun refused => ?_, ?_⟩, fun after accepted => ?_,
    fun other after final accepted again agree => ?_⟩
  · obtain ⟨front, node, back, split, named, others⟩ := exists_split_of_mem live
    exact ⟨_, edit_of_valid valid split named others⟩
  · rcases Patch.valid_or_exists_fault store.options patch.entries with valid | fault
    · have missing : id ∉ store.ids := by
        intro live
        obtain ⟨front, node, back, split, named, others⟩ := exists_split_of_mem live
        rw [edit_of_valid valid split named others] at refused
        cases refused
      cases (edit_of_missing valid missing).symm.trans refused
      exact ⟨rfl, .inr ⟨valid, missing, rfl⟩⟩
    · obtain ⟨front, entry, back, split, valid, bad⟩ := fault
      cases (edit_of_fault split valid bad).symm.trans refused
      exact ⟨rfl, .inl ⟨front, entry, back, split, valid, bad, rfl⟩⟩
  · rintro ⟨rfl, ⟨front, entry, back, split, valid, bad, rfl⟩ | ⟨valid, missing, rfl⟩⟩
    · exact edit_of_fault split valid bad
    · exact edit_of_missing valid missing
  · obtain ⟨valid, live⟩ := valid_and_mem_of_edit accepted
    obtain ⟨front, node, back, split, named, others⟩ := exists_split_of_mem live
    have edited := (edit_of_valid valid split named others).symm.trans accepted
    exact ⟨front, node, back, split, named, others, (congrArg Prod.snd edited).symm⟩
  · obtain ⟨valid, live⟩ := valid_and_mem_of_edit accepted
    obtain ⟨validOther, _⟩ := valid_and_mem_of_edit again
    obtain ⟨front, node, back, split, named, others⟩ := exists_split_of_mem live
    rw [edit_of_valid valid split named others] at accepted
    rw [edit_of_valid validOther split named others, funext agree] at again
    exact congrArg Prod.snd (again.symm.trans accepted)

/-- A value that is given twice, and resources in either order. -/
theorem edit_outcome_reordered :
    let store : Store Float := (start none {} .standard).run [.add none]
    let first : Patch := ⟨[("resourceProfile.ram", " 8 "), ("label", "miner"),
      ("resourceProfile.cpu", "4"), ("resourceProfile.ram", "2")]⟩
    let second : Patch := ⟨[("label", "m"), ("resourceProfile.cpu", "4"), ("label", "miner"),
      ("resourceProfile.ram", "2")]⟩
    let faulty : Patch := ⟨[("label", "miner"), ("colour", "red"), ("version", "0.1")]⟩
    (∃ after, store.edit ⟨"0"⟩ first = (.ok (), after) ∧
        store.edit ⟨"0"⟩ second = (.ok (), after)) ∧
      store.edit ⟨"9"⟩ faulty = (.error (.unknownField "colour"), store) := by
  intro store first second faulty
  obtain ⟨accepts, _, _, same⟩ := edit_outcome store ⟨"0"⟩ first
  obtain ⟨acceptsSecond, _⟩ := edit_outcome store ⟨"0"⟩ second
  obtain ⟨after, accepted⟩ := accepts.2 ⟨by decide +kernel, by decide +kernel⟩
  obtain ⟨final, acceptedSecond⟩ := acceptsSecond.2 ⟨by decide +kernel, by decide +kernel⟩
  have agree : ∀ field, second.value? field = first.value? field := fun field => by
    cases field <;> decide
  have equal : final = after := same second after final accepted acceptedSecond agree
  refine ⟨⟨after, accepted, equal ▸ acceptedSecond⟩, ?_⟩
  obtain ⟨_, refuses, _⟩ := edit_outcome store ⟨"9"⟩ faulty
  exact (refuses _ _).2 ⟨rfl, .inl ⟨[("label", "miner")], ("colour", "red"), [("version", "0.1")],
    rfl, by decide +kernel, by decide +kernel, rfl⟩⟩

end Store

end PeerNet
