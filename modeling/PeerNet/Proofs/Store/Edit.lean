import PeerNet.Proofs.Store.Change

/-!
# Edited nodes

An accepted edit replaces one live node. Where a patch gives several values to
one field, the node has the last of them; fields that a patch leaves out stay
as they are.
-/

set_option autoImplicit false

namespace PeerNet

variable {R α : Type}

/-- The value that a patch gives to a field, the last one if there are several. -/
def Patch.value? (patch : Patch) (field : Field) : Option String :=
  patch.entries.reverse.lookup field.key

theorem Field.mem_all (field : Field) : field ∈ Field.all := by
  cases field <;> decide

theorem Field.key_injective {first second : Field} (same : first.key = second.key) :
    first = second := by
  revert first second
  have apart : ∀ first ∈ Field.all, ∀ second ∈ Field.all,
      first.key = second.key → first = second := by decide
  exact fun {first second} => apart first first.mem_all second second.mem_all

namespace FieldEdit

variable {options : NodeOptions}

theorem ofEntry_eq_ok {key value : String} {edit : FieldEdit}
    (parsed : ofEntry options key value = .ok edit) :
    ∃ field : Field, key = field.key ∧ ofValue? options field value = some edit := by
  unfold ofEntry at parsed
  split at parsed
  · cases parsed
  · next field known =>
    split at parsed
    · cases parsed
    · next found =>
      cases parsed
      unfold Field.ofKey? at known
      have same : field.key = key := by simpa using List.find?_some known
      exact ⟨field, same.symm, found⟩

def field : FieldEdit → Field
  | .label _ => .label
  | .version _ => .version
  | .latency _ => .latency
  | .ram _ => .ram
  | .cpu _ => .cpu
  | .overrides _ => .overrides

theorem field_of_ofValue? {field : Field} {value : String} {edit : FieldEdit}
    (valued : ofValue? options field value = some edit) : edit.field = field := by
  cases field with
  | label =>
    cases valued
    rfl
  | version =>
    obtain ⟨_, rfl⟩ : value ∈ options.versions ∧ version value = edit := by
      simpa [ofValue?] using valued
    rfl
  | latency =>
    obtain ⟨_, rfl⟩ : value ∈ options.latencies ∧ latency value = edit := by
      simpa [ofValue?] using valued
    rfl
  | ram =>
    obtain ⟨size, _, rfl⟩ := Option.map_eq_some_iff.1 valued
    rfl
  | cpu =>
    obtain ⟨count, _, rfl⟩ := Option.map_eq_some_iff.1 valued
    rfl
  | overrides =>
    cases valued
    rfl

/-- A part of a node that one field sets and that no other field touches. -/
structure SetBy (options : NodeOptions) (field : Field) (view : Node R → α)
    (given : String → α) : Prop where
  sets : ∀ value edit node, ofValue? options field value = some edit →
    view (apply options node edit) = given value
  keeps : ∀ edit node, edit.field ≠ field → view (apply options node edit) = view node

/-- After an accepted patch a part of a node is what was given last for it. -/
theorem SetBy.view_foldl_apply {field : Field} {view : Node R → α} {given : String → α}
    (part : SetBy options field view given) {entries : List (String × String)}
    {edits : List FieldEdit} (resolved : Patch.resolveEntries options entries = .ok edits)
    (node : Node R) :
    view (edits.foldl (apply options) node) =
      ((entries.reverse.lookup field.key).map given).getD (view node) := by
  induction entries generalizing edits node with
  | nil =>
    cases resolved
    rfl
  | cons entry rest ih =>
    obtain ⟨key, value⟩ := entry
    unfold Patch.resolveEntries at resolved
    split at resolved
    · cases resolved
    · next edit parsed =>
      split at resolved
      · cases resolved
      · next later resolvedRest =>
        cases resolved
        obtain ⟨named, rfl, valued⟩ := ofEntry_eq_ok parsed
        rw [List.foldl_cons, ih resolvedRest, List.reverse_cons, List.lookup_append]
        cases rest.reverse.lookup field.key with
        | some last => rfl
        | none =>
          by_cases same : named = field
          · subst same
            simp [part.sets value edit node valued]
          · have other : (field.key == named.key) = false := by
              rw [beq_eq_false_iff_ne]
              exact fun equal => same (Field.key_injective equal).symm
            have apart : edit.field ≠ field := by
              rw [field_of_ofValue? valued]
              exact same
            simp [List.lookup_cons, other, part.keeps edit node apart]

theorem setBy_label : SetBy (R := R) options .label Node.label id := by
  constructor
  · intro value edit node valued
    cases valued
    rfl
  · intro edit node apart
    cases edit with
    | label text => exact absurd rfl apart
    | _ => rfl

theorem setBy_version : SetBy (R := R) options .version Node.version some := by
  constructor
  · intro value edit node valued
    obtain ⟨_, rfl⟩ : value ∈ options.versions ∧ version value = edit := by
      simpa [ofValue?] using valued
    rfl
  · intro edit node apart
    cases edit with
    | version text => exact absurd rfl apart
    | _ => rfl

theorem setBy_latency : SetBy (R := R) options .latency Node.latency some := by
  constructor
  · intro value edit node valued
    obtain ⟨_, rfl⟩ : value ∈ options.latencies ∧ latency value = edit := by
      simpa [ofValue?] using valued
    rfl
  · intro edit node apart
    cases edit with
    | latency text => exact absurd rfl apart
    | _ => rfl

theorem setBy_overrides :
    SetBy (R := R) options .overrides Node.overrides Overrides.unflatten := by
  constructor
  · intro value edit node valued
    cases valued
    rfl
  · intro edit node apart
    cases edit with
    | overrides settings => exact absurd rfl apart
    | _ => rfl

end FieldEdit

namespace Store

theorem find?_modifyNode {id : NodeId} {change : Node R → Node R}
    (keeps : ∀ node, (change node).id = node.id) (nodes : List (Node R)) :
    (modifyNode id change nodes).find? (·.id = id) = (nodes.find? (·.id = id)).map change := by
  induction nodes with
  | nil => rfl
  | cons node rest ih =>
    by_cases same : node.id = id
    · simp [modifyNode, same, keeps]
    · simp [modifyNode, same, ih]

theorem node?_edit {store after : Store R} {id : NodeId} {patch : Patch}
    (accepted : store.edit id patch = (.ok (), after)) :
    ∃ edits node, patch.resolve store.options = .ok edits ∧ store.node? id = some node ∧
      after.node? id = some (edits.foldl (FieldEdit.apply store.options) node) := by
  rcases store.edit_cases id patch with ⟨_, refused⟩ | ⟨edits, resolved, live, edited⟩
  · cases refused.symm.trans accepted
  · cases edited.symm.trans accepted
    have found : (store.node? id).isSome := by
      simpa [node?, Topology.node?, ids] using live
    obtain ⟨node, known⟩ := Option.isSome_iff_exists.1 found
    refine ⟨edits, node, resolved, known, ?_⟩
    unfold node? Topology.node? at known ⊢
    rw [find?_modifyNode (FieldEdit.id_foldl_apply store.options edits), known]
    rfl

/-- An accepted edit gives the node of the id what the patch has last for a field. -/
theorem view_edit {store after : Store R} {id : NodeId} {patch : Patch}
    (accepted : store.edit id patch = (.ok (), after)) {node : Node R}
    (edited : after.node? id = some node) {field : Field} {view : Node R → α}
    {given : String → α} (part : FieldEdit.SetBy store.options field view given) {text : String}
    (valued : patch.value? field = some text) : view node = given text := by
  obtain ⟨edits, before, resolved, _, stored⟩ := node?_edit accepted
  rw [edited, Option.some.injEq] at stored
  rw [stored, part.view_foldl_apply resolved before, ← Patch.value?, valued]
  rfl

end Store

end PeerNet
