import PeerNet.Proofs.GraphML.RoundTrip

/-!
# Nodes read back, attribute by attribute

A written node is read back with the texts of its data, whose line breaks are
unified on the way. Attributes that written documents do not declare are not
read back at all.
-/

set_option autoImplicit false

namespace PeerNet.GraphML

variable {R : Type}

/-- A text as a reader of written data has it. -/
def unified (text : String) : String :=
  String.ofList (Markup.unifyBreaks text.toList)

@[simp] theorem toList_unified (text : String) :
    (unified text).toList = Markup.unifyBreaks text.toList :=
  String.toList_ofList

def attributesOf (keys : List Key) : List NodeAttribute :=
  keys.filterMap fun key => NodeAttribute.ofName? key.name

theorem attributesOf_exportedKeys : attributesOf exportedKeys =
    [.label, .size, .version, .latency, .bitcoinConf, .x, .y] := by
  decide

variable [NumberText R]

theorem foldl_takeData (node : Node R) (keys : List Key) (draft : Draft R) :
    keys.foldl (takeData node) draft =
      (attributesOf keys).foldl (fun draft meaning =>
        draft.assign (unified (dataText node meaning)) meaning) draft := by
  induction keys generalizing draft with
  | nil => rfl
  | cons key keys ih =>
    cases named : NodeAttribute.ofName? key.name with
    | none =>
      have listed : attributesOf (key :: keys) = attributesOf keys := by
        simp [attributesOf, named]
      rw [listed, List.foldl_cons, takeData, named, ih]
    | some meaning =>
      have listed : attributesOf (key :: keys) = meaning :: attributesOf keys := by
        simp [attributesOf, named]
      rw [listed, List.foldl_cons, List.foldl_cons, takeData, named, ih]
      rfl

/-- The number that the written text of a number gives, if it gives one. -/
def renumbered (usual x : R) : R :=
  (Draft.number? (unified (NumberText.write x))).getD usual

variable [Scalar R]

theorem reread_eq (node : Node R) :
    reread node =
      { id := node.id
        label :=
          if (unified node.label).isEmpty then node.id.text else unified node.label
        size := renumbered Node.defaultSize node.size
        version := Draft.nonBlank? (unified (node.version.getD ""))
        latency := Draft.nonBlank? (unified (node.latency.getD ""))
        overrides := .unflatten (unified node.overrides.flatten)
        position := ⟨renumbered 0.0 node.position.x, renumbered 0.0 node.position.y⟩ } := by
  rw [reread, foldl_takeData]
  simp only [attributesOf_exportedKeys, List.foldl_cons, List.foldl_nil, Draft.assign, dataText,
    Draft.finish, Node.plain, renumbered, Option.isSome_none, Bool.or_self, Bool.false_eq_true,
    ↓reduceIte]

end PeerNet.GraphML
