import PeerNet.Proofs.Outcome
import PeerNet.Proofs.Store.Change
import PeerNet.Proofs.Tally

/-!
# Revisions

The revision of a store counts the accepted changes of its node and link sets.
Whatever is refused changes nothing at all, and whatever leaves these sets alone
leaves the revision alone. So, unless as many changes lie between them as the
counter can count, two moments of one run with one revision have the same sets.
-/

set_option autoImplicit false

namespace PeerNet

variable {R : Type}

/-- True of the operations that change the node or link set when accepted. -/
def StoreOperation.isStructural : StoreOperation R → Bool
  | .seed _ => true
  | .add _ => true
  | .duplicate _ => true
  | .delete _ => true
  | .connect _ _ => true
  | .disconnect _ _ => true
  | _ => false

namespace Store

/-- Two stores with one revision, the same nodes by id, and the same links. -/
structure SameSets (before after : Store R) : Prop where
  revision : after.revision = before.revision
  ids : after.ids = before.ids
  edges : after.topology.edges = before.topology.edges

theorem SameSets.refl (store : Store R) : SameSets store store :=
  ⟨rfl, rfl, rfl⟩

theorem SameSets.trans {before middle after : Store R} (first : SameSets before middle)
    (last : SameSets middle after) : SameSets before after :=
  ⟨last.revision.trans first.revision, last.ids.trans first.ids, last.edges.trans first.edges⟩

theorem SameShape.sameSets {before after : Store R} (same : SameShape before after) :
    SameSets before after :=
  ⟨same.revision, same.ids, same.edges⟩

/-! ## Refused operations -/

theorem move_of_refused {store : Store R} {id : NodeId} {position : Point R}
    (refused : (store.move id position).1 = false) : (store.move id position).2 = store := by
  unfold move at refused ⊢
  split
  · next live =>
    rw [if_pos live] at refused
    cases refused
  · rfl

theorem select_of_refused {store : Store R} {id : NodeId}
    (refused : (store.select id).1 = false) : (store.select id).2 = store := by
  unfold select at refused ⊢
  split
  · next live =>
    rw [if_pos live] at refused
    cases refused
  · rfl

theorem placeAt_of_refused {store : Store R} {revision : UInt64} {positions : Placement R}
    (refused : (store.placeAt revision positions).1 = false) :
    (store.placeAt revision positions).2 = store := by
  unfold placeAt at refused ⊢
  split
  · next current =>
    rw [if_pos current] at refused
    cases refused
  · rfl

/-! ## Accepted operations -/

/-- What an accepted change of the node or link set makes of a store, if it does
not replace the topology. -/
inductive Restructured (store : Store R) : Store R → Prop where
  | inserted (make : NodeId → Node R) : Restructured store (store.insertNode make)
  | retired (id : NodeId) : Restructured store (store.retireNode id)
  | relinked (edges : List Edge) : Restructured store (store.relink edges)

theorem Restructured.revision {store after : Store R} (changed : Restructured store after) :
    after.revision = store.revision + 1 := by
  cases changed with
  | inserted make => rfl
  | retired id => rfl
  | relinked edges => rfl

theorem Restructured.origin {store after : Store R} (changed : Restructured store after) :
    after.topology.origin = store.topology.origin := by
  cases changed with
  | inserted make => rfl
  | retired id => rfl
  | relinked edges => rfl

variable [Scalar R]

theorem restructured_attempt {store after : Store R} {operation : StoreOperation R}
    (structural : operation.isStructural = true) (edits : operation.isSeed = false)
    (accepted : store.attempt operation = (.ok (), after)) : Restructured store after := by
  cases operation with
  | seed topology => cases edits
  | add template =>
    cases accepted
    cases template with
    | none => exact .inserted _
    | some node => exact .inserted _
  | duplicate id =>
    obtain ⟨copy, copied⟩ := exists_duplicate_eq accepted
    obtain ⟨_, node, _, rfl⟩ := duplicate_eq_ok copied
    exact .inserted _
  | delete id =>
    obtain ⟨_, rfl⟩ := delete_eq_ok accepted
    exact .retired id
  | connect source target =>
    obtain rfl := connect_eq_ok accepted
    exact .relinked _
  | disconnect source target =>
    obtain rfl := disconnect_eq_ok accepted
    exact .relinked _
  | edit | move | select | place | placeAt | applyFrame => cases structural

/-- Every accepted change of the node or link set counts once. -/
theorem revision_attempt {store after : Store R} {operation : StoreOperation R}
    (structural : operation.isStructural = true)
    (accepted : store.attempt operation = (.ok (), after)) :
    after.revision = store.revision + 1 := by
  cases kind : operation.isSeed with
  | true =>
    obtain ⟨topology, rfl, _⟩ := store.apply_of_isSeed kind
    cases accepted
    rfl
  | false => exact (restructured_attempt structural kind accepted).revision

theorem sameSets_of_plain (store : Store R) {operation : StoreOperation R}
    (plain : operation.isStructural = false) : SameSets store (store.apply operation) := by
  cases operation with
  | edit id patch => exact (store.sameShape_edit id patch).sameSets
  | move id position => exact (store.sameShape_move id position).sameSets
  | select id =>
    change SameSets store (store.select id).2
    unfold select
    split
    · exact ⟨rfl, rfl, rfl⟩
    · exact .refl store
  | place positions => exact (store.sameShape_place positions).sameSets
  | placeAt revision positions => exact (store.sameShape_placeAt revision positions).sameSets
  | applyFrame frame => exact (store.sameShape_placeAt frame.revision frame.positions).sameSets
  | seed | add | duplicate | delete | connect | disconnect => cases plain

theorem origin_apply (store : Store R) {operation : StoreOperation R}
    (edits : operation.isSeed = false) :
    (store.apply operation).topology.origin = store.topology.origin := by
  cases operation with
  | add | duplicate | delete | connect | disconnect =>
    rcases store.apply_cases _ with same | accepted
    · rw [same]
    · exact (restructured_attempt rfl edits accepted).origin
  | edit id patch => exact store.origin_edit id patch
  | move id position => exact store.origin_move id position
  | select id =>
    change (store.select id).2.topology.origin = _
    unfold select
    split
    · rfl
    · rfl
  | place positions => exact store.origin_place positions
  | placeAt revision positions => exact store.origin_placeAt revision positions
  | applyFrame frame => exact store.origin_placeAt frame.revision frame.positions
  | seed => cases edits

/-! ## Runs -/

/-- True of an operation that is accepted and changes the node or link set. -/
def changesSets (store : Store R) (operation : StoreOperation R) : Bool :=
  operation.isStructural && (store.attempt operation).1.toOption.isSome

/-- The number of operations of a run that change the node or link set. -/
def setChanges (store : Store R) : List (StoreOperation R) → Nat
  | [] => 0
  | operation :: rest =>
    (store.changesSets operation).toNat + (store.apply operation).setChanges rest

theorem attempt_of_changesSets {store : Store R} {operation : StoreOperation R}
    (changes : store.changesSets operation = true) :
    operation.isStructural = true ∧
      store.attempt operation = (.ok (), store.apply operation) := by
  obtain ⟨structural, success⟩ := Bool.and_eq_true_iff.1 changes
  obtain ⟨_, accepted⟩ := exists_eq_ok success
  exact ⟨structural, Prod.ext accepted rfl⟩

theorem apply_of_keepsSets {store : Store R} {operation : StoreOperation R}
    (structural : operation.isStructural = true)
    (keeps : store.changesSets operation = false) : store.apply operation = store := by
  refine (store.apply_cases operation).resolve_right fun accepted => ?_
  rw [changesSets, structural, accepted] at keeps
  cases keeps

theorem sameSets_apply {store : Store R} {operation : StoreOperation R}
    (keeps : store.changesSets operation = false) : SameSets store (store.apply operation) := by
  cases structural : operation.isStructural with
  | true =>
    rw [apply_of_keepsSets structural keeps]
    exact .refl store
  | false => exact store.sameSets_of_plain structural

theorem setChanges_eq_tally (store : Store R) (operations : List (StoreOperation R)) :
    store.setChanges operations = tally apply changesSets store operations := by
  induction operations generalizing store with
  | nil => rfl
  | cons operation rest ih => rw [setChanges, tally, ih]

theorem revision_apply (store : Store R) (operation : StoreOperation R) :
    (store.apply operation).revision =
      store.revision + UInt64.ofNat (store.changesSets operation).toNat := by
  cases changes : store.changesSets operation with
  | true =>
    obtain ⟨structural, accepted⟩ := attempt_of_changesSets changes
    exact revision_attempt structural accepted
  | false => exact (sameSets_apply changes).revision.trans (UInt64.add_zero _).symm

theorem revision_run (store : Store R) (operations : List (StoreOperation R)) :
    (store.run operations).revision =
      store.revision + UInt64.ofNat (store.setChanges operations) := by
  rw [setChanges_eq_tally]
  exact counter_foldl Store.revision revision_apply store operations

theorem sameSets_run {store : Store R} {operations : List (StoreOperation R)}
    (none : store.setChanges operations = 0) : SameSets store (store.run operations) := by
  induction operations generalizing store with
  | nil => exact .refl store
  | cons operation rest ih =>
    obtain ⟨now, later⟩ := Nat.add_eq_zero_iff.1 none
    exact (sameSets_apply (Bool.toNat_eq_zero.1 now)).trans (ih later)

/-- Fewer changes than the counter can count are told by it. -/
theorem revision_run_eq_iff {store : Store R} {operations : List (StoreOperation R)}
    (few : store.setChanges operations < UInt64.size) :
    (store.run operations).revision = store.revision ↔ store.setChanges operations = 0 := by
  rw [revision_run, add_ofNat_eq_self_iff few]

/-- What is refused changes nothing, what changes the node or link set advances
the revision by one, and nothing else moves it. So the revision tells the sets
of two moments of one run apart, as long as it does not come round between them. -/
theorem revision_tells_sets (store : Store R) :
    (∀ operation rejection after, store.attempt operation = (.error rejection, after) →
        after = store ∧ store.apply operation = store) ∧
      (∀ id rejection after, store.duplicate id = (.error rejection, after) → after = store) ∧
      (∀ id position, (store.move id position).1 = false → (store.move id position).2 = store) ∧
      (∀ id, (store.select id).1 = false → (store.select id).2 = store) ∧
      (∀ revision positions, (store.placeAt revision positions).1 = false →
        (store.placeAt revision positions).2 = store) ∧
      (∀ frame, (store.applyFrame frame).1 = false → (store.applyFrame frame).2 = store) ∧
      (∀ operation after, operation.isStructural = true →
        store.attempt operation = (.ok (), after) → after.revision = store.revision + 1) ∧
      (∀ topology, store.attempt (.seed topology) = (.ok (), store.seed topology) ∧
        (store.seed topology).revision = store.revision + 1) ∧
      (∀ operation, operation.isStructural = false → SameSets store (store.apply operation)) ∧
      (∀ earlier later, (store.run earlier).setChanges later < UInt64.size →
        (store.run (earlier ++ later)).revision = (store.run earlier).revision →
        (store.run (earlier ++ later)).ids = (store.run earlier).ids ∧
          (store.run (earlier ++ later)).topology.edges = (store.run earlier).topology.edges) := by
  refine ⟨fun operation rejection after refused => ?_, fun id rejection after refused => ?_,
    fun _ _ => move_of_refused, fun _ => select_of_refused, fun _ _ => placeAt_of_refused,
    fun _ => placeAt_of_refused, fun _ _ => revision_attempt, fun _ => ⟨rfl, rfl⟩,
    fun _ => store.sameSets_of_plain, fun earlier later few same => ?_⟩
  · have left : store.apply operation = after := congrArg Prod.snd refused
    have same := attempt_of_refused refused
    exact ⟨same, left.trans same⟩
  · have answered : store.attempt (.duplicate id) = (.error rejection, after) := by
      rw [attempt, refused]
      rfl
    exact attempt_of_refused answered
  · have continued : store.run (earlier ++ later) = (store.run earlier).run later :=
      List.foldl_append
    rw [continued] at same ⊢
    have sets := sameSets_run ((revision_run_eq_iff few).1 same)
    exact ⟨sets.ids, sets.edges⟩

/-- Three nodes in a row. -/
def row : Topology Float where
  id := 0
  name := "row"
  origin := .custom
  nodes := [.plain ⟨"a"⟩ "a", .plain ⟨"b"⟩ "b", .plain ⟨"c"⟩ "c"]
  edges := [⟨⟨"a"⟩, ⟨"b"⟩⟩, ⟨⟨"b"⟩, ⟨"c"⟩⟩]

theorem revision_tells_sets_row :
    let store := start (some row) {} .standard
    (store.attempt (.connect ⟨"a"⟩ ⟨"a"⟩)).2 = store ∧ (store.duplicate ⟨"x"⟩).2 = store ∧
      store.apply (.edit ⟨"a"⟩ ⟨[("label", "A"), ("size", "9")]⟩) = store ∧
      (store.move ⟨"x"⟩ ⟨1.0, 1.0⟩).2 = store ∧ (store.select ⟨"x"⟩).2 = store ∧
      (store.placeAt 0 [(⟨"a"⟩, ⟨1.0, 1.0⟩)]).2 = store ∧
      (store.applyFrame ⟨2, 1.0, [(⟨"a"⟩, ⟨1.0, 1.0⟩)]⟩).2 = store ∧
      (∃ after, store.attempt (.delete ⟨"b"⟩) = (.ok (), after) ∧ after.revision = 2) ∧
      SameSets store (store.apply (.edit ⟨"a"⟩ ⟨[("label", "A")]⟩)) ∧
      (store.run [.delete ⟨"b"⟩, .connect ⟨"a"⟩ ⟨"b"⟩, .edit ⟨"a"⟩ ⟨[("label", "A")]⟩]).ids =
        [⟨"a"⟩, ⟨"c"⟩] := by
  intro store
  obtain ⟨refused, uncopied, unmoved, unselected, unplaced, unframed, counted, _, kept, told⟩ :=
    revision_tells_sets store
  have first : (store.run [.delete ⟨"b"⟩]).ids = [⟨"a"⟩, ⟨"c"⟩] := by decide +kernel
  have later := told [.delete ⟨"b"⟩] [.connect ⟨"a"⟩ ⟨"b"⟩, .edit ⟨"a"⟩ ⟨[("label", "A")]⟩]
    (by decide +kernel) (by decide +kernel)
  have looped : store.attempt (.connect ⟨"a"⟩ ⟨"a"⟩) = (.error (.selfLoop ⟨"a"⟩), store) := rfl
  have missing : store.duplicate ⟨"x"⟩ = (.error (.unknownNode ⟨"x"⟩), store) := rfl
  have unnamed : store.attempt (.edit ⟨"a"⟩ ⟨[("label", "A"), ("size", "9")]⟩) =
      (.error (.unknownField "size"), store) := rfl
  have deleted : store.attempt (.delete ⟨"b"⟩) = (.ok (), store.retireNode ⟨"b"⟩) := rfl
  refine ⟨(refused _ _ _ looped).1, uncopied _ _ _ missing, (refused _ _ _ unnamed).2,
    unmoved _ _ (by decide +kernel), unselected _ (by decide +kernel),
    unplaced _ _ (by decide +kernel), unframed _ (by decide +kernel), ⟨_, deleted, ?_⟩,
    kept _ rfl, later.1.trans first⟩
  rw [counted _ _ rfl deleted]
  decide +kernel

end Store

end PeerNet
