import PeerNet.Proofs.Session.Invariant
import PeerNet.Proofs.Store.Invariant

/-!
# The store of a session

A session changes its store by operations of the store alone, or starts with a new
one when it leaves the editor. So what every run of a store keeps holds of the
store of every session.
-/

set_option autoImplicit false

namespace PeerNet

variable {R : Type}

/-- The structural edit that an operation of a session asks its store for. -/
def SessionOperation.structuralEdit? : SessionOperation R → Option (StoreOperation R)
  | .add template => some (.add template)
  | .duplicate id => some (.duplicate id)
  | .delete id => some (.delete id)
  | .connect source target => some (.connect source target)
  | .disconnect source target => some (.disconnect source target)
  | _ => none

theorem SessionOperation.isStructural_of_structuralEdit? {operation : SessionOperation R}
    {edit : StoreOperation R} (asked : operation.structuralEdit? = some edit) :
    edit.isStructural = true ∧ edit.isSeed = false := by
  cases operation with
  | add | duplicate | delete | connect | disconnect => cases asked; exact ⟨rfl, rfl⟩
  | _ => cases asked

namespace Store

variable [Scalar R]

/-- True of two stores of which the later comes from the earlier by operations. -/
def Leads (before after : Store R) : Prop :=
  ∃ operations, after = before.run operations

theorem Leads.refl (store : Store R) : Leads store store :=
  ⟨[], rfl⟩

theorem leads_apply (store : Store R) (operation : StoreOperation R) :
    Leads store (store.apply operation) :=
  ⟨[operation], rfl⟩

theorem Leads.trans {before middle after : Store R} (first : Leads before middle)
    (last : Leads middle after) : Leads before after := by
  obtain ⟨earlier, rfl⟩ := first
  obtain ⟨later, rfl⟩ := last
  exact ⟨earlier ++ later, List.foldl_append.symm⟩

theorem Leads.sound {before after : Store R} (leads : Leads before after)
    (sound : before.Sound) : after.Sound := by
  obtain ⟨operations, rfl⟩ := leads
  exact sound.run operations

end Store

namespace Session

variable [Scalar R]

theorem store_startSimulation (session : Session R) :
    session.startSimulation.store = session.store := by
  unfold startSimulation
  split
  · rfl
  · rfl

theorem store_update (session : Session R) (store : Store R) :
    (session.update store).store = store := by
  unfold update
  dsimp only
  split
  · exact store_startSimulation _
  · rfl

/-! ## Operations on the store -/

theorem leads_applyLayout (session : Session R) (strategy : Strategy) :
    session.store.Leads (session.applyLayout strategy).2.store := by
  rcases session.applyLayout_cases strategy with refused | ⟨positions, _, placed⟩
  · rw [refused]
    exact .refl _
  · rw [placed]
    exact Store.leads_apply session.store (.place positions)

theorem leads_openTopology (session : Session R) (topology : Topology R) (laidOut : Bool) :
    session.store.Leads (session.openTopology topology laidOut).store := by
  have seeded : session.store.Leads (session.store.seed topology) :=
    Store.leads_apply session.store (.seed topology)
  rcases session.openTopology_cases topology laidOut with kept | started | arranged
  · rw [kept]
    exact seeded
  · rw [started, store_startSimulation]
    exact seeded
  · rw [arranged, store_startSimulation]
    exact seeded.trans (leads_applyLayout _ .ranked)

theorem leads_openFromStart (session : Session R) (topology : Topology R) (laidOut : Bool) :
    session.store.Leads (session.openFromStart topology laidOut).2.store := by
  rcases session.openFromStart_cases topology laidOut with refused | ⟨_, opened⟩
  · rw [refused]
    exact .refl _
  · rw [opened]
    exact leads_openTopology { session with step := .editGraph } topology laidOut

theorem leads_confirmPreset (session : Session R) :
    session.store.Leads session.confirmPreset.2.store := by
  rcases session.confirmPreset_cases with refused | ⟨topology, _, _, opened⟩
  · rw [refused]
    exact .refl _
  · rw [opened]
    exact leads_openTopology { session with preview := none, step := .editGraph } topology false

theorem leads_tick (session : Session R) : session.store.Leads session.tick.2.store := by
  rcases session.tick_cases with idle | ⟨simulation, _, _, ticked⟩
  · rw [idle]
    exact .refl _
  · rw [ticked]
    exact Store.leads_apply session.store (.applyFrame simulation.tick.2.frame)

/-! ## Operations that leave the store alone -/

omit [Scalar R] in
theorem store_browse (session : Session R) : session.browse.2.store = session.store := by
  unfold browse
  split
  · rfl
  · rfl

omit [Scalar R] in
theorem store_requestPreset (session : Session R) (name : String) :
    (session.requestPreset name).2.store = session.store := by
  unfold requestPreset
  split
  · rfl
  · rfl

omit [Scalar R] in
theorem store_completePreset (session : Session R) (ticket : GraphML.Ticket) (read : Partial R) :
    (session.completePreset ticket read).2.store = session.store := by
  rcases session.completePreset_cases ticket read with refused | ⟨_, _, _, taken⟩
  · rw [refused]
  · rw [taken]

variable [NumberText R]

theorem store_loadPreset (session : Session R) (name : String) :
    (session.loadPreset name).2.store = session.store := by
  rcases session.loadPreset_cases name with refused | ⟨ticket, read, completed⟩
  · rw [refused, store_requestPreset]
  · rw [completed, store_completePreset, store_requestPreset]

/-! ## Runs -/

theorem run_append (session : Session R) (first last : List (SessionOperation R)) :
    session.run (first ++ last) = (session.run first).run last :=
  List.foldl_append

/-- What an operation of a session makes of its store. -/
theorem leads_or_new_of_apply (session : Session R) (operation : SessionOperation R) :
    session.store.Leads (session.apply operation).store ∨
      (session.apply operation).store =
        .new session.settings.options session.settings.canvas := by
  cases operation with
  | startFromScratch => exact .inl (leads_openFromStart session _ false)
  | openCustom topology => exact .inl (leads_openFromStart session topology false)
  | openSaved topology => exact .inl (leads_openFromStart session topology true)
  | browse => exact .inl ⟨[], session.store_browse⟩
  | requestPreset name => exact .inl ⟨[], session.store_requestPreset name⟩
  | completePreset ticket read => exact .inl ⟨[], session.store_completePreset ticket read⟩
  | loadPreset name => exact .inl ⟨[], session.store_loadPreset name⟩
  | confirmPreset => exact .inl session.leads_confirmPreset
  | back =>
    change session.store.Leads session.back.store ∨ session.back.store = _
    unfold back
    split
    · exact .inl (.refl _)
    · exact .inl (.refl _)
    · exact .inl (.refl _)
    · exact .inr rfl
  | teardown => exact .inl (.refl _)
  | applyLayout strategy => exact .inl (session.leads_applyLayout strategy)
  | tick => exact .inl session.leads_tick
  | dragStart id => exact .inl (.refl _)
  | dragTo id position => exact .inl (Store.leads_apply session.store (.move id position))
  | dragEnd id => exact .inl (.refl _)
  | add template => exact .inl ⟨[.add template], session.store_update _⟩
  | edit id patch => exact .inl (Store.leads_apply session.store (.edit id patch))
  | duplicate id => exact .inl ⟨[.duplicate id], session.store_update _⟩
  | delete id => exact .inl ⟨[.delete id], session.store_update _⟩
  | connect source target => exact .inl ⟨[.connect source target], session.store_update _⟩
  | disconnect source target => exact .inl ⟨[.disconnect source target], session.store_update _⟩

theorem storeSound_apply {session : Session R} (sound : session.store.Sound)
    (operation : SessionOperation R) : (session.apply operation).store.Sound := by
  rcases session.leads_or_new_of_apply operation with leads | fresh
  · exact leads.sound sound
  · rw [fresh]
    exact Store.sound_new _ _

/-- The store of a session is sound after every run. -/
theorem storeSound_run {session : Session R} (sound : session.store.Sound)
    (operations : List (SessionOperation R)) : (session.run operations).store.Sound := by
  induction operations generalizing session with
  | nil => exact sound
  | cons operation rest ih => exact ih (storeSound_apply sound operation)

theorem storeSound_reached (settings : Settings R) (files : FileTree) (root : FilePath)
    (operations : List (SessionOperation R)) :
    ((new settings files root).run operations).store.Sound :=
  storeSound_run (Store.sound_new settings.options settings.canvas) operations

/-! ## Structural edits -/

theorem apply_of_structuralEdit? (session : Session R) {operation : SessionOperation R}
    {edit : StoreOperation R} (asked : operation.structuralEdit? = some edit) :
    session.apply operation = session.update (session.store.apply edit) := by
  cases operation with
  | add | duplicate | delete | connect | disconnect => cases asked; rfl
  | _ => cases asked

/-- True of an operation that is an accepted structural edit. -/
def restructures (session : Session R) (operation : SessionOperation R) : Bool :=
  operation.structuralEdit?.any session.store.changesSets

theorem exists_of_restructures {session : Session R} {operation : SessionOperation R}
    (restructures : session.restructures operation = true) :
    ∃ store, Store.Restructured session.store store ∧
      session.apply operation = session.update store := by
  cases asked : operation.structuralEdit? with
  | none =>
    rw [Session.restructures, asked] at restructures
    cases restructures
  | some edit =>
    rw [Session.restructures, asked, Option.any_some] at restructures
    obtain ⟨structural, accepted⟩ := Store.attempt_of_changesSets restructures
    obtain ⟨_, edits⟩ := operation.isStructural_of_structuralEdit? asked
    exact ⟨_, Store.restructured_attempt structural edits accepted,
      session.apply_of_structuralEdit? asked⟩

/-- The number of accepted structural edits of a run. -/
def restructurings (session : Session R) (operations : List (SessionOperation R)) : Nat :=
  tally apply restructures session operations

/-- Two nodes beside each other, without a link. -/
def pair : Topology Float where
  id := 0
  name := "pair"
  origin := .custom
  nodes := [.plain ⟨"a"⟩ "a", { Node.plain ⟨"b"⟩ "b" with position := ⟨100.0, 0.0⟩ }]

end Session

end PeerNet
