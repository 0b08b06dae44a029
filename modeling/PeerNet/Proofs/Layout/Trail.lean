import PeerNet.Proofs.Layout.Acyclic

/-!
# The walk as a loop

A depth-first walk in single turns, over an explicit stack: the nodes on its path, each
with the targets that it has yet to look at. Every turn takes one unit of work off what is
left to do, so the loop ends after as many turns as there are nodes to start from, nodes
to leave and arcs to look at. It comes to what the recursive walk comes to, whose depth
therefore never runs out. What the walk notes is turned round, and no cycle is left.
-/

set_option autoImplicit false

namespace PeerNet.Layout

/-! ## Marks -/

namespace Walk

variable {walk : Walk} {node : Nat}

theorem lt_of_fresh (fresh : walk.mark node = .fresh) : node < walk.marks.length := by
  by_contra beyond
  simp [mark, Nat.le_of_not_lt beyond] at fresh

theorem length_marks_setMark (walk : Walk) (node : Nat) (mark : Mark) :
    (walk.setMark node mark).marks.length = walk.marks.length :=
  List.length_set ..

theorem setMark_of_beyond (beyond : ¬node < walk.marks.length) (mark : Mark) :
    walk.setMark node mark = walk := by
  rw [setMark, List.set_eq_of_length_le (Nat.le_of_not_lt beyond)]

theorem mark_setMark (known : node < walk.marks.length) (mark : Mark) (other : Nat) :
    (walk.setMark node mark).mark other = if node = other then mark else walk.mark other := by
  rw [Walk.mark, List.getD_eq_getElem?_getD, getElem?_marks_setMark known]
  split
  · rfl
  · rw [← List.getD_eq_getElem?_getD, Walk.mark]

theorem mark_setMark_ne_fresh {mark : Mark} (entered : mark ≠ .fresh) {other : Nat}
    (old : walk.mark other ≠ .fresh) : (walk.setMark node mark).mark other ≠ .fresh := by
  by_cases known : node < walk.marks.length
  · rw [mark_setMark known]
    split
    · exact entered
    · exact old
  · rwa [setMark_of_beyond known]

theorem mark_enter (fresh : walk.mark node = .fresh) :
    (walk.setMark node .active).mark node = .active := by
  rw [mark_setMark (lt_of_fresh fresh), if_pos rfl]

end Walk

/-! ## Turns -/

/-- Where a walk stands: the roots that it may still start from, the nodes on its path, the
innermost first, each with the targets that it has yet to look at, and its marks and notes. -/
structure Stand where
  roots : List Nat
  trail : List (Nat × List Nat)
  walk : Walk

namespace Stand

/-- One turn of the loop; none at its end. -/
def next? (arcs : List Arc) (stand : Stand) : Option Stand :=
  match stand.trail with
  | [] =>
    match stand.roots with
    | [] => none
    | root :: roots =>
      if stand.walk.mark root = .fresh then
        some ⟨roots, [(root, successors arcs root)], stand.walk.setMark root .active⟩
      else some { stand with roots }
  | (node, []) :: trail => some { stand with trail, walk := stand.walk.setMark node .done }
  | (node, target :: targets) :: trail =>
    match stand.walk.mark target with
    | .fresh =>
      some { stand with
        trail := (target, successors arcs target) :: (node, targets) :: trail
        walk := stand.walk.setMark target .active }
    | .active =>
      some { stand with
        trail := (node, targets) :: trail
        walk := { stand.walk with back := (node, target) :: stand.walk.back } }
    | .done => some { stand with trail := (node, targets) :: trail }

/-- A number of turns leads from one place of the loop to another. -/
inductive Turns (arcs : List Arc) : Nat → Stand → Stand → Prop where
  | refl {stand : Stand} : Turns arcs 0 stand stand
  | step {count : Nat} {first next last : Stand} :
      first.next? arcs = some next → Turns arcs count next last → Turns arcs (count + 1) first last

theorem Turns.trans {arcs : List Arc} {few more : Nat} {first middle last : Stand}
    (start : Turns arcs few first middle) (rest : Turns arcs more middle last) :
    Turns arcs (few + more) first last := by
  induction start with
  | refl =>
    rw [Nat.zero_add]
    exact rest
  | step turn _ ih =>
    rw [Nat.add_right_comm]
    exact .step turn (ih rest)

/-! ## Work -/

/-- What fresh nodes among some will take: a turn to leave each one, and one for each arc
from it. -/
def freshWork (arcs : List Arc) (walk : Walk) : List Nat → Nat
  | [] => 0
  | node :: rest =>
    (if walk.mark node = .fresh then (successors arcs node).length + 1 else 0) +
      freshWork arcs walk rest

def trailWork : List (Nat × List Nat) → Nat
  | [] => 0
  | (_, targets) :: trail => targets.length + 1 + trailWork trail

/-- The number of turns that are left. -/
def work (arcs : List Arc) (stand : Stand) : Nat :=
  stand.roots.length + trailWork stand.trail +
    freshWork arcs stand.walk (List.range stand.walk.marks.length)

theorem freshWork_congr (arcs : List Arc) {first last : Walk} {nodes : List Nat}
    (same : ∀ node ∈ nodes, first.mark node = .fresh ↔ last.mark node = .fresh) :
    freshWork arcs first nodes = freshWork arcs last nodes := by
  induction nodes with
  | nil => rfl
  | cons node rest ih =>
    obtain ⟨head, tail⟩ := List.forall_mem_cons.1 same
    simp only [freshWork, head, ih tail]

/-- A node that is entered is no longer left to do. -/
theorem freshWork_enter (arcs : List Arc) {walk : Walk} {node : Nat}
    (fresh : walk.mark node = .fresh) {nodes : List Nat} (distinct : nodes.Nodup)
    (member : node ∈ nodes) :
    freshWork arcs (walk.setMark node .active) nodes + ((successors arcs node).length + 1) =
      freshWork arcs walk nodes := by
  have known : node < walk.marks.length := Walk.lt_of_fresh fresh
  induction nodes with
  | nil => cases member
  | cons first rest ih =>
    obtain ⟨unlisted, distinct⟩ := List.nodup_cons.1 distinct
    simp only [freshWork, Walk.mark_setMark known]
    by_cases same : node = first
    · subst same
      have others : freshWork arcs (walk.setMark node .active) rest = freshWork arcs walk rest := by
        refine freshWork_congr arcs fun other listed => ?_
        have apart : node ≠ other := fun equal => unlisted (equal ▸ listed)
        rw [Walk.mark_setMark known, if_neg apart]
      simp [fresh, others]
      omega
    · have later := ih distinct ((List.mem_cons.1 member).resolve_left same)
      rw [if_neg same]
      omega

/-- The nodes on the path are entered. -/
def Entered (stand : Stand) : Prop :=
  ∀ entry ∈ stand.trail, stand.walk.mark entry.1 ≠ .fresh

theorem freshWork_range_enter (arcs : List Arc) {walk : Walk} {node : Nat}
    (fresh : walk.mark node = .fresh) :
    freshWork arcs (walk.setMark node .active)
        (List.range (walk.setMark node .active).marks.length) +
      ((successors arcs node).length + 1) =
        freshWork arcs walk (List.range walk.marks.length) := by
  have known := List.mem_range.2 (Walk.lt_of_fresh fresh)
  rw [Walk.length_marks_setMark]
  exact freshWork_enter arcs fresh List.nodup_range known

theorem freshWork_range_leave (arcs : List Arc) {walk : Walk} {node : Nat}
    (entered : walk.mark node ≠ .fresh) :
    freshWork arcs (walk.setMark node .done)
        (List.range (walk.setMark node .done).marks.length) =
      freshWork arcs walk (List.range walk.marks.length) := by
  rw [Walk.length_marks_setMark]
  refine freshWork_congr arcs fun other member => ?_
  by_cases known : node < walk.marks.length
  · rw [Walk.mark_setMark known]
    split
    · next same => simp [← same, entered]
    · rfl
  · rw [Walk.setMark_of_beyond known]

/-- A turn does one unit of the work. -/
theorem work_next {arcs : List Arc} {stand next : Stand} (entered : stand.Entered)
    (turn : stand.next? arcs = some next) :
    next.Entered ∧ next.work arcs + 1 = stand.work arcs := by
  obtain ⟨roots, trail, walk⟩ := stand
  cases trail with
  | nil =>
    cases roots with
    | nil => cases turn
    | cons root roots =>
      simp only [next?] at turn
      split at turn
      · next fresh =>
        cases turn
        have left := freshWork_range_enter arcs fresh
        constructor
        · intro entry member
          obtain rfl := List.mem_singleton.1 member
          simp [Walk.mark_enter fresh]
        · simp only [work, trailWork, List.length_cons]
          omega
      · cases turn
        refine ⟨entered, ?_⟩
        simp only [work, trailWork, List.length_cons]
        omega
  | cons entry trail =>
    obtain ⟨node, targets⟩ := entry
    have here : walk.mark node ≠ .fresh := entered _ List.mem_cons_self
    have outer : ∀ entry ∈ trail, walk.mark entry.1 ≠ .fresh := fun entry member =>
      entered entry (List.mem_cons_of_mem _ member)
    cases targets with
    | nil =>
      cases turn
      have left := freshWork_range_leave arcs here
      constructor
      · intro entry member
        exact Walk.mark_setMark_ne_fresh (by decide) (outer entry member)
      · simp only [work, trailWork, List.length_nil]
        omega
    | cons target targets =>
      simp only [next?] at turn
      split at turn
      · next fresh =>
        cases turn
        have left := freshWork_range_enter arcs fresh
        constructor
        · refine List.forall_mem_cons.2 ⟨by simp [Walk.mark_enter fresh], ?_⟩
          refine List.forall_mem_cons.2 ⟨?_, fun entry member => ?_⟩
          · exact Walk.mark_setMark_ne_fresh (by decide) here
          · exact Walk.mark_setMark_ne_fresh (by decide) (outer entry member)
        · simp only [work, trailWork, List.length_cons]
          omega
      · cases turn
        refine ⟨List.forall_mem_cons.2 ⟨here, outer⟩, ?_⟩
        have same : freshWork arcs { walk with back := (node, target) :: walk.back }
            (List.range walk.marks.length) = freshWork arcs walk (List.range walk.marks.length) :=
          freshWork_congr arcs fun _ _ => Iff.rfl
        simp only [work, trailWork, List.length_cons, same]
        omega
      · cases turn
        refine ⟨List.forall_mem_cons.2 ⟨here, outer⟩, ?_⟩
        simp only [work, trailWork, List.length_cons]
        omega

theorem work_turns {arcs : List Arc} {count : Nat} {first last : Stand}
    (turns : Turns arcs count first last) (entered : first.Entered) :
    last.work arcs + count = first.work arcs := by
  induction turns with
  | refl => rfl
  | step turn _ ih =>
    obtain ⟨still, one⟩ := work_next entered turn
    have others := ih still
    omega

end Stand

/-! ## The recursive walk -/

namespace Walk

def freshCount (walk : Walk) : Nat :=
  walk.marks.count .fresh

theorem freshCount_enter {walk : Walk} {node : Nat} (fresh : walk.mark node = .fresh) :
    (walk.setMark node .active).freshCount + 1 = walk.freshCount := by
  have known : node < walk.marks.length := lt_of_fresh fresh
  have marked : walk.marks[node] = .fresh := by
    simpa [mark, known] using fresh
  have counted : 0 < walk.marks.count .fresh :=
    List.count_pos_iff.2 (marked ▸ List.getElem_mem known)
  simp [freshCount, setMark, List.count_set, known, marked]
  omega

theorem freshCount_setMark_le (walk : Walk) (node : Nat) {mark : Mark} (entered : mark ≠ .fresh) :
    (walk.setMark node mark).freshCount ≤ walk.freshCount := by
  by_cases known : node < walk.marks.length
  · simp [freshCount, setMark, List.count_set, known, entered]
  · rw [setMark_of_beyond known]

theorem freshCount_foldl_examine_le {arcs : List Arc} {depth : Nat}
    (visits : ∀ walk node, (visit arcs depth walk node).freshCount ≤ walk.freshCount)
    (node : Nat) (targets : List Nat) (walk : Walk) :
    (targets.foldl (examine arcs depth node) walk).freshCount ≤ walk.freshCount := by
  induction targets generalizing walk with
  | nil => exact Nat.le_refl _
  | cons target rest ih =>
    refine (ih _).trans ?_
    unfold examine
    split
    · exact visits walk target
    · exact Nat.le_refl _
    · exact Nat.le_refl _

theorem freshCount_visit_le (arcs : List Arc) (depth : Nat) (walk : Walk) (node : Nat) :
    (visit arcs depth walk node).freshCount ≤ walk.freshCount := by
  induction depth generalizing walk node with
  | zero => exact Nat.le_refl _
  | succ depth ih =>
    rw [visit_succ]
    calc
      _ ≤ _ := freshCount_setMark_le _ node (by decide)
      _ ≤ (walk.setMark node .active).freshCount := freshCount_foldl_examine_le ih ..
      _ ≤ _ := freshCount_setMark_le walk node (by decide)

open Stand

/-- A visit of a depth that no path exceeds is what the loop makes of a node that it has
just entered, whatever is below it on the stack. -/
def IsLoop (arcs : List Arc) (depth : Nat) : Prop :=
  ∀ (walk : Walk) (node : Nat), walk.mark node = .fresh → walk.freshCount ≤ depth →
    ∀ roots trail, ∃ count,
      Turns arcs count ⟨roots, (node, successors arcs node) :: trail, walk.setMark node .active⟩
        ⟨roots, trail, visit arcs depth walk node⟩

theorem exists_turns_targets {arcs : List Arc} {depth : Nat} (isLoop : IsLoop arcs depth)
    (node : Nat) (targets : List Nat) {walk : Walk} (few : walk.freshCount ≤ depth)
    (roots : List Nat) (trail : List (Nat × List Nat)) :
    ∃ count, Turns arcs count ⟨roots, (node, targets) :: trail, walk⟩
      ⟨roots, (node, []) :: trail, targets.foldl (examine arcs depth node) walk⟩ := by
  induction targets generalizing walk with
  | nil => exact ⟨0, .refl⟩
  | cons target targets ih =>
    have examined : (examine arcs depth node walk target).freshCount ≤ walk.freshCount :=
      freshCount_foldl_examine_le (freshCount_visit_le arcs depth) node [target] walk
    obtain ⟨later, others⟩ := ih (examined.trans few)
    have looked : ∃ count, Turns arcs count ⟨roots, (node, target :: targets) :: trail, walk⟩
        ⟨roots, (node, targets) :: trail, examine arcs depth node walk target⟩ := by
      rw [examine]
      cases marked : walk.mark target with
      | fresh =>
        have turn : next? arcs ⟨roots, (node, target :: targets) :: trail, walk⟩ =
            some ⟨roots, (target, successors arcs target) :: (node, targets) :: trail,
              walk.setMark target .active⟩ := by simp [next?, marked]
        obtain ⟨count, visited⟩ := isLoop walk target marked few roots ((node, targets) :: trail)
        exact ⟨count + 1, .step turn visited⟩
      | active =>
        have turn : next? arcs ⟨roots, (node, target :: targets) :: trail, walk⟩ =
            some ⟨roots, (node, targets) :: trail,
              { walk with back := (node, target) :: walk.back }⟩ := by simp [next?, marked]
        exact ⟨1, .step turn .refl⟩
      | done =>
        have turn : next? arcs ⟨roots, (node, target :: targets) :: trail, walk⟩ =
            some ⟨roots, (node, targets) :: trail, walk⟩ := by simp [next?, marked]
        exact ⟨1, .step turn .refl⟩
    obtain ⟨first, start⟩ := looked
    exact ⟨first + later, start.trans others⟩

theorem isLoop (arcs : List Arc) (depth : Nat) : IsLoop arcs depth := by
  induction depth with
  | zero =>
    intro walk node fresh few
    have entered := freshCount_enter fresh
    omega
  | succ depth ih =>
    intro walk node fresh few roots trail
    have entered := freshCount_enter fresh
    have left : (walk.setMark node .active).freshCount ≤ depth := by omega
    obtain ⟨count, seen⟩ :=
      exists_turns_targets ih node (successors arcs node) left roots trail
    have leaves : Turns arcs 1
        ⟨roots, (node, []) :: trail,
          (successors arcs node).foldl (examine arcs depth node) (walk.setMark node .active)⟩
        ⟨roots, trail, visit arcs (depth + 1) walk node⟩ := .step rfl .refl
    exact ⟨count + 1, seen.trans leaves⟩

theorem exists_turns_roots {arcs : List Arc} {depth : Nat} (roots : List Nat) {walk : Walk}
    (few : walk.freshCount ≤ depth) :
    ∃ count, Turns arcs count ⟨roots, [], walk⟩
      ⟨[], [], roots.foldl
        (fun walk node => if walk.mark node = .fresh then visit arcs depth walk node else walk)
        walk⟩ := by
  induction roots generalizing walk with
  | nil => exact ⟨0, .refl⟩
  | cons root roots ih =>
    rw [List.foldl_cons]
    by_cases fresh : walk.mark root = .fresh
    · have turn : next? arcs ⟨root :: roots, [], walk⟩ =
          some ⟨roots, [(root, successors arcs root)], walk.setMark root .active⟩ := by
        simp [next?, fresh]
      obtain ⟨count, visited⟩ := isLoop arcs depth walk root fresh few roots []
      obtain ⟨later, others⟩ := ih ((freshCount_visit_le arcs depth walk root).trans few)
      rw [if_pos fresh]
      exact ⟨_, (Turns.step turn visited).trans others⟩
    · have turn : next? arcs ⟨root :: roots, [], walk⟩ = some ⟨roots, [], walk⟩ := by
        simp [next?, fresh]
      obtain ⟨later, others⟩ := ih few
      rw [if_neg fresh]
      exact ⟨_, .step turn others⟩

end Walk

/-! ## The number of turns -/

/-- The loop before its first turn. -/
def Stand.start (count : Nat) : Stand :=
  ⟨List.range count, [], ⟨List.replicate count .fresh, []⟩⟩

open Stand

theorem countP_mem_cons (arcs : List Arc) {node : Nat} {nodes : List Nat}
    (unlisted : node ∉ nodes) :
    (arcs.countP fun arc => arc.1 ∈ node :: nodes) =
      (successors arcs node).length + arcs.countP fun arc => arc.1 ∈ nodes := by
  rw [successors, List.length_map, ← List.countP_eq_length_filter]
  induction arcs with
  | nil => rfl
  | cons arc rest ih =>
    rw [List.countP_cons, List.countP_cons, List.countP_cons, ih]
    by_cases same : arc.1 = node
    · simp [same, unlisted]
      omega
    · simp [same]
      omega

/-- Untouched nodes will take a turn each, and one for each arc from any of them. -/
theorem freshWork_of_fresh (arcs : List Arc) {walk : Walk} {nodes : List Nat}
    (distinct : nodes.Nodup) (fresh : ∀ node ∈ nodes, walk.mark node = .fresh) :
    freshWork arcs walk nodes = nodes.length + arcs.countP fun arc => arc.1 ∈ nodes := by
  induction nodes with
  | nil => simp [freshWork]
  | cons node rest ih =>
    obtain ⟨unlisted, distinct⟩ := List.nodup_cons.1 distinct
    obtain ⟨first, others⟩ := List.forall_mem_cons.1 fresh
    rw [freshWork, if_pos first, ih distinct others, countP_mem_cons arcs unlisted,
      List.length_cons]
    omega

theorem freshWork_of_not_fresh (arcs : List Arc) {walk : Walk} {nodes : List Nat}
    (entered : ∀ node ∈ nodes, walk.mark node ≠ .fresh) : freshWork arcs walk nodes = 0 := by
  induction nodes with
  | nil => rfl
  | cons node rest ih =>
    obtain ⟨first, others⟩ := List.forall_mem_cons.1 entered
    rw [freshWork, if_neg first, ih others]

theorem work_start {count : Nat} {arcs : List Arc} (proper : Proper count arcs) :
    (start count).work arcs = 2 * count + arcs.length := by
  have untouched : ∀ node ∈ List.range count,
      (⟨List.replicate count .fresh, []⟩ : Walk).mark node = .fresh := by
    intro node member
    simp [Walk.mark, List.mem_range.1 member]
  have inside : (arcs.countP fun arc => arc.1 ∈ List.range count) = arcs.length :=
    List.countP_eq_length.2 fun arc member => by simpa using proper.source arc member
  have fresh := freshWork_of_fresh arcs List.nodup_range untouched
  rw [inside, List.length_range] at fresh
  simp only [start, work, trailWork, List.length_range, List.length_replicate, fresh]
  omega

theorem work_end {count : Nat} {arcs : List Arc} (proper : Proper count arcs) :
    work arcs ⟨[], [], Walk.all count arcs⟩ = 0 := by
  obtain ⟨finished, follows, done⟩ := Walk.exists_follows_all proper
  have entered : ∀ node ∈ List.range (Walk.all count arcs).marks.length,
      (Walk.all count arcs).mark node ≠ .fresh := by
    intro node member fresh
    have known := List.mem_range.1 member
    have marked := Walk.getElem?_marks_of_lt known
    rw [follows.length] at known
    rw [(follows.done node).2 (done node known), fresh] at marked
    cases marked
  simp [work, trailWork, freshWork_of_not_fresh arcs entered]

/-- The loop ends, after two turns for each node and one for each arc, and comes to what
the recursive walk comes to. -/
theorem turns_all {count : Nat} {arcs : List Arc} (proper : Proper count arcs) :
    Turns arcs (2 * count + arcs.length) (start count) ⟨[], [], Walk.all count arcs⟩ := by
  have few : (start count).walk.freshCount ≤ count := by simp [start, Walk.freshCount]
  have ends : ∃ turnCount, Turns arcs turnCount (start count) ⟨[], [], Walk.all count arcs⟩ :=
    Walk.exists_turns_roots (List.range count) few
  obtain ⟨turnCount, ended⟩ := ends
  have counted := work_turns ended (by simp [Entered, start])
  rw [work_start proper, work_end proper, Nat.zero_add] at counted
  rwa [counted] at ended

/-! ## What is left of the arcs -/

/-- The walk comes to its end, after two turns for each node and one for each arc. Of the
arcs it leaves a strictly sorted list without a cycle, with an arc in one of the two
directions wherever there was one. An arc that lies on no cycle keeps its direction, so
arcs without cycles are left as a set. -/
theorem breakCycles_leaves_no_cycle {count : Nat} {arcs : List Arc} (proper : Proper count arcs) :
    let left := breakCycles count arcs
    let stop : Stand := ⟨[], [], Walk.all count arcs⟩
    (Turns arcs (2 * count + arcs.length) (start count) stop ∧ stop.next? arcs = none) ∧
      left.Pairwise Precedes ∧
      Acyclic left ∧
      (∀ first last, Linked left first last ∨ Linked left last first ↔
        Linked arcs first last ∨ Linked arcs last first) ∧
      (∀ arc ∈ arcs, ¬Reaches arcs arc.2 arc.1 → arc ∈ left) ∧
      (Acyclic arcs → ∀ arc, arc ∈ left ↔ arc ∈ arcs) := by
  intro left stop
  have sorted : left.Pairwise Precedes :=
    pairwise_dropRepeats (List.pairwise_mergeSort arcLE_trans arcLE_total _)
  refine ⟨⟨turns_all proper, rfl⟩, sorted, acyclic_of_wellFounded (wellFounded_breakCycles proper),
    fun first last => ⟨?_, ?_⟩, fun arc member oneWay => ?_, fun acyclic arc => ?_⟩
  · rintro (kept | kept)
    · exact linked_of_linked_breakCycles kept
    · exact (linked_of_linked_breakCycles kept).symm
  · rintro (known | known)
    · exact linked_breakCycles count known
    · exact (linked_breakCycles count known).symm
  · exact linked_breakCycles_of_not_reaches proper member oneWay
  · have same : left = dropRepeats (arcs.mergeSort arcLE) := breakCycles_of_acyclic proper acyclic
    rw [same, mem_dropRepeats, List.mem_mergeSort]

/-- A cycle of three nodes, one of whose arcs has an opposite, and an arc that is listed
twice and leads away from it. -/
def knotted : List Arc := [(0, 1), (1, 2), (2, 0), (2, 3), (1, 0), (2, 3)]

theorem breakCycles_leaves_no_cycle_knotted :
    Proper 4 knotted ∧ Turns knotted 14 (start 4) ⟨[], [], Walk.all 4 knotted⟩ ∧
      Acyclic (breakCycles 4 knotted) ∧ (2, 3) ∈ breakCycles 4 knotted := by
  have proper : Proper 4 knotted := ⟨by decide, by decide, by decide⟩
  have stuck : ¬Reaches knotted 3 2 := by
    have none : successors knotted 3 = [] := by decide
    intro back
    rcases back.cases_head with same | ⟨next, leaves, -⟩
    · cases same
    · have member := mem_successors.2 leaves
      rw [none] at member
      cases member
  obtain ⟨⟨turns, -⟩, -, acyclic, -, kept, -⟩ := breakCycles_leaves_no_cycle proper
  exact ⟨proper, turns, acyclic, kept (2, 3) (by decide) stuck⟩

end PeerNet.Layout
