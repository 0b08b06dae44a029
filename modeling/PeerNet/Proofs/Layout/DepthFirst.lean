import Mathlib.Data.List.Nodup
import Mathlib.Data.List.Range
import Mathlib.Logic.Relation
import PeerNet.Layout.Acyclic

/-!
# The depth-first walk

A walk has a path of active nodes, from its root to the node it stands at, and a list
of the nodes it is done with, the latest first. The path followed by that list is an
order in which nodes only ever get inserted: where an arc is found to lead back, its
target stands before its source, and every other arc of a node that is done leads to a
node further behind. A target that is active reaches the current node along the path,
so the arcs that lead back lie on cycles.
-/

set_option autoImplicit false

namespace PeerNet.Layout

/-! ## Arcs -/

def Linked (arcs : List Arc) (source target : Nat) : Prop :=
  (source, target) ∈ arcs

/-- There is a way along the arcs, which may be empty. -/
abbrev Reaches (arcs : List Arc) : Nat → Nat → Prop :=
  Relation.ReflTransGen (Linked arcs)

/-- Arcs between different nodes below a count. -/
structure Proper (count : Nat) (arcs : List Arc) : Prop where
  source : ∀ arc ∈ arcs, arc.1 < count
  target : ∀ arc ∈ arcs, arc.2 < count
  loopFree : ∀ arc ∈ arcs, arc.1 ≠ arc.2

theorem mem_successors {arcs : List Arc} {source target : Nat} :
    target ∈ successors arcs source ↔ Linked arcs source target := by
  constructor
  · intro member
    obtain ⟨⟨_, _⟩, found, rfl⟩ := List.mem_map.1 member
    obtain ⟨known, same⟩ := List.mem_filter.1 found
    obtain rfl := of_decide_eq_true same
    exact known
  · intro known
    exact List.mem_map.2 ⟨(source, target), List.mem_filter.2 ⟨known, decide_eq_true rfl⟩, rfl⟩

namespace Walk

/-! ## Marks -/

theorem getElem?_marks_of_lt {walk : Walk} {node : Nat} (known : node < walk.marks.length) :
    walk.marks[node]? = some (walk.mark node) := by
  rw [mark, List.getD_eq_getElem?_getD, List.getElem?_eq_getElem known]
  rfl

theorem getElem?_marks_setMark {walk : Walk} {node : Nat} (known : node < walk.marks.length)
    (mark : Mark) (other : Nat) :
    (walk.setMark node mark).marks[other]? =
      if node = other then some mark else walk.marks[other]? := by
  rw [setMark, List.getElem?_set]
  by_cases same : node = other
  · rw [if_pos same, if_pos same, if_pos known]
  · rw [if_neg same, if_neg same]

/-- What a walk does with an arc from a node to a target. -/
def examine (arcs : List Arc) (depth node : Nat) (walk : Walk) (target : Nat) : Walk :=
  match walk.mark target with
  | .fresh => visit arcs depth walk target
  | .active => { walk with back := (node, target) :: walk.back }
  | .done => walk

theorem visit_succ (arcs : List Arc) (depth : Nat) (walk : Walk) (node : Nat) :
    visit arcs (depth + 1) walk node =
      ((successors arcs node).foldl (examine arcs depth node)
        (walk.setMark node .active)).setMark node .done :=
  rfl

/-! ## The path and the nodes that are done -/

/-- The walk has come along `path`, and is done with `finished`, the latest first. -/
structure Follows (count : Nat) (arcs : List Arc) (path finished : List Nat) (walk : Walk) :
    Prop where
  length : walk.marks.length = count
  active : ∀ node, walk.marks[node]? = some .active ↔ node ∈ path
  done : ∀ node, walk.marks[node]? = some .done ↔ node ∈ finished
  distinct : (path ++ finished).Nodup
  back : ∀ arc ∈ walk.back, arc ∈ arcs ∧ Reaches arcs arc.2 arc.1 ∧
    [arc.2, arc.1].Sublist (path ++ finished)
  forth : ∀ arc ∈ arcs, arc.1 ∈ finished → arc ∉ walk.back →
    [arc.1, arc.2].Sublist (path ++ finished)

variable {count : Nat} {arcs : List Arc} {path finished : List Nat} {walk : Walk}

theorem follows_start (count : Nat) (arcs : List Arc) :
    Follows count arcs [] [] ⟨List.replicate count .fresh, []⟩ where
  length := List.length_replicate
  active node := by simp [List.getElem?_replicate]
  done node := by simp [List.getElem?_replicate]
  distinct := List.nodup_nil
  back := by simp
  forth := by simp

namespace Follows

theorem lt_of_mem (follows : Follows count arcs path finished walk) {node : Nat}
    (member : node ∈ path ++ finished) : node < count := by
  rw [← follows.length]
  rcases List.mem_append.1 member with active | done
  · exact (List.getElem?_eq_some_iff.1 ((follows.active node).2 active)).1
  · exact (List.getElem?_eq_some_iff.1 ((follows.done node).2 done)).1

theorem not_mem_of_fresh (follows : Follows count arcs path finished walk) {node : Nat}
    (fresh : walk.marks[node]? = some .fresh) : node ∉ path ++ finished := by
  intro member
  rcases List.mem_append.1 member with active | done
  · cases fresh.symm.trans ((follows.active node).2 active)
  · cases fresh.symm.trans ((follows.done node).2 done)

theorem length_path_le (follows : Follows count arcs path finished walk) :
    path.length ≤ count := by
  have distinct : path.Nodup := (List.nodup_append.1 follows.distinct).1
  have within : path ⊆ List.range count := fun _ member =>
    List.mem_range.2 (follows.lt_of_mem (List.mem_append_left finished member))
  simpa using distinct.length_le_of_subset within

/-- A fresh node becomes the end of the path. -/
theorem push (follows : Follows count arcs path finished walk) {node : Nat}
    (fresh : walk.marks[node]? = some .fresh) :
    Follows count arcs (path ++ [node]) finished (walk.setMark node .active) := by
  have unseen := follows.not_mem_of_fresh fresh
  have known : node < walk.marks.length := (List.getElem?_eq_some_iff.1 fresh).1
  have inserted : (path ++ finished).Sublist (path ++ [node] ++ finished) :=
    (List.sublist_append_left path [node]).append_right finished
  refine ⟨(List.length_set ..).trans follows.length, fun other => ?_, fun other => ?_, ?_,
    fun arc noted => ?_, fun arc member settled forward => ?_⟩
  · rw [getElem?_marks_setMark known, List.mem_append, List.mem_singleton, ← follows.active]
    split
    · next same => simp [same]
    · next apart => exact (or_iff_left (Ne.symm apart)).symm
  · rw [getElem?_marks_setMark known, ← follows.done]
    split
    · next same => simp [← same, fresh]
    · rfl
  · have moved : (path ++ [node] ++ finished).Perm (node :: (path ++ finished)) := by
      rw [List.append_assoc]
      exact List.perm_middle
    exact moved.nodup_iff.2 (List.nodup_cons.2 ⟨unseen, follows.distinct⟩)
  · obtain ⟨member, cycle, before⟩ := follows.back arc noted
    exact ⟨member, cycle, before.trans inserted⟩
  · exact (follows.forth arc member settled forward).trans inserted

/-- The last node of the path is done when all its arcs are seen. -/
theorem pop {node : Nat} (follows : Follows count arcs (path ++ [node]) finished walk)
    (seen : ∀ target, Linked arcs node target →
      (node, target) ∈ walk.back ∨ target ∈ finished) :
    Follows count arcs path (node :: finished) (walk.setMark node .done) := by
  have last : node ∈ path ++ [node] := List.mem_append_right path List.mem_cons_self
  have marked := (follows.active node).2 last
  have known : node < walk.marks.length := (List.getElem?_eq_some_iff.1 marked).1
  have same : path ++ node :: finished = path ++ [node] ++ finished := List.append_cons ..
  have unlisted : node ∉ path := by
    have distinct := (List.nodup_append.1 follows.distinct).1
    exact fun earlier => (List.nodup_append.1 distinct).2.2 node earlier node List.mem_cons_self rfl
  refine ⟨(List.length_set ..).trans follows.length, fun other => ?_, fun other => ?_, ?_,
    fun arc noted => ?_, fun arc member settled forward => ?_⟩
  · rw [getElem?_marks_setMark known]
    split
    · next equal => simp [← equal, unlisted]
    · next apart =>
      rw [follows.active, List.mem_append, List.mem_singleton]
      exact or_iff_left (Ne.symm apart)
  · rw [getElem?_marks_setMark known, List.mem_cons, ← follows.done]
    split
    · next equal => simp [equal]
    · next apart => exact (or_iff_right (Ne.symm apart)).symm
  · rw [same]
    exact follows.distinct
  · rw [same]
    exact follows.back arc noted
  · rw [same]
    rcases List.mem_cons.1 settled with current | earlier
    · obtain ⟨source, target⟩ := arc
      subst current
      have ahead : target ∈ finished := (seen target member).resolve_left forward
      have pair : [source, target].Sublist ([source] ++ finished) :=
        (List.singleton_sublist.2 ahead).cons_cons source
      rw [List.append_assoc]
      exact pair.trans (List.sublist_append_right path _)
    · exact follows.forth arc member earlier forward

/-- An arc from the last node of the path to an active node leads back. -/
theorem note (proper : Proper count arcs) {node target : Nat}
    (follows : Follows count arcs (path ++ [node]) finished walk)
    (linked : Linked arcs node target) (active : walk.marks[target]? = some .active)
    (reached : Reaches arcs target node) :
    Follows count arcs (path ++ [node]) finished
      { walk with back := (node, target) :: walk.back } := by
  have apart : target ≠ node := Ne.symm (proper.loopFree _ linked)
  have earlier : target ∈ path := by
    rcases List.mem_append.1 ((follows.active target).1 active) with earlier | last
    · exact earlier
    · exact absurd (List.mem_singleton.1 last) apart
  have pair : [target, node].Sublist (path ++ [node] ++ finished) :=
    ((List.singleton_sublist.2 earlier).append_right [node]).trans (List.sublist_append_left _ _)
  refine { follows with
    back := fun arc noted => ?_
    forth := fun arc member settled forward =>
      follows.forth arc member settled fun noted => forward (List.mem_cons_of_mem _ noted) }
  rcases List.mem_cons.1 noted with rfl | before
  · exact ⟨linked, reached, pair⟩
  · exact follows.back arc before

end Follows

/-- What a walk has after it went on from a place where it had done some nodes. -/
structure Continues (count : Nat) (arcs : List Arc) (path finished : List Nat) (walk next : Walk)
    (later : List Nat) : Prop where
  follows : Follows count arcs path later next
  finished : finished ⊆ later
  back : walk.back ⊆ next.back

theorem Continues.refl (follows : Follows count arcs path finished walk) :
    Continues count arcs path finished walk walk finished :=
  ⟨follows, fun _ member => member, fun _ member => member⟩

theorem Continues.trans {next last : Walk} {later latest : List Nat}
    (first : Continues count arcs path finished walk next later)
    (second : Continues count arcs path later next last latest) :
    Continues count arcs path finished walk last latest :=
  ⟨second.follows, fun _ member => second.finished (first.finished member),
    fun _ member => second.back (first.back member)⟩

variable (count arcs) in
/-- What visits of a limited depth achieve: where no more nodes are left than the depth
allows for, the node gets done. -/
def VisitsTo (depth : Nat) : Prop :=
  ∀ {path finished : List Nat} {walk : Walk} {node : Nat},
    Follows count arcs path finished walk → walk.marks[node]? = some .fresh →
    count ≤ depth + path.length → (∀ ancestor ∈ path, Reaches arcs ancestor node) →
    ∃ later, Continues count arcs path finished walk (visit arcs depth walk node) later ∧
      node ∈ later

theorem examineAll (proper : Proper count arcs) {depth : Nat} (visits : VisitsTo count arcs depth)
    {node : Nat} (room : count ≤ depth + (path.length + 1))
    (reached : ∀ ancestor ∈ path ++ [node], Reaches arcs ancestor node) (targets : List Nat)
    (linked : ∀ target ∈ targets, Linked arcs node target)
    (follows : Follows count arcs (path ++ [node]) finished walk) :
    ∃ later, Continues count arcs (path ++ [node]) finished walk
        (targets.foldl (examine arcs depth node) walk) later ∧
      ∀ target ∈ targets,
        (node, target) ∈ (targets.foldl (examine arcs depth node) walk).back ∨ target ∈ later := by
  induction targets generalizing walk finished with
  | nil => exact ⟨finished, .refl follows, by simp⟩
  | cons target rest ih =>
    obtain ⟨link, linked⟩ := List.forall_mem_cons.1 linked
    have step : ∃ later, Continues count arcs (path ++ [node]) finished walk
        (examine arcs depth node walk target) later ∧
        ((node, target) ∈ (examine arcs depth node walk target).back ∨ target ∈ later) := by
      have known : target < walk.marks.length := by
        rw [follows.length]
        exact proper.target _ link
      have marked := getElem?_marks_of_lt known
      rw [examine]
      cases mark : walk.mark target with
      | fresh =>
        rw [mark] at marked
        obtain ⟨later, continues, done⟩ := visits follows marked
          (by rw [List.length_append]; exact room)
          fun ancestor member => (reached ancestor member).tail link
        exact ⟨later, continues, .inr done⟩
      | active =>
        rw [mark] at marked
        have noted := follows.note proper link marked
          (reached target ((follows.active target).1 marked))
        exact ⟨finished, ⟨noted, fun _ member => member, fun _ member => .tail _ member⟩,
          .inl List.mem_cons_self⟩
      | done =>
        rw [mark] at marked
        exact ⟨finished, .refl follows, .inr ((follows.done target).1 marked)⟩
    obtain ⟨later, continues, seen⟩ := step
    obtain ⟨latest, goesOn, others⟩ := ih linked continues.follows
    refine ⟨latest, continues.trans goesOn, List.forall_mem_cons.2 ⟨?_, others⟩⟩
    exact seen.imp (goesOn.back ·) (goesOn.finished ·)

/-- Every visit gets its node done, however deep it has to go. -/
theorem visitsTo (proper : Proper count arcs) (depth : Nat) : VisitsTo count arcs depth := by
  induction depth with
  | zero =>
    intro path finished walk node follows fresh room _
    -- The path and the fresh node would be more nodes than there are.
    have longer := (follows.push fresh).length_path_le
    rw [List.length_append, List.length_singleton] at longer
    omega
  | succ depth ih =>
    intro path finished walk node follows fresh room reached
    rw [visit_succ]
    have pushed := follows.push fresh
    have upTo : ∀ ancestor ∈ path ++ [node], Reaches arcs ancestor node := by
      intro ancestor member
      rcases List.mem_append.1 member with earlier | last
      · exact reached ancestor earlier
      · rw [List.mem_singleton.1 last]
    obtain ⟨later, continues, seen⟩ := examineAll proper ih (by omega) upTo
      (successors arcs node) (fun target member => mem_successors.1 member) pushed
    have popped := continues.follows.pop fun target link => seen target (mem_successors.2 link)
    exact ⟨node :: later, ⟨popped, fun _ member => .tail _ (continues.finished member),
      continues.back⟩, List.mem_cons_self⟩

/-! ## The whole walk -/

theorem walkAll (proper : Proper count arcs) (nodes : List Nat)
    (known : ∀ node ∈ nodes, node < count) (follows : Follows count arcs [] finished walk) :
    ∃ later, Continues count arcs [] finished walk
        (nodes.foldl (fun walk node =>
          if walk.mark node = .fresh then visit arcs count walk node else walk) walk) later ∧
      ∀ node ∈ nodes, node ∈ later := by
  induction nodes generalizing walk finished with
  | nil => exact ⟨finished, .refl follows, by simp⟩
  | cons node rest ih =>
    obtain ⟨below, known⟩ := List.forall_mem_cons.1 known
    have marked : walk.marks[node]? = some (walk.mark node) :=
      getElem?_marks_of_lt (by rw [follows.length]; exact below)
    have step : ∃ later, Continues count arcs [] finished walk
        (if walk.mark node = .fresh then visit arcs count walk node else walk) later ∧
        node ∈ later := by
      cases mark : walk.mark node with
      | fresh =>
        rw [mark] at marked
        exact visitsTo proper count follows marked (Nat.le_add_right _ _) (by simp)
      | active =>
        rw [mark] at marked
        exact absurd ((follows.active node).1 marked) List.not_mem_nil
      | done =>
        rw [mark] at marked
        exact ⟨finished, .refl follows, (follows.done node).1 marked⟩
    obtain ⟨later, continues, done⟩ := step
    obtain ⟨latest, goesOn, others⟩ := ih known continues.follows
    exact ⟨latest, continues.trans goesOn,
      List.forall_mem_cons.2 ⟨goesOn.finished done, others⟩⟩

/-- The walk ends with every node done. -/
theorem exists_follows_all (proper : Proper count arcs) :
    ∃ finished, Follows count arcs [] finished (all count arcs) ∧
      ∀ node < count, node ∈ finished := by
  obtain ⟨finished, continues, done⟩ := walkAll proper (List.range count)
    (fun _ member => List.mem_range.1 member) (follows_start count arcs)
  exact ⟨finished, continues.follows, fun node below => done node (List.mem_range.2 below)⟩

end Walk

end PeerNet.Layout
