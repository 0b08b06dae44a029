import Mathlib.Data.List.Perm.Subperm
import PeerNet.Proofs.Random.Shuffle
import PeerNet.Proofs.Topology.Peers
import PeerNet.Proofs.Topology.Templates

/-!
# Rings with random extra links

A node's candidates are the nodes that it is not linked to yet, so together with its targets and
itself they are all nodes. Linking it to some of them changes the links of no other node. So each
node ends with its ring link and as many more as were asked for, or with links to all others
where there are too few of them, whatever is drawn.
-/

set_option autoImplicit false

namespace PeerNet.Topology

section

variable {R : Type} {topology : Topology R} {count source : Nat} {pairs : List (Nat × Nat)}

theorem Numbered.mem_candidates_iff (numbered : Numbered count pairs topology) {target : Nat} :
    target ∈ topology.candidates count source ↔
      target < count ∧ target ≠ source ∧ (source, target) ∉ pairs := by
  have linked : topology.hasEdge (.ofNat source) (.ofNat target) = true ↔
      (source, target) ∈ pairs := numbered.hasEdge_iff
  simp [candidates, ← linked]

/-- The numbers that a number is linked to. -/
def targetsOf (pairs : List (Nat × Nat)) (source : Nat) : List Nat :=
  (pairs.filter (·.1 = source)).map (·.2)

theorem mem_targetsOf {target : Nat} :
    target ∈ targetsOf pairs source ↔ (source, target) ∈ pairs := by
  simp [targetsOf, and_comm]

theorem targetsOf_eq_farEnds (pairs : List (Nat × Nat)) (source : Nat) :
    targetsOf pairs source = farEnds Prod.fst Prod.snd pairs source :=
  rfl

theorem length_targetsOf (pairs : List (Nat × Nat)) (source : Nat) :
    (targetsOf pairs source).length = pairs.countP (·.1 = source) := by
  rw [targetsOf_eq_farEnds, length_farEnds]

theorem nodup_targetsOf (distinct : pairs.Nodup) (source : Nat) :
    (targetsOf pairs source).Nodup := by
  rw [targetsOf_eq_farEnds]
  exact nodup_farEnds Prod.ext distinct source

/-- A node, its targets and its candidates are all nodes, each once. -/
theorem Numbered.targets_and_candidates (numbered : Numbered count pairs topology)
    (inside : source < count) :
    (source :: (targetsOf pairs source ++ topology.candidates count source)).Perm
      (List.range count) := by
  have distinct : (source :: (targetsOf pairs source ++
      topology.candidates count source)).Nodup := by
    refine List.nodup_cons.2 ⟨fun member => ?_, List.nodup_append.2
      ⟨nodup_targetsOf numbered.distinct source, List.nodup_range.filter _, ?_⟩⟩
    · rcases List.mem_append.1 member with target | candidate
      · exact numbered.loopFree _ (mem_targetsOf.1 target) rfl
      · exact (numbered.mem_candidates_iff.1 candidate).2.1 rfl
    · rintro target linked _ candidate rfl
      exact (numbered.mem_candidates_iff.1 candidate).2.2 (mem_targetsOf.1 linked)
  refine (List.perm_ext_iff_of_nodup distinct List.nodup_range).2 fun number => ?_
  rw [List.mem_cons, List.mem_append, mem_targetsOf, numbered.mem_candidates_iff, List.mem_range]
  constructor
  · rintro (rfl | linked | ⟨below, -⟩)
    · exact inside
    · exact (numbered.inside _ linked).2
    · exact below
  · intro below
    by_cases self : number = source
    · exact .inl self
    · by_cases linked : (source, number) ∈ pairs
      · exact .inr (.inl linked)
      · exact .inr (.inr ⟨below, self, linked⟩)

theorem Numbered.length_candidates (numbered : Numbered count pairs topology)
    (inside : source < count) :
    (topology.candidates count source).length =
      count - 1 - pairs.countP (·.1 = source) := by
  have total := (numbered.targets_and_candidates inside).length_eq
  simp only [List.length_cons, List.length_append, length_targetsOf, List.length_range] at total
  omega

/-! ## Extra links -/

variable {G : Type} [RandomSource G] {state : Topology R × G}

/-- A node is linked to new targets: as many as asked for, or all others. -/
theorem Numbered.linkExtra (numbered : Numbered count pairs state.1) (extra : Nat)
    (inside : source < count) :
    ∃ chosen : List Nat,
      Numbered count (pairs ++ chosen.map (source, ·)) (linkExtra count extra state source).1 ∧
        chosen.length = min extra (count - 1 - pairs.countP (·.1 = source)) := by
  let shuffled := (RandomSource.shuffle (state.1.candidates count source) state.2).1
  have drawn : shuffled.Perm (state.1.candidates count source) :=
    RandomSource.perm_shuffle _ state.2
  have candidate : ∀ target ∈ shuffled.take extra, target < count ∧ target ≠ source ∧
      (source, target) ∉ pairs := fun target member =>
    numbered.mem_candidates_iff.1 (drawn.mem_iff.1 (List.mem_of_mem_take member))
  have distinct : (shuffled.take extra).Nodup :=
    (drawn.nodup_iff.2 (List.nodup_range.filter _)).sublist (List.take_sublist _ _)
  refine ⟨shuffled.take extra, numbered.links_of_new ?_ ?_ ?_, ?_⟩
  · exact List.forall_mem_map.2 fun target member => ⟨inside, (candidate target member).1⟩
  · exact List.forall_mem_map.2 fun target member => (candidate target member).2.1.symm
  · refine List.nodup_append.2 ⟨numbered.distinct,
      distinct.map fun _ _ same => (Prod.mk.inj same).2, ?_⟩
    intro pair known _ added same
    obtain ⟨target, member, rfl⟩ := List.mem_map.1 added
    exact (candidate target member).2.2 (same ▸ known)
  · rw [List.length_take, drawn.length_eq, numbered.length_candidates inside]

/-- Each node in turn gets its extra links, and the links of the others stay. -/
theorem Numbered.linkExtras {sources : List Nat} (numbered : Numbered count pairs state.1)
    (extra : Nat) (inside : ∀ source ∈ sources, source < count) (distinct : sources.Nodup) :
    ∃ linked, Numbered count linked (sources.foldl (Topology.linkExtra count extra) state).1 ∧
      pairs ⊆ linked ∧
      ∀ number, linked.countP (·.1 = number) = pairs.countP (·.1 = number) +
        if number ∈ sources then min extra (count - 1 - pairs.countP (·.1 = number)) else 0 := by
  induction sources generalizing pairs state with
  | nil => exact ⟨pairs, numbered, List.Subset.refl _, by simp⟩
  | cons source rest ih =>
    obtain ⟨insideSource, insideRest⟩ := List.forall_mem_cons.1 inside
    obtain ⟨notLater, distinctRest⟩ := List.nodup_cons.1 distinct
    obtain ⟨chosen, numberedNext, chosenCount⟩ := numbered.linkExtra extra insideSource
    obtain ⟨linked, numberedLinked, kept, counted⟩ := ih numberedNext insideRest distinctRest
    have next (number : Nat) : (pairs ++ chosen.map (source, ·)).countP (·.1 = number) =
        pairs.countP (·.1 = number) + if number = source then chosen.length else 0 := by
      rw [List.countP_append, List.countP_map]
      by_cases same : number = source
      · subst same
        simp [Function.comp_def]
      · simp [Function.comp_def, same, Ne.symm same]
    refine ⟨linked, numberedLinked, fun pair known => kept (List.mem_append_left _ known), ?_⟩
    intro number
    rw [counted, next]
    by_cases same : number = source
    · subst same
      simp [notLater, chosenCount]
    · simp [same]

theorem nodes_foldl_linkExtra (count extra : Nat) (state : Topology R × G)
    (sources : List Nat) :
    (sources.foldl (Topology.linkExtra count extra) state).1.nodes = state.1.nodes :=
  view_foldl (fun state : Topology R × G => state.1.nodes)
    (fun _ _ => nodes_foldl_link _ _) state sources

end

/-! ## The whole graph -/

/-- The links of the ring, one from each node. -/
def ringPairs (count : Nat) : List (Nat × Nat) :=
  if count > 1 then (List.range count).map fun i => (i, (i + 1) % count) else []

theorem mem_ringPairs_iff {count source target : Nat} :
    (source, target) ∈ ringPairs count ↔
      1 < count ∧ source < count ∧ target = (source + 1) % count := by
  unfold ringPairs
  split
  · next several => simp [several, eq_comm]
  · next few => simp [few]

theorem nodup_ringPairs (count : Nat) : (ringPairs count).Nodup := by
  unfold ringPairs
  split
  · exact List.nodup_range.map fun _ _ same => (Prod.mk.inj same).1
  · exact .nil

theorem countP_ringPairs {count source : Nat} (inside : source < count) :
    (ringPairs count).countP (·.1 = source) = if 1 < count then 1 else 0 := by
  unfold ringPairs
  split
  · have self : List.countP (fun i => decide (i = source)) (List.range count) = 1 := by
      rw [← List.count_eq_one_of_mem List.nodup_range (List.mem_range.2 inside), List.count]
      exact List.countP_congr fun i _ => by simp
    rw [List.countP_map]
    exact self
  · rfl

variable {R : Type} [Scalar R] {G : Type} [RandomSource G]

theorem numbered_ring (name : String) (count : Nat) (version : String) (overrides : Overrides) :
    Numbered count (ringPairs count)
      ((ringPairs count).foldl link (numbered name count version overrides : Topology R)) := by
  have start : Numbered count [] (numbered name count version overrides : Topology R) :=
    numbered_start name count version overrides
  have nextInside {source target : Nat} (listed : (source, target) ∈ ringPairs count) :
      source < count ∧ target < count ∧ source ≠ target := by
    obtain ⟨several, inside, rfl⟩ := mem_ringPairs_iff.1 listed
    refine ⟨inside, Nat.mod_lt _ (by omega), ?_⟩
    rw [← Template.next_eq inside]
    split <;> omega
  have inside : ∀ pair ∈ ringPairs count, pair.1 < count ∧ pair.2 < count :=
    fun pair listed => ⟨(nextInside listed).1, (nextInside listed).2.1⟩
  have apart : ∀ pair ∈ ringPairs count, pair.1 ≠ pair.2 :=
    fun pair listed => (nextInside listed).2.2
  simpa using start.links_of_new inside apart (nodup_ringPairs count)

/-- Whatever is drawn, the graph is a valid topology of the numbered nodes, it contains the ring,
and each node has its ring link and the extra links asked for, as far as there are nodes left. -/
theorem cycle_outbound (count extra : Nat) (version : String) (overrides : Overrides)
    (source : G) :
    let topology : Topology R := (cycle count extra version overrides source).1
    topology.nodes.map (·.id) = (List.range count).map NodeId.ofNat ∧
      (∀ node ∈ topology.nodes, node.version = some version ∧ node.overrides = overrides) ∧
      topology.validate = .ok () ∧
      (1 < count → ∀ i < count, ⟨.ofNat i, .ofNat ((i + 1) % count)⟩ ∈ topology.edges) ∧
      ∀ i < count, (topology.degree (.ofNat i)).outbound =
        if 1 < count then min (count - 1) (1 + extra) else 0 := by
  intro topology
  let ringed : Topology R × G := ((ringPairs count).foldl link
    (numbered ("cycle_" ++ Nat.repr count) count version overrides), source)
  have ring : Numbered count (ringPairs count) ringed.1 :=
    numbered_ring _ count version overrides
  have nodesInside : ∀ i ∈ List.range count, i < count := fun _ => List.mem_range.1
  obtain ⟨linked, numberedLinked, kept, counted⟩ :=
    ring.linkExtras extra nodesInside List.nodup_range
  have whole : Numbered count linked topology := numberedLinked
  have nodes : topology.nodes = numberedNodes count version overrides :=
    (nodes_foldl_linkExtra count extra (_, source) (List.range count)).trans
      (nodes_foldl_link _ _)
  refine ⟨whole.ids, ?_, validate_eq_ok_iff.2 whole.valid, fun several i inside => ?_,
    fun i inside => ?_⟩
  · simp [nodes, numberedNodes]
  · exact whole.mem_edges_iff.2 (kept (mem_ringPairs_iff.2 ⟨several, inside, rfl⟩))
  · rw [whole.outbound, counted, countP_ringPairs inside, if_pos (List.mem_range.2 inside)]
    split
    · omega
    · omega

theorem cycle_outbound_dozen :
    let topology : Topology Float :=
      (cycle 12 7 "26.0" .empty (Random.Stream.ofSeed 7)).1
    (1 < 12 ∧ 11 < 12) ∧ topology.validate = .ok () ∧
      ⟨.ofNat 11, .ofNat 0⟩ ∈ topology.edges ∧ (topology.degree (.ofNat 11)).outbound = 8 := by
  obtain ⟨-, -, valid, ring, outbound⟩ :=
    cycle_outbound (R := Float) 12 7 "26.0" .empty (Random.Stream.ofSeed 7)
  exact ⟨by decide, valid, ring (by decide) 11 (by decide), outbound 11 (by decide)⟩

end PeerNet.Topology
