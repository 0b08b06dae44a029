import Mathlib.Algebra.BigOperators.Intervals
import Mathlib.Logic.Relation
import PeerNet.Proofs.Topology.Linking

/-!
# The links of the connection patterns

Each pattern links exactly the pairs of nodes that it is named for: a star every other node to
the first, a mesh each two nodes both ways, a ring each node to its two neighbours, and the last
pattern each node to all before it, so that its links never lead back. The links are counted row
by row, by the nodes that they leave.
-/

set_option autoImplicit false

namespace PeerNet

namespace Template

/-- True of the ends of a pattern's links. -/
def Joins (template : Template) (count source target : Nat) : Prop :=
  match template with
  | .star => 0 < source ∧ source < count ∧ target = 0
  | .mesh => source < count ∧ target < count ∧ source ≠ target
  | .ring => source < count ∧ source ≠ target ∧
      (target = (source + 1) % count ∨ target = (source + (count - 1)) % count)
  | .dag => source < count ∧ target < source

def linkCount (template : Template) (count : Nat) : Nat :=
  match template with
  | .star => count - 1
  | .mesh => count * (count - 1)
  | .ring => if 3 ≤ count then 2 * count else if count = 2 then 2 else 0
  | .dag => count * (count - 1) / 2

variable {template : Template} {count source target : Nat}

theorem next_eq (inside : source < count) :
    (if source = count - 1 then 0 else source + 1) = (source + 1) % count := by
  split
  · next last =>
    have whole : source + 1 = count := by omega
    rw [whole, Nat.mod_self]
  · rw [Nat.mod_eq_of_lt (by omega)]

theorem previous_eq (inside : source < count) :
    (if source = 0 then count - 1 else source - 1) = (source + (count - 1)) % count := by
  split
  · next first => rw [first, Nat.zero_add, Nat.mod_eq_of_lt (by omega)]
  · have turned : source + (count - 1) = source - 1 + count := by omega
    rw [turned, Nat.add_mod_right, Nat.mod_eq_of_lt (by omega)]

theorem mem_pairs_ring (several : 1 < count) :
    (source, target) ∈ pairs .ring count ↔ source < count ∧
      (target = (source + 1) % count ∨ target = (source + (count - 1)) % count) := by
  simp only [pairs, if_neg (Nat.not_le.2 several), List.mem_flatMap, List.mem_range,
    List.mem_cons, Prod.mk.injEq, List.not_mem_nil, or_false]
  constructor
  · rintro ⟨i, inside, ⟨rfl, rfl⟩ | ⟨rfl, rfl⟩⟩
    · exact ⟨inside, .inr (previous_eq inside)⟩
    · exact ⟨inside, .inl (next_eq inside)⟩
  · rintro ⟨inside, rfl | rfl⟩
    · exact ⟨source, inside, .inr ⟨rfl, (next_eq inside).symm⟩⟩
    · exact ⟨source, inside, .inl ⟨rfl, (previous_eq inside).symm⟩⟩

/-- Among the pairs that a pattern asks for, the proper ones are its links. -/
theorem mem_pairs_iff :
    (source, target) ∈ template.pairs count ∧ source ≠ target ↔
      template.Joins count source target := by
  cases template with
  | star =>
    simp only [pairs, Joins, List.range_eq_range', List.drop_range', List.mem_map,
      List.mem_range'_1, Prod.mk.injEq]
    constructor
    · rintro ⟨⟨i, inside, rfl, rfl⟩, apart⟩
      omega
    · rintro ⟨positive, inside, rfl⟩
      exact ⟨⟨source, by omega, rfl, rfl⟩, by omega⟩
  | mesh => simp [pairs, Joins, and_assoc]
  | ring =>
    rcases Nat.lt_or_ge 1 count with several | few
    · rw [mem_pairs_ring several, Joins]
      tauto
    · have alone : source < count → (source + 1) % count = source ∧
          (source + (count - 1)) % count = source := by
        intro inside
        obtain ⟨rfl, rfl⟩ : count = 1 ∧ source = 0 := by omega
        decide
      simp only [pairs, if_pos few, Joins, List.not_mem_nil, false_and, false_iff]
      rintro ⟨inside, apart, rfl | rfl⟩
      · exact apart (alone inside).1.symm
      · exact apart (alone inside).2.symm
  | dag =>
    simp only [pairs, Joins, List.mem_flatMap, List.mem_range, List.mem_map, Prod.mk.injEq]
    constructor
    · rintro ⟨⟨i, inside, j, before, rfl, rfl⟩, -⟩
      exact ⟨inside, before⟩
    · rintro ⟨inside, before⟩
      exact ⟨⟨source, inside, target, before, rfl, rfl⟩, by omega⟩

theorem Joins.inside (joins : template.Joins count source target) :
    source < count ∧ target < count := by
  cases template with
  | star =>
    obtain ⟨positive, inside, rfl⟩ := joins
    exact ⟨inside, by omega⟩
  | mesh => exact ⟨joins.1, joins.2.1⟩
  | ring =>
    obtain ⟨inside, -, rfl | rfl⟩ := joins
    · exact ⟨inside, Nat.mod_lt _ (by omega)⟩
    · exact ⟨inside, Nat.mod_lt _ (by omega)⟩
  | dag =>
    obtain ⟨inside, before⟩ := joins
    exact ⟨inside, by omega⟩

/-! ## Counting -/

/-- The nodes that a node is linked to. -/
def targets (template : Template) (count source : Nat) : List Nat :=
  match template with
  | .star => if source = 0 then [] else [0]
  | .mesh => (List.range count).filter (· ≠ source)
  | .ring =>
    if 3 ≤ count then [(source + 1) % count, (source + (count - 1)) % count]
    else if count = 2 then [1 - source] else []
  | .dag => List.range source

/-- Of three nodes or more in a ring, the neighbours of one are two others. -/
theorem neighbours_ne (several : 3 ≤ count) (inside : source < count) :
    (source + 1) % count ≠ source ∧ (source + (count - 1)) % count ≠ source ∧
      (source + 1) % count ≠ (source + (count - 1)) % count := by
  rw [← next_eq inside, ← previous_eq inside]
  split <;> split <;> omega

theorem mem_targets_iff (inside : source < count) :
    target ∈ template.targets count source ↔ template.Joins count source target := by
  cases template with
  | star =>
    by_cases first : source = 0 <;> simp [targets, Joins, first, inside]
    omega
  | mesh =>
    simp only [targets, Joins, List.mem_filter, List.mem_range, decide_eq_true_eq]
    omega
  | ring =>
    simp only [targets, Joins, inside, true_and]
    split
    · next several =>
      obtain ⟨next, previous, -⟩ := neighbours_ne several inside
      simp only [List.mem_cons, List.not_mem_nil, or_false]
      constructor
      · rintro (rfl | rfl)
        · exact ⟨next.symm, .inl rfl⟩
        · exact ⟨previous.symm, .inr rfl⟩
      · exact And.right
    · split
      · next two =>
        subst two
        have : source = 0 ∨ source = 1 := by omega
        rcases this with rfl | rfl <;> simp <;> omega
      · obtain ⟨rfl, rfl⟩ : count = 1 ∧ source = 0 := by omega
        simp
        omega
  | dag => simp [targets, Joins, inside]

theorem nodup_targets (inside : source < count) : (template.targets count source).Nodup := by
  cases template with
  | star =>
    rw [targets]
    split <;> simp
  | mesh => exact List.nodup_range.filter _
  | ring =>
    rw [targets]
    split
    · next several => simpa using (neighbours_ne several inside).2.2
    · split <;> simp
  | dag => exact List.nodup_range

theorem length_targets (inside : source < count) :
    (template.targets count source).length =
      match template with
      | .star => if source = 0 then 0 else 1
      | .mesh => count - 1
      | .ring => if 3 ≤ count then 2 else if count = 2 then 1 else 0
      | .dag => source := by
  cases template with
  | star => by_cases first : source = 0 <;> simp [targets, first]
  | mesh =>
    have erased : (List.range count).filter (· ≠ source) = (List.range count).erase source := by
      rw [List.nodup_range.erase_eq_filter]
      refine List.filter_congr fun other _ => ?_
      by_cases same : other = source <;> simp [same]
    rw [targets, erased, List.length_erase_of_mem (List.mem_range.2 inside), List.length_range]
  | ring =>
    simp only [targets]
    split
    · rfl
    · split <;> rfl
  | dag => exact List.length_range

theorem sum_length_targets (template : Template) (count : Nat) :
    ∑ source ∈ Finset.range count, (template.targets count source).length =
      template.linkCount count := by
  have row (source : Nat) (member : source ∈ Finset.range count) :=
    @length_targets template count source (Finset.mem_range.1 member)
  rw [Finset.sum_congr rfl row]
  cases template with
  | star =>
    cases count with
    | zero => rfl
    | succ others =>
      have ones : ∑ _ ∈ Finset.range others, 1 = others := by
        rw [Finset.sum_const_nat (fun _ _ => rfl), Finset.card_range, Nat.mul_one]
      rw [Finset.sum_range_succ']
      exact ones
  | mesh =>
    rw [Finset.sum_const_nat (fun _ _ => rfl), Finset.card_range]
    rfl
  | ring =>
    rw [Finset.sum_const_nat (fun _ _ => rfl), Finset.card_range, linkCount]
    split
    · exact Nat.mul_comm count 2
    · split
      · next two => rw [two]
      · rfl
  | dag => exact Finset.sum_range_id count

end Template

/-! ## Generated patterns -/

namespace Topology

/-- Pairs that are told row by row are as many as the rows have items. -/
theorem length_of_rows {count : Nat} {pairs : List (Nat × Nat)} {rows : Nat → List Nat}
    (distinct : pairs.Nodup) (distinctRows : ∀ source < count, (rows source).Nodup)
    (listed : ∀ source target,
      (source, target) ∈ pairs ↔ source < count ∧ target ∈ rows source) :
    pairs.length = ∑ source ∈ Finset.range count, (rows source).length := by
  let told := (List.range count).flatMap fun source => (rows source).map (source, ·)
  have distinctTold : told.Nodup := by
    refine List.nodup_flatMap.2 ⟨fun source member => ?_, ?_⟩
    · have distinctRow := distinctRows source (List.mem_range.1 member)
      exact distinctRow.map fun _ _ same => (Prod.mk.inj same).2
    · refine List.nodup_range.pairwise_of_forall_ne fun first _ second _ apart => ?_
      intro pair inFirst inSecond
      obtain ⟨_, -, rfl⟩ := List.mem_map.1 inFirst
      obtain ⟨_, -, same⟩ := List.mem_map.1 inSecond
      exact apart (Prod.mk.inj same).1.symm
  have same : pairs.Perm told := by
    refine (List.perm_ext_iff_of_nodup distinct distinctTold).2 ?_
    rintro ⟨source, target⟩
    simp [told, listed]
  rw [same.length_eq, List.length_flatMap]
  simp only [List.length_map]
  rfl

/-- The links that a pattern is named for, each told once, are as many as counted. -/
theorem length_of_joins {template : Template} {count : Nat} {pairs : List (Nat × Nat)}
    (distinct : pairs.Nodup)
    (listed : ∀ source target, (source, target) ∈ pairs ↔ template.Joins count source target) :
    pairs.length = template.linkCount count := by
  have rows (source target : Nat) : (source, target) ∈ pairs ↔
      source < count ∧ target ∈ template.targets count source := by
    rw [listed]
    exact ⟨fun joins => ⟨joins.inside.1, (Template.mem_targets_iff joins.inside.1).2 joins⟩,
      fun ⟨inside, target⟩ => (Template.mem_targets_iff inside).1 target⟩
  rw [length_of_rows distinct (fun _ => Template.nodup_targets) rows, Template.sum_length_targets]

variable {R : Type} [Scalar R]

theorem exists_numbered_ofTemplate (template : Template) (count : Nat) (version : String) :
    ∃ pairs, Numbered count pairs (ofTemplate template count version : Topology R) ∧
      ∀ source target, (source, target) ∈ pairs ↔ template.Joins count source target := by
  have start : Numbered count [] (numbered (template.word ++ "_" ++ Nat.repr count) count version
      .empty : Topology R) := numbered_start _ count version .empty
  have inside : ∀ pair ∈ template.pairs count, pair.1 ≠ pair.2 →
      pair.1 < count ∧ pair.2 < count := fun _ asked apart =>
    (Template.mem_pairs_iff.1 ⟨asked, apart⟩).inside
  obtain ⟨pairs, numberedPairs, listed⟩ := start.links inside
  refine ⟨pairs, numberedPairs, fun source target => ?_⟩
  rw [listed, or_iff_right List.not_mem_nil]
  exact Template.mem_pairs_iff

omit [Scalar R] in
/-- Links that only ever lead to smaller numbers lead in no circle. -/
theorem Numbered.acyclic {topology : Topology R} {count : Nat} {pairs : List (Nat × Nat)}
    (numbered : Numbered count pairs topology) (back : ∀ pair ∈ pairs, pair.2 < pair.1)
    (id : NodeId) :
    ¬Relation.TransGen (fun source target => ⟨source, target⟩ ∈ topology.edges) id id := by
  have falls {source target : NodeId}
      (way : Relation.TransGen (fun source target => ⟨source, target⟩ ∈ topology.edges)
        source target) :
      ∃ first last, source = .ofNat first ∧ target = .ofNat last ∧ last < first := by
    induction way with
    | single listed =>
      obtain ⟨first, last, same, member⟩ := numbered.mem_edges.1 listed
      cases same
      exact ⟨first, last, rfl, rfl, back _ member⟩
    | tail _ listed ih =>
      obtain ⟨first, middle, rfl, rfl, later⟩ := ih
      obtain ⟨start, last, same, member⟩ := numbered.mem_edges.1 listed
      obtain ⟨joint, rfl⟩ := Edge.mk.inj same
      obtain rfl := NodeId.ofNat_inj.1 joint
      exact ⟨first, last, rfl, rfl, (back _ member).trans later⟩
  intro circle
  obtain ⟨first, last, rfl, same, falling⟩ := falls circle
  exact falling.ne' (NodeId.ofNat_inj.1 same)

/-- A pattern gives a valid topology with exactly the links that it is named for. -/
theorem ofTemplate_links (template : Template) (count : Nat) (version : String) :
    let topology : Topology R := ofTemplate template count version
    topology.nodes.map (·.id) = (List.range count).map NodeId.ofNat ∧
      topology.validate = .ok () ∧
      (∀ edge, edge ∈ topology.edges ↔ ∃ source target,
        edge = ⟨.ofNat source, .ofNat target⟩ ∧ template.Joins count source target) ∧
      topology.edges.length = template.linkCount count ∧
      (template = .dag → ∀ id, ¬Relation.TransGen
        (fun source target => ⟨source, target⟩ ∈ topology.edges) id id) := by
  intro topology
  obtain ⟨pairs, numbered, listed⟩ := exists_numbered_ofTemplate (R := R) template count version
  refine ⟨numbered.ids, validate_eq_ok_iff.2 numbered.valid, fun edge => ?_, ?_, ?_⟩
  · refine numbered.mem_edges.trans ?_
    simp only [listed]
  · rw [numbered.edges, List.length_map]
    exact length_of_joins numbered.distinct listed
  · rintro rfl
    exact numbered.acyclic fun pair member => ((listed pair.1 pair.2).1 member).2

theorem ofTemplate_links_dag :
    let topology : Topology Float := ofTemplate .dag 4 "26.0"
    topology.validate = .ok () ∧ topology.edges.length = 6 ∧
      ∀ id, ¬Relation.TransGen
        (fun source target => ⟨source, target⟩ ∈ topology.edges) id id := by
  obtain ⟨-, valid, -, counted, acyclic⟩ := ofTemplate_links (R := Float) .dag 4 "26.0"
  exact ⟨valid, counted, acyclic rfl⟩

end Topology

end PeerNet
