import Mathlib.Data.List.Induction
import PeerNet.Proofs.Topology.Sanitize

/-!
# What seeding keeps

Seeding keeps the first node of each id and the first link of each ordered pair of
different ids that name kept nodes, both in their order. The sanitizer decides this
item by item against what it kept so far, the validity check against what it has
seen: they agree, so seeding leaves exactly the valid topologies as they are.
-/

set_option autoImplicit false

namespace PeerNet

/-! ## First occurrences -/

section

variable {α β : Type} [DecidableEq β]

/-- The items whose key no item before them has, in their order. -/
def firstOccurrences (key : α → β) (items : List α) : List α :=
  (items.zipIdx.filter fun (item, place) => key item ∉ (items.take place).map key).map (·.1)

example : firstOccurrences (· % 3) [1, 4, 2, 5, 3] = [1, 2, 3] := by decide

variable (key : α → β)

theorem firstOccurrences_append_singleton (items : List α) (last : α) :
    firstOccurrences key (items ++ [last]) =
      firstOccurrences key items ++ if key last ∈ items.map key then [] else [last] := by
  have before : ∀ indexed ∈ items.zipIdx,
      decide (key indexed.1 ∉ ((items ++ [last]).take indexed.2).map key) =
        decide (key indexed.1 ∉ (items.take indexed.2).map key) := by
    rintro ⟨item, place⟩ member
    have inside : place < items.length := (List.mem_zipIdx' member).1
    rw [List.take_append_of_le_length (Nat.le_of_lt inside)]
  rw [firstOccurrences, firstOccurrences, List.zipIdx_append, List.filter_append,
    List.filter_congr before, List.map_append]
  congr 1
  by_cases known : key last ∈ items.map key
  · simp [known]
  · simp [known]

theorem mem_map_firstOccurrences {items : List α} {value : β} :
    value ∈ (firstOccurrences key items).map key ↔ value ∈ items.map key := by
  induction items using List.reverseRecOn with
  | nil => rfl
  | append_singleton items last ih =>
    rw [firstOccurrences_append_singleton, List.map_append, List.map_append, List.mem_append,
      List.mem_append, ih]
    by_cases known : key last ∈ items.map key
    · rw [if_pos known, List.map_nil, List.map_singleton, List.mem_singleton]
      constructor
      · rintro (earlier | none)
        · exact .inl earlier
        · cases none
      · rintro (earlier | rfl)
        · exact .inl earlier
        · exact .inl known
    · rw [if_neg known]

end

/-! ## The sanitizer -/

variable {R : Type}

namespace Sanitize

/-- What the sanitizer kept of some nodes, it goes on from as from all of them. -/
theorem nodes_firstOccurrences (done rest : List (Node R)) :
    nodes (firstOccurrences (·.id) done) rest = firstOccurrences (·.id) (done ++ rest) := by
  induction rest generalizing done with
  | nil => rw [nodes, List.append_nil]
  | cons node rest ih =>
    have seen : (firstOccurrences (·.id) done).any (·.id = node.id) = true ↔
        node.id ∈ done.map (·.id) :=
      Topology.any_id_eq_iff.trans (mem_map_firstOccurrences _)
    have next := ih (done ++ [node])
    rw [firstOccurrences_append_singleton, List.append_assoc] at next
    rw [nodes]
    split
    · next known => rwa [if_pos (seen.1 known), List.append_nil] at next
    · next unknown => rwa [if_neg (fun known => unknown (seen.2 known))] at next

instance (live : List (Node R)) : DecidablePred (Admitted live) :=
  fun _ => inferInstanceAs (Decidable (_ ∧ _ ∧ _))

theorem edges_firstOccurrences (live : List (Node R)) (done rest : List Edge) :
    edges live (firstOccurrences id (done.filter (Admitted live ·))) rest =
      firstOccurrences id ((done ++ rest).filter (Admitted live ·)) := by
  induction rest generalizing done with
  | nil => rw [edges, List.append_nil]
  | cons edge rest ih =>
    have next := ih (done ++ [edge])
    rw [List.append_assoc, List.filter_append] at next
    have admitted : (edge.source ≠ edge.target ∧ live.any (·.id = edge.source) = true ∧
        live.any (·.id = edge.target) = true) ↔ Admitted live edge := by
      rw [Topology.any_id_eq_iff, Topology.any_id_eq_iff, Admitted]
    have seen : edge ∈ (firstOccurrences id (done.filter (Admitted live ·))).map id ↔
        edge ∈ (done.filter (Admitted live ·)).map id := mem_map_firstOccurrences id
    rw [List.map_id, List.map_id] at seen
    -- The sanitizer asks whether it kept the edge, which it did if an admitted one came before.
    by_cases sound : Admitted live edge
    · obtain ⟨apart, source, target⟩ := admitted.2 sound
      have added : [edge].filter (Admitted live ·) = [edge] := by simp [sound]
      rw [added, firstOccurrences_append_singleton, List.map_id] at next
      by_cases known : edge ∈ done.filter (Admitted live ·)
      · rw [id, if_pos known, List.append_nil] at next
        rwa [edges, if_neg fun valid => valid.2.2.2 (seen.2 known)]
      · rw [id, if_neg known] at next
        rwa [edges, if_pos ⟨apart, source, target, fun kept => known (seen.1 kept)⟩]
    · have skipped : [edge].filter (Admitted live ·) = [] := by simp [sound]
      rw [skipped, List.append_nil] at next
      rwa [edges, if_neg fun valid => sound (admitted.1 ⟨valid.1, valid.2.1, valid.2.2.1⟩)]

end Sanitize

namespace Topology

theorem sanitized_eq_iff {topology : Topology R} :
    topology.sanitized.nodes = topology.nodes ∧ topology.sanitized.edges = topology.edges ↔
      topology.Valid := by
  constructor
  · rintro ⟨nodes, edges⟩
    have same : topology.sanitized = topology := by
      calc topology.sanitized
          = { topology with
              nodes := topology.sanitized.nodes, edges := topology.sanitized.edges } := rfl
        _ = topology := by rw [nodes, edges]
    exact same ▸ topology.valid_sanitized
  · intro valid
    rw [sanitized_of_valid valid]
    exact ⟨rfl, rfl⟩

end Topology

namespace Store

/-- Seeding with what is stored counts as one more change and is none. -/
theorem seed_stored (store : Store R) (topology : Topology R) :
    (store.seed topology).seed (store.seed topology).topology = (store.seed topology).bump := by
  have stored : (store.seed topology).topology = topology.sanitized := rfl
  rw [stored, seed, topology.sanitized_sanitized]
  rfl

/-- Seeding stores the first node of each id and the first link of each ordered pair of
different ids that name stored nodes. That is all nodes and links exactly when the
topology passes the validity check, so what is stored is stored again as it is. -/
theorem seed_keeps_first_occurrences (store : Store R) (topology : Topology R) :
    let stored := (store.seed topology).topology
    stored.nodes = firstOccurrences (·.id) topology.nodes ∧
      stored.edges = firstOccurrences id (topology.edges.filter fun edge =>
        edge.source ≠ edge.target ∧ stored.hasNode edge.source ∧ stored.hasNode edge.target) ∧
      (stored.nodes = topology.nodes ∧ stored.edges = topology.edges ↔
        topology.validate = .ok ()) ∧
      (store.seed topology).seed stored = (store.seed topology).bump := by
  intro stored
  have sanitized : stored = topology.sanitized := rfl
  have admitted : ∀ edge ∈ topology.edges,
      decide (Sanitize.Admitted stored.nodes edge) = decide (edge.source ≠ edge.target ∧
        stored.hasNode edge.source = true ∧ stored.hasNode edge.target = true) := by
    intro edge _
    rw [decide_eq_decide, Topology.hasNode_eq_true_iff, Topology.hasNode_eq_true_iff]
    rfl
  refine ⟨Sanitize.nodes_firstOccurrences [] topology.nodes, ?_, ?_, store.seed_stored topology⟩
  · rw [← List.filter_congr admitted]
    exact Sanitize.edges_firstOccurrences stored.nodes [] topology.edges
  · rw [sanitized, Topology.sanitized_eq_iff, Topology.validate_eq_ok_iff]

end Store

end PeerNet
