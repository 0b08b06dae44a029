import Mathlib.Data.List.Nodup
import PeerNet.Proofs.Topology.Validity
import PeerNet.Store.Basic

/-!
# Sanitized topologies are valid

Both passes of the sanitizer append to what they kept, and what they kept is
free of faults at every moment. Of what is faultless from the start they drop nothing.
-/

set_option autoImplicit false

namespace PeerNet

variable {R : Type}

namespace Sanitize

theorem nodup_nodes {kept rest : List (Node R)} (distinct : (kept.map (·.id)).Nodup) :
    ((nodes kept rest).map (·.id)).Nodup := by
  induction rest generalizing kept with
  | nil => exact distinct
  | cons node rest ih =>
    simp only [nodes]
    split
    · exact ih distinct
    · next unseen =>
      apply ih
      have fresh : node.id ∉ kept.map (·.id) := fun known =>
        unseen (Topology.any_id_eq_iff.2 known)
      rw [List.map_append, List.map_singleton, ← List.concat_eq_append]
      exact distinct.concat fresh

theorem mem_nodes {kept rest : List (Node R)} {node : Node R} (member : node ∈ nodes kept rest) :
    node ∈ kept ∨ node ∈ rest := by
  induction rest generalizing kept with
  | nil => exact .inl member
  | cons first rest ih =>
    simp only [nodes] at member
    split at member
    · exact (ih member).imp id (List.mem_cons_of_mem first)
    · rcases ih member with earlier | later
      · rcases List.mem_append.1 earlier with old | new
        · exact .inl old
        · exact .inr (List.mem_singleton.1 new ▸ List.mem_cons_self)
      · exact .inr (List.mem_cons_of_mem first later)

def Admitted (live : List (Node R)) (edge : Edge) : Prop :=
  edge.source ≠ edge.target ∧ edge.source ∈ live.map (·.id) ∧ edge.target ∈ live.map (·.id)

theorem admitted_edges {live : List (Node R)} {kept rest : List Edge}
    (admitted : ∀ edge ∈ kept, Admitted live edge) :
    ∀ edge ∈ edges live kept rest, Admitted live edge := by
  induction rest generalizing kept with
  | nil => exact admitted
  | cons edge rest ih =>
    simp only [edges]
    split
    · next valid =>
      obtain ⟨apart, source, target, _⟩ := valid
      apply ih
      intro other member
      rcases List.mem_append.1 member with old | new
      · exact admitted other old
      · rw [List.mem_singleton.1 new]
        exact ⟨apart, Topology.any_id_eq_iff.1 source, Topology.any_id_eq_iff.1 target⟩
    · exact ih admitted

theorem nodup_edges {live : List (Node R)} {kept rest : List Edge} (distinct : kept.Nodup) :
    (edges live kept rest).Nodup := by
  induction rest generalizing kept with
  | nil => exact distinct
  | cons edge rest ih =>
    simp only [edges]
    split
    · next valid =>
      obtain ⟨_, _, _, unseen⟩ := valid
      apply ih
      rw [← List.concat_eq_append]
      exact distinct.concat unseen
    · exact ih distinct

end Sanitize

/-- A sanitized topology is valid, whatever it was made of. -/
theorem Topology.valid_sanitized (topology : Topology R) : topology.sanitized.Valid := by
  have admitted : ∀ edge ∈ topology.sanitized.edges,
      Sanitize.Admitted topology.sanitized.nodes edge := Sanitize.admitted_edges (by simp)
  exact {
    uniqueIds := Sanitize.nodup_nodes (by simp)
    endsLive := fun edge member =>
      ⟨hasNode_eq_true_iff.2 (admitted edge member).2.1,
        hasNode_eq_true_iff.2 (admitted edge member).2.2⟩
    loopFree := fun edge member => (admitted edge member).1
    uniqueEdges := Sanitize.nodup_edges (by simp) }

/-! ## Faultless parts -/

namespace Sanitize

theorem nodes_eq_append {kept rest : List (Node R)}
    (distinct : ((kept ++ rest).map (·.id)).Nodup) : nodes kept rest = kept ++ rest := by
  induction rest generalizing kept with
  | nil => rw [nodes, List.append_nil]
  | cons node rest ih =>
    have unseen : ¬kept.any (·.id = node.id) = true := by
      intro seen
      rw [List.map_append, List.nodup_append] at distinct
      exact distinct.2.2 _ (Topology.any_id_eq_iff.1 seen) _ List.mem_cons_self rfl
    rw [nodes, if_neg unseen, ih (by rwa [List.append_assoc]), List.append_assoc]
    rfl

theorem edges_eq_append {live : List (Node R)} {kept rest : List Edge}
    (admitted : ∀ edge ∈ rest, Admitted live edge) (distinct : (kept ++ rest).Nodup) :
    edges live kept rest = kept ++ rest := by
  induction rest generalizing kept with
  | nil => rw [edges, List.append_nil]
  | cons edge rest ih =>
    obtain ⟨apart, source, target⟩ := admitted edge List.mem_cons_self
    have unseen : edge ∉ kept := fun seen =>
      (List.nodup_append.1 distinct).2.2 _ seen _ List.mem_cons_self rfl
    rw [edges, if_pos ⟨apart, Topology.any_id_eq_iff.2 source, Topology.any_id_eq_iff.2 target,
        unseen⟩,
      ih (fun other member => admitted other (List.mem_cons_of_mem edge member))
        (by rwa [List.append_assoc]), List.append_assoc]
    rfl

end Sanitize

/-- Nothing of a valid topology is dropped. -/
theorem Topology.sanitized_of_valid {topology : Topology R} (valid : topology.Valid) :
    topology.sanitized = topology := by
  have nodes : Sanitize.nodes [] topology.nodes = topology.nodes :=
    Sanitize.nodes_eq_append valid.uniqueIds
  have admitted : ∀ edge ∈ topology.edges, Sanitize.Admitted topology.nodes edge :=
    fun edge member => ⟨valid.loopFree edge member,
      hasNode_eq_true_iff.1 (valid.endsLive edge member).1,
      hasNode_eq_true_iff.1 (valid.endsLive edge member).2⟩
  have edges : Sanitize.edges topology.nodes [] topology.edges = topology.edges :=
    Sanitize.edges_eq_append admitted valid.uniqueEdges
  rw [Topology.sanitized, nodes, edges]

theorem Topology.sanitized_sanitized (topology : Topology R) :
    topology.sanitized.sanitized = topology.sanitized :=
  sanitized_of_valid topology.valid_sanitized

end PeerNet
