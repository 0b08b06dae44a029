import PeerNet.Topology.Basic

/-!
# Links between places

The links of a topology as pairs of places in its node list. Links that name no
node and links from a node to itself are left out; of several nodes with one id
the last one counts.
-/

set_option autoImplicit false

namespace PeerNet.Layout

/-- The last place of an id, counted from `start`. -/
def lastPlaceFrom? (start : Nat) (ids : List NodeId) (id : NodeId) : Option Nat :=
  match ids with
  | [] => none
  | first :: rest =>
    match lastPlaceFrom? (start + 1) rest id with
    | some place => some place
    | none => if first = id then some start else none

theorem getElem?_of_lastPlaceFrom? {start : Nat} {ids : List NodeId} {id : NodeId} {place : Nat}
    (found : lastPlaceFrom? start ids id = some place) :
    start ≤ place ∧ ids[place - start]? = some id := by
  induction ids generalizing start with
  | nil => cases found
  | cons first rest ih =>
    rw [lastPlaceFrom?] at found
    split at found
    · next later known =>
      cases found
      obtain ⟨behind, there⟩ := ih known
      have shifted : place - start = (place - (start + 1)) + 1 := by omega
      exact ⟨by omega, by rw [shifted, List.getElem?_cons_succ, there]⟩
    · split at found
      · next same =>
        cases found
        exact ⟨Nat.le_refl _, by rw [Nat.sub_self, List.getElem?_cons_zero, same]⟩
      · cases found

theorem lastPlaceFrom?_eq_none {start : Nat} {ids : List NodeId} {id : NodeId}
    (missing : lastPlaceFrom? start ids id = none) : id ∉ ids := by
  induction ids generalizing start with
  | nil => exact List.not_mem_nil
  | cons first rest ih =>
    rw [lastPlaceFrom?] at missing
    split at missing
    · cases missing
    · next absent =>
      split at missing
      · cases missing
      · next apart =>
        intro member
        rcases List.mem_cons.1 member with same | later
        · exact apart same.symm
        · exact ih absent later

def lastPlace? (ids : List NodeId) (id : NodeId) : Option Nat :=
  lastPlaceFrom? 0 ids id

theorem getElem?_of_lastPlace? {ids : List NodeId} {id : NodeId} {place : Nat}
    (found : lastPlace? ids id = some place) : ids[place]? = some id :=
  (getElem?_of_lastPlaceFrom? found).2

theorem lastPlace?_eq_none {ids : List NodeId} {id : NodeId}
    (missing : lastPlace? ids id = none) : id ∉ ids :=
  lastPlaceFrom?_eq_none missing

def indexedLink? (ids : List NodeId) (edge : Edge) : Option (Nat × Nat) :=
  match lastPlace? ids edge.source, lastPlace? ids edge.target with
  | some source, some target => if source = target then none else some (source, target)
  | _, _ => none

def indexedLinks {R : Type} (topology : Topology R) : List (Nat × Nat) :=
  topology.edges.filterMap (indexedLink? (topology.nodes.map (·.id)))

end PeerNet.Layout
