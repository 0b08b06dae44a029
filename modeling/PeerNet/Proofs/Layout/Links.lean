import PeerNet.Proofs.Layout.Acyclic
import PeerNet.Proofs.Layout.Covers
import PeerNet.Proofs.Topology.Validity

/-!
# Links and arcs

Where no two nodes have one id, the arcs that a topology is laid out by are its links
between different nodes, each end taken for its place. Ways along the arcs are then
ways along the links. Of arcs without a cycle nothing but their members matters to the
layout, so links may be listed in any order, repeated, or join nodes that are not there.
-/

set_option autoImplicit false

namespace PeerNet

variable {R : Type}

/-- An edge from one node of the topology to another. -/
structure Topology.Link (topology : Topology R) (source target : NodeId) : Prop where
  listed : ⟨source, target⟩ ∈ topology.edges
  apart : source ≠ target
  sourceLive : topology.hasNode source = true
  targetLive : topology.hasNode target = true

instance (topology : Topology R) (source target : NodeId) :
    Decidable (topology.Link source target) :=
  decidable_of_iff
    (⟨source, target⟩ ∈ topology.edges ∧ source ≠ target ∧
      topology.hasNode source = true ∧ topology.hasNode target = true)
    ⟨fun ⟨listed, apart, sourceLive, targetLive⟩ => ⟨listed, apart, sourceLive, targetLive⟩,
      fun link => ⟨link.listed, link.apart, link.sourceLive, link.targetLive⟩⟩

namespace Layout

/-! ## Places -/

theorem lastPlace?_eq_some_iff {ids : List NodeId} (distinct : ids.Nodup) {id : NodeId}
    {place : Nat} : lastPlace? ids id = some place ↔ ids[place]? = some id := by
  constructor
  · exact getElem?_of_lastPlace?
  · intro there
    obtain ⟨inside, -⟩ := List.getElem?_eq_some_iff.1 there
    cases found : lastPlace? ids id with
    | none => exact absurd (List.mem_of_getElem? there) (lastPlace?_eq_none found)
    | some other =>
      have also := getElem?_of_lastPlace? found
      exact congrArg some ((List.getElem?_inj inside distinct).1 (there.trans also.symm)).symm

theorem lt_of_named {topology : Topology R} {place : Nat} {id : NodeId}
    (there : (topology.nodes.map (·.id))[place]? = some id) : place < topology.nodes.length := by
  obtain ⟨inside, -⟩ := List.getElem?_eq_some_iff.1 there
  rwa [List.length_map] at inside

theorem indexedLink?_eq_some {ids : List NodeId} {edge : Edge} {arc : Nat × Nat}
    (indexed : indexedLink? ids edge = some arc) :
    ids[arc.1]? = some edge.source ∧ ids[arc.2]? = some edge.target ∧ arc.1 ≠ arc.2 ∧
      edge.source ≠ edge.target := by
  rw [indexedLink?] at indexed
  split at indexed
  · next sourceFound targetFound =>
    split at indexed
    · cases indexed
    · next apart =>
      cases indexed
      refine ⟨getElem?_of_lastPlace? sourceFound, getElem?_of_lastPlace? targetFound, apart,
        fun same => apart ?_⟩
      exact Option.some.inj (sourceFound.symm.trans (same ▸ targetFound))
  · cases indexed

theorem exists_indexedLink? {ids : List NodeId} {edge : Edge} (apart : edge.source ≠ edge.target)
    (sourceKnown : edge.source ∈ ids) (targetKnown : edge.target ∈ ids) :
    ∃ arc, indexedLink? ids edge = some arc := by
  rw [indexedLink?]
  cases sourceFound : lastPlace? ids edge.source with
  | none => exact absurd sourceKnown (lastPlace?_eq_none sourceFound)
  | some source =>
    cases targetFound : lastPlace? ids edge.target with
    | none => exact absurd targetKnown (lastPlace?_eq_none targetFound)
    | some target =>
      refine ⟨(source, target), if_neg fun same => apart ?_⟩
      have sourceThere := getElem?_of_lastPlace? sourceFound
      have targetThere := getElem?_of_lastPlace? targetFound
      exact Option.some.inj (sourceThere.symm.trans (same ▸ targetThere))

/-- Whatever the ids, an arc joins two different places of nodes that have a link. -/
theorem exists_link_of_mem_indexedLinks {topology : Topology R} {arc : Nat × Nat}
    (member : arc ∈ indexedLinks topology) :
    arc.1 ≠ arc.2 ∧ ∃ first last, (topology.nodes.map (·.id))[arc.1]? = some first ∧
      (topology.nodes.map (·.id))[arc.2]? = some last ∧ topology.Link first last := by
  obtain ⟨⟨first, last⟩, listed, indexed⟩ := List.mem_filterMap.1 member
  obtain ⟨sourceThere, targetThere, apart, idsApart⟩ := indexedLink?_eq_some indexed
  refine ⟨apart, first, last, sourceThere, targetThere, listed, idsApart, ?_, ?_⟩
  · exact Topology.hasNode_eq_true_iff.2 (List.mem_of_getElem? sourceThere)
  · exact Topology.hasNode_eq_true_iff.2 (List.mem_of_getElem? targetThere)

/-- The arcs are the links in the order of the edges, one for each edge that is one. -/
theorem map_names_indexedLinks (topology : Topology R) :
    (indexedLinks topology).map (fun arc =>
        ((topology.nodes.map (·.id))[arc.1]?, (topology.nodes.map (·.id))[arc.2]?)) =
      (topology.edges.filter fun edge => topology.Link edge.source edge.target).map
        fun edge => (some edge.source, some edge.target) := by
  have named : (topology.edges.filter fun edge => topology.Link edge.source edge.target).map
      (fun edge => (some edge.source, some edge.target)) =
        topology.edges.filterMap fun edge =>
          if topology.Link edge.source edge.target then some (some edge.source, some edge.target)
          else none := by
    simp [← List.filterMap_eq_map, List.filterMap_filter]
  rw [named, indexedLinks, List.map_filterMap]
  refine List.filterMap_congr fun edge listed => ?_
  by_cases link : topology.Link edge.source edge.target
  · obtain ⟨arc, indexed⟩ := exists_indexedLink? link.apart
      (Topology.hasNode_eq_true_iff.1 link.sourceLive)
      (Topology.hasNode_eq_true_iff.1 link.targetLive)
    obtain ⟨sourceThere, targetThere, -⟩ := indexedLink?_eq_some indexed
    simp only [indexed, Option.map_some, sourceThere, targetThere, if_pos link]
  · cases indexed : indexedLink? (topology.nodes.map (·.id)) edge with
    | none => simp [link]
    | some arc =>
      obtain ⟨sourceThere, targetThere, -, idsApart⟩ := indexedLink?_eq_some indexed
      refine absurd ⟨listed, idsApart, ?_, ?_⟩ link
      · exact Topology.hasNode_eq_true_iff.2 (List.mem_of_getElem? sourceThere)
      · exact Topology.hasNode_eq_true_iff.2 (List.mem_of_getElem? targetThere)

theorem mem_indexedLinks {topology : Topology R} (distinct : (topology.nodes.map (·.id)).Nodup)
    {source target : Nat} :
    (source, target) ∈ indexedLinks topology ↔ ∃ first last,
      (topology.nodes.map (·.id))[source]? = some first ∧
        (topology.nodes.map (·.id))[target]? = some last ∧ topology.Link first last := by
  constructor
  · intro member
    exact (exists_link_of_mem_indexedLinks member).2
  · rintro ⟨first, last, sourceThere, targetThere, link⟩
    refine List.mem_filterMap.2 ⟨⟨first, last⟩, link.listed, ?_⟩
    rw [indexedLink?, (lastPlace?_eq_some_iff distinct).2 sourceThere,
      (lastPlace?_eq_some_iff distinct).2 targetThere]
    refine if_neg fun same => link.apart ?_
    exact Option.some.inj (sourceThere.symm.trans (same ▸ targetThere))

variable {topology : Topology R} (distinct : (topology.nodes.map (·.id)).Nodup)

include distinct

theorem exists_linked {source target : NodeId} (link : topology.Link source target) :
    ∃ first last, (topology.nodes.map (·.id))[first]? = some source ∧
      (topology.nodes.map (·.id))[last]? = some target ∧
        Linked (indexedLinks topology) first last := by
  obtain ⟨first, firstThere⟩ :=
    List.getElem?_of_mem (Topology.hasNode_eq_true_iff.1 link.sourceLive)
  obtain ⟨last, lastThere⟩ :=
    List.getElem?_of_mem (Topology.hasNode_eq_true_iff.1 link.targetLive)
  exact ⟨first, last, firstThere, lastThere,
    (mem_indexedLinks distinct).2 ⟨_, _, firstThere, lastThere, link⟩⟩

theorem proper_indexedLinks : Proper topology.nodes.length (indexedLinks topology) := by
  constructor
  · intro arc member
    obtain ⟨_, _, sourceThere, _⟩ := (mem_indexedLinks distinct).1 member
    exact lt_of_named sourceThere
  · intro arc member
    obtain ⟨_, _, _, targetThere, _⟩ := (mem_indexedLinks distinct).1 member
    exact lt_of_named targetThere
  · intro arc member same
    obtain ⟨_, _, sourceThere, targetThere, link⟩ := (mem_indexedLinks distinct).1 member
    exact link.apart (Option.some.inj (sourceThere.symm.trans (same ▸ targetThere)))

/-! ## Ways -/

theorem links_of_reaches {first last : Nat} (reached : Reaches (indexedLinks topology) first last)
    {source target : NodeId} (sourceThere : (topology.nodes.map (·.id))[first]? = some source)
    (targetThere : (topology.nodes.map (·.id))[last]? = some target) :
    Relation.ReflTransGen topology.Link source target := by
  induction reached generalizing target with
  | refl =>
    obtain rfl := Option.some.inj (sourceThere.symm.trans targetThere)
    exact .refl
  | tail _ arc ih =>
    obtain ⟨_, _, middleThere, lastThere, link⟩ := (mem_indexedLinks distinct).1 arc
    obtain rfl := Option.some.inj (lastThere.symm.trans targetThere)
    exact (ih middleThere).tail link

theorem acyclic_indexedLinks (acyclic : ∀ id, ¬Relation.TransGen topology.Link id id) :
    Acyclic (indexedLinks topology) := by
  intro node cycle
  obtain ⟨middle, reached, arc⟩ := Relation.TransGen.tail'_iff.1 cycle
  obtain ⟨_, id, middleThere, there, link⟩ := (mem_indexedLinks distinct).1 arc
  exact acyclic id (.tail' (links_of_reaches distinct reached there middleThere) link)

/-! ## Links that come to the same -/

omit distinct

variable [Scalar R]

/-- The ranked layout looks at nothing of a topology but its ids and the arcs that are
left once the cycles are broken. -/
theorem rankedLayout_congr (settings : RankedSettings R) (canvas : Canvas R)
    {first second : Topology R} (sameIds : first.nodes.map (·.id) = second.nodes.map (·.id))
    (sameArcs : breakCycles first.nodes.length (indexedLinks first) =
      breakCycles first.nodes.length (indexedLinks second)) :
    rankedLayout settings canvas first = rankedLayout settings canvas second := by
  have sameCount : first.nodes.length = second.nodes.length := by
    simpa using congrArg List.length sameIds
  by_cases several : 2 ≤ first.nodes.length
  · rw [rankedLayout_of_several settings canvas several,
      rankedLayout_of_several settings canvas (sameCount ▸ several), sameIds, sameArcs, sameCount]
  · obtain none | single : first.nodes.length = 0 ∨ first.nodes.length = 1 := by omega
    · have firstNodes := List.eq_nil_of_length_eq_zero none
      have secondNodes := List.eq_nil_of_length_eq_zero (sameCount ▸ none)
      simp only [rankedLayout, firstNodes, secondNodes]
    · obtain ⟨one, firstNodes⟩ := List.length_eq_one_iff.1 single
      obtain ⟨other, secondNodes⟩ := List.length_eq_one_iff.1 (sameCount ▸ single)
      have same : one.id = other.id := by simpa [firstNodes, secondNodes] using sameIds
      simp only [rankedLayout, firstNodes, secondNodes, same]

/-- Without a directed cycle the ranked layout knows the links only as a set: it stays
the same when they are listed in another order or repeatedly, and when edges from a node
to itself or to a node that is not there come or go. -/
theorem rankedLayout_of_same_links (settings : RankedSettings R) (canvas : Canvas R)
    {first second : Topology R} (sameIds : first.nodes.map (·.id) = second.nodes.map (·.id))
    (distinct : (first.nodes.map (·.id)).Nodup)
    (sameLinks : ∀ source target, first.Link source target ↔ second.Link source target)
    (acyclic : ∀ id, ¬Relation.TransGen first.Link id id) :
    rankedLayout settings canvas first = rankedLayout settings canvas second := by
  have distinctSecond : (second.nodes.map (·.id)).Nodup := sameIds ▸ distinct
  have sameCount : second.nodes.length = first.nodes.length := by
    simpa using (congrArg List.length sameIds).symm
  have relation : first.Link = second.Link :=
    funext fun source => funext fun target => propext (sameLinks source target)
  have sameMembers : ∀ arc, arc ∈ indexedLinks first ↔ arc ∈ indexedLinks second := by
    intro arc
    rw [mem_indexedLinks distinct, mem_indexedLinks distinctSecond, sameIds, relation]
  refine rankedLayout_congr settings canvas sameIds ?_
  rw [breakCycles_of_acyclic (proper_indexedLinks distinct) (acyclic_indexedLinks distinct acyclic),
    breakCycles_of_acyclic (sameCount ▸ proper_indexedLinks distinctSecond)
      (acyclic_indexedLinks distinctSecond (relation ▸ acyclic))]
  exact dropRepeats_mergeSort_congr sameMembers

/-- Two ways from `a` to `c`. -/
def twoWays : Topology Float where
  id := 1
  name := "two ways"
  origin := .custom
  nodes := [.plain ⟨"a"⟩ "a", .plain ⟨"b"⟩ "b", .plain ⟨"c"⟩ "c"]
  edges := [⟨⟨"a"⟩, ⟨"b"⟩⟩, ⟨⟨"b"⟩, ⟨"c"⟩⟩, ⟨⟨"a"⟩, ⟨"c"⟩⟩]

/-- The links are listed the other way round and one of them twice, among a loop and an
edge to no node. -/
theorem rankedLayout_of_same_links_twoWays :
    let relisted := { twoWays with
      edges := [⟨⟨"a"⟩, ⟨"c"⟩⟩, ⟨⟨"b"⟩, ⟨"b"⟩⟩, ⟨⟨"b"⟩, ⟨"c"⟩⟩, ⟨⟨"c"⟩, ⟨"x"⟩⟩, ⟨⟨"b"⟩, ⟨"c"⟩⟩,
        ⟨⟨"a"⟩, ⟨"b"⟩⟩] }
    twoWays.edges ≠ relisted.edges ∧
      rankedLayout (.standard : RankedSettings Float) .standard twoWays =
        rankedLayout .standard .standard relisted := by
  intro relisted
  have kept : ∀ edge ∈ twoWays.edges, relisted.Link edge.source edge.target := by decide
  have known : ∀ edge ∈ relisted.edges, relisted.Link edge.source edge.target →
      twoWays.Link edge.source edge.target := by decide
  have rises : ∀ edge ∈ twoWays.edges, edge.source.text < edge.target.text := by decide
  have ways {source target : NodeId} (way : Relation.TransGen twoWays.Link source target) :
      source.text < target.text := by
    induction way with
    | single link => exact rises _ link.listed
    | tail _ link ih => exact String.lt_trans ih (rises _ link.listed)
  refine ⟨by decide, rankedLayout_of_same_links _ _ rfl (by decide) (fun source target => ?_)
    fun id cycle => String.lt_irrefl id.text (ways cycle)⟩
  exact ⟨fun link => kept _ link.listed, fun link => known _ link.listed link⟩

end Layout

end PeerNet
