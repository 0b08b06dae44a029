import Mathlib
import PeerNet.Proofs.Decimal.Rounding
import PeerNet.Proofs.Exact
import PeerNet.Proofs.Layout.Links

/-!
# Springs of a simulation

A simulation is built from whatever topology there is. Its springs are the links between two
different nodes, and a pass over these counts how many each body has. Both ends of a spring have
one at least, the spring itself, so that neither its strength nor its bias divides by zero; read
exactly, both are proportions. Rounding leaves them proportions as long as all links are counted
exactly.
-/

set_option autoImplicit false

namespace PeerNet.Simulation

/-! ## Degrees -/

/-- True of the links that have an end at a place. -/
def endsAt (place : Nat) (link : Nat × Nat) : Bool :=
  link.1 = place || link.2 = place

theorem getElem?_countEnds {link : Nat × Nat} (apart : link.1 ≠ link.2) (degrees : List Nat)
    (place : Nat) :
    (countEnds degrees link)[place]? = degrees[place]?.map (· + (endsAt place link).toNat) := by
  simp only [countEnds, endsAt, List.getElem?_modify]
  cases degrees[place]? with
  | none => rfl
  | some degree =>
    by_cases first : link.1 = place
    · have other : link.2 ≠ place := fun last => apart (first.trans last.symm)
      simp [first, other]
    · by_cases last : link.2 = place
      · simp [first, last]
      · simp [first, last]

theorem getElem?_foldl_countEnds {links : List (Nat × Nat)}
    (apart : ∀ link ∈ links, link.1 ≠ link.2) (degrees : List Nat) (place : Nat) :
    (links.foldl countEnds degrees)[place]? =
      degrees[place]?.map (· + links.countP (endsAt place)) := by
  induction links generalizing degrees with
  | nil => simp
  | cons link rest ih =>
    obtain ⟨first, later⟩ := List.forall_mem_cons.1 apart
    simp only [List.foldl_cons, ih later, getElem?_countEnds first, Option.map_map]
    congr 1
    funext degree
    cases ends : endsAt place link with
    | true => simp [ends, Nat.add_assoc, Nat.add_comm 1]
    | false => simp [ends]

/-- The pass over the links leaves at each place the number of links that end there. -/
theorem getElem?_linkDegrees {links : List (Nat × Nat)}
    (apart : ∀ link ∈ links, link.1 ≠ link.2) {places place : Nat} (inside : place < places) :
    (linkDegrees places links)[place]? = some (links.countP (endsAt place)) := by
  simp [linkDegrees, getElem?_foldl_countEnds apart, inside]

/-- Both ends of a link are counted at least once. -/
theorem one_le_countP_endsAt {links : List (Nat × Nat)} {link : Nat × Nat} (member : link ∈ links) :
    1 ≤ links.countP (endsAt link.1) ∧ 1 ≤ links.countP (endsAt link.2) := by
  constructor
  · exact List.one_le_countP_iff.2 ⟨link, member, by simp [endsAt]⟩
  · exact List.one_le_countP_iff.2 ⟨link, member, by simp [endsAt]⟩

/-! ## Proportions -/

section

variable {R : Type} [ExactScalar R] {source target : Nat}

theorem springStrength_between (sourceLinked : 1 ≤ source) (targetLinked : 1 ≤ target) :
    0 < (springStrength source target : R) ∧ (springStrength source target : R) ≤ 1 := by
  have least : (1 : R) ≤ (min source target : Nat) := by
    exact_mod_cast le_min sourceLinked targetLinked
  have positive : (0 : R) < (min source target : Nat) := zero_lt_one.trans_le least
  rw [springStrength, ExactScalar.one_eq, ExactScalar.ofNat_eq]
  exact ⟨one_div_pos.2 positive, (div_le_one positive).2 least⟩

theorem springBias_between (sourceLinked : 1 ≤ source) (targetLinked : 1 ≤ target) :
    0 < (springBias source target : R) ∧ (springBias source target : R) < 1 := by
  have first : (0 : R) < source := Nat.cast_pos.2 sourceLinked
  have last : (0 : R) < target := Nat.cast_pos.2 targetLinked
  rw [springBias, ExactScalar.ofNat_eq, ExactScalar.ofNat_eq, Nat.cast_add]
  have total : (0 : R) < source + target := add_pos first last
  exact ⟨div_pos first total, (div_lt_one total).2 (lt_add_of_pos_right _ last)⟩

end

/-! ## Rounded proportions -/

section

variable {source target : Nat}

theorem rounded_springStrength (sourceLinked : 1 ≤ source) (targetLinked : 1 ≤ target)
    (few : source + target < 2 ^ 53) :
    0.0 < (springStrength source target : Float) ∧ (springStrength source target : Float) ≤ 1.0 := by
  have least : 1 ≤ min source target := le_min sourceLinked targetLinked
  have below : min source target < 2 ^ 53 := by omega
  rw [springStrength]
  rcases least.eq_or_lt with single | several
  · rw [← single]
    decide
  · obtain ⟨low, high⟩ := Rounding.quotient_between Nat.one_pos several below
    exact ⟨low, le_of_below high⟩

theorem rounded_springBias (sourceLinked : 1 ≤ source) (targetLinked : 1 ≤ target)
    (few : source + target < 2 ^ 53) :
    0.0 < (springBias source target : Float) ∧ (springBias source target : Float) < 1.0 :=
  Rounding.quotient_between sourceLinked (Nat.lt_add_of_pos_right targetLinked) few

end

/-! ## Springs -/

section

variable {R : Type} [Scalar R]

theorem springOf_eq {degrees : List Nat} {link : Nat × Nat} {source target : Nat}
    (sourceDegree : degrees[link.1]? = some source) (targetDegree : degrees[link.2]? = some target) :
    (springOf degrees link : Spring R) =
      ⟨link.1, link.2, springStrength source target, springBias source target⟩ := by
  simp [springOf, List.getD_eq_getElem?_getD, sourceDegree, targetDegree]

/-- A spring between two places of a topology that have these degrees. -/
structure Joins (topology : Topology R) (spring : Spring R) (source target : Nat) : Prop where
  sourceInside : spring.source < topology.nodes.length
  targetInside : spring.target < topology.nodes.length
  apart : spring.source ≠ spring.target
  sourceDegree :
    (linkDegrees topology.nodes.length (Layout.indexedLinks topology))[spring.source]? = some source
  targetDegree :
    (linkDegrees topology.nodes.length (Layout.indexedLinks topology))[spring.target]? = some target
  sourceLinked : 1 ≤ source
  targetLinked : 1 ≤ target
  strength : spring.strength = springStrength source target
  bias : spring.bias = springBias source target

omit [Scalar R] in
theorem apart_indexedLinks (topology : Topology R) :
    ∀ link ∈ Layout.indexedLinks topology, link.1 ≠ link.2 := fun _ member =>
  (Layout.exists_link_of_mem_indexedLinks member).1

theorem exists_joins {topology : Topology R} {revision : UInt64} {settings : ForceSettings R}
    {canvas : Canvas R} {spring : Spring R}
    (member : spring ∈ (new topology revision settings canvas).springs) :
    ∃ source target, Joins topology spring source target := by
  obtain ⟨link, listed, rfl⟩ := List.mem_map.1 member
  obtain ⟨apart, _, _, sourceThere, targetThere, _⟩ :=
    Layout.exists_link_of_mem_indexedLinks listed
  have sourceInside := Layout.lt_of_named sourceThere
  have targetInside := Layout.lt_of_named targetThere
  have sourceDegree := getElem?_linkDegrees (apart_indexedLinks topology) sourceInside
  have targetDegree := getElem?_linkDegrees (apart_indexedLinks topology) targetInside
  obtain ⟨sourceLinked, targetLinked⟩ := one_le_countP_endsAt listed
  rw [springOf_eq sourceDegree targetDegree]
  exact ⟨_, _, sourceInside, targetInside, apart, sourceDegree, targetDegree, sourceLinked,
    targetLinked, rfl, rfl⟩

omit [Scalar R] in
/-- No body has more links than there are edges. -/
theorem degree_le {topology : Topology R} {place degree : Nat}
    (inside : place < topology.nodes.length)
    (counted : (linkDegrees topology.nodes.length (Layout.indexedLinks topology))[place]? =
      some degree) : degree ≤ topology.edges.length := by
  obtain rfl := Option.some.inj
    (counted.symm.trans (getElem?_linkDegrees (apart_indexedLinks topology) inside))
  exact List.countP_le_length.trans (List.length_filterMap_le _ _)

/-- Whatever the topology, faulty ones included, its simulation has one spring for each edge
between two different nodes, and the degree of a body is the number of springs that end there.
Each spring joins two different bodies, and divides by nothing that is zero. Read exactly, its
strength is above zero and at most one, and its bias is strictly between. -/
theorem springs_of_new (topology : Topology R) (revision : UInt64) (settings : ForceSettings R)
    (canvas : Canvas R) :
    let simulation := new topology revision settings canvas
    let degrees := linkDegrees topology.nodes.length (Layout.indexedLinks topology)
    (simulation.springs.map fun spring =>
        (simulation.ids[spring.source]?, simulation.ids[spring.target]?)) =
      ((topology.edges.filter fun edge => topology.Link edge.source edge.target).map
        fun edge => (some edge.source, some edge.target)) ∧
    (∀ place < simulation.bodies.length, degrees[place]? = some
      (simulation.springs.countP fun spring => spring.source = place || spring.target = place)) ∧
    ∀ spring ∈ simulation.springs,
      spring.source < simulation.bodies.length ∧ spring.target < simulation.bodies.length ∧
      spring.source ≠ spring.target ∧
      ∃ source target, degrees[spring.source]? = some source ∧
        degrees[spring.target]? = some target ∧ 1 ≤ source ∧ 1 ≤ target ∧
        min source target ≠ 0 ∧ source + target ≠ 0 ∧
        spring.strength = springStrength source target ∧
        spring.bias = springBias source target ∧
        0 < (springStrength source target : ℚ) ∧ (springStrength source target : ℚ) ≤ 1 ∧
        0 < (springBias source target : ℚ) ∧ (springBias source target : ℚ) < 1 := by
  intro simulation degrees
  have bodies : simulation.bodies.length = topology.nodes.length := by
    have counts := congrArg List.length (ids_new topology revision settings canvas)
    simpa [ids] using counts
  have springs : simulation.springs = (Layout.indexedLinks topology).map (springOf degrees) := rfl
  refine ⟨?_, fun place inside => ?_, fun spring member => ?_⟩
  · have named : simulation.ids = topology.nodes.map (·.id) :=
      ids_new topology revision settings canvas
    rw [← Layout.map_names_indexedLinks, named, springs, List.map_map]
    rfl
  · rw [getElem?_linkDegrees (apart_indexedLinks topology) (bodies ▸ inside), springs,
      List.countP_map]
    rfl
  · obtain ⟨source, target, joins⟩ := exists_joins member
    obtain ⟨strengthPos, strengthLe⟩ :=
      springStrength_between (R := ℚ) joins.sourceLinked joins.targetLinked
    obtain ⟨biasPos, biasLt⟩ := springBias_between (R := ℚ) joins.sourceLinked joins.targetLinked
    have least : 0 < min source target := Nat.lt_min.2 ⟨joins.sourceLinked, joins.targetLinked⟩
    have total : 0 < source + target := Nat.add_pos_left joins.sourceLinked target
    exact ⟨bodies ▸ joins.sourceInside, bodies ▸ joins.targetInside, joins.apart, source, target,
      joins.sourceDegree, joins.targetDegree, joins.sourceLinked, joins.targetLinked, least.ne',
      total.ne', joins.strength, joins.bias, strengthPos, strengthLe, biasPos, biasLt⟩

end

/-- Two nodes have one id, one edge is repeated, one is a loop and one leads to no node. -/
def overgrown : Topology ℚ where
  id := 0
  name := "overgrown"
  origin := .custom
  nodes := [.plain ⟨"a"⟩ "first", .plain ⟨"b"⟩ "b", .plain ⟨"a"⟩ "last", .plain ⟨"c"⟩ "c"]
  edges := [⟨⟨"a"⟩, ⟨"b"⟩⟩, ⟨⟨"b"⟩, ⟨"b"⟩⟩, ⟨⟨"a"⟩, ⟨"b"⟩⟩, ⟨⟨"a"⟩, ⟨"x"⟩⟩, ⟨⟨"c"⟩, ⟨"a"⟩⟩]

theorem springs_of_new_overgrown :
    let simulation := new overgrown 1 .standard .standard
    simulation.springs.length = 3 ∧ linkDegrees 4 (Layout.indexedLinks overgrown) = [0, 2, 3, 1] ∧
      ∀ spring ∈ simulation.springs,
        0 < spring.strength ∧ spring.strength ≤ 1 ∧ 0 < spring.bias ∧ spring.bias < 1 := by
  intro simulation
  obtain ⟨-, -, joined⟩ := springs_of_new overgrown 1 .standard .standard
  refine ⟨by decide, by decide, fun spring member => ?_⟩
  obtain ⟨-, -, -, source, target, -, -, -, -, -, -, strength, bias, proportions⟩ :=
    joined spring member
  rwa [strength, bias]

/-- In floating point too the strengths are above zero and at most one, and the biases strictly
between, as long as sums of degrees are counted exactly. -/
theorem springs_of_new_rounded {topology : Topology Float}
    (few : topology.edges.length < 2 ^ 52) (revision : UInt64) (settings : ForceSettings Float)
    (canvas : Canvas Float) :
    ∀ spring ∈ (new topology revision settings canvas).springs,
      0.0 < spring.strength ∧ spring.strength ≤ 1.0 ∧ 0.0 < spring.bias ∧ spring.bias < 1.0 := by
  intro spring member
  obtain ⟨source, target, joins⟩ := exists_joins member
  have sourceLe := degree_le joins.sourceInside joins.sourceDegree
  have targetLe := degree_le joins.targetInside joins.targetDegree
  have summed : source + target < 2 ^ 53 := by omega
  obtain ⟨strengthPos, strengthLe⟩ :=
    rounded_springStrength joins.sourceLinked joins.targetLinked summed
  obtain ⟨biasPos, biasLt⟩ := rounded_springBias joins.sourceLinked joins.targetLinked summed
  rw [joins.strength, joins.bias]
  exact ⟨strengthPos, strengthLe, biasPos, biasLt⟩

end PeerNet.Simulation
