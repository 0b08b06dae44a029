import PeerNet.Proofs.Layout.Fit
import PeerNet.Proofs.Layout.Links

/-!
# Links lead to the right

A node stands at its rank times a positive step from one line. An arc that is left once
the cycles are broken leads to a higher rank, and that is the arc of a link, or its
opposite where the link lies on a cycle.
-/

set_option autoImplicit false

namespace PeerNet.Layout

variable {R : Type}

theorem lookup_zip {ids : List NodeId} (distinct : ids.Nodup) {place : Nat} {id : NodeId}
    (there : ids[place]? = some id) (points : List (Point R)) :
    (ids.zip points).lookup id = points[place]? := by
  induction ids generalizing place points with
  | nil => cases there
  | cons first rest ih =>
    obtain ⟨unlisted, distinct⟩ := List.nodup_cons.1 distinct
    cases points with
    | nil => rfl
    | cons point points =>
      rw [List.zip_cons_cons, List.lookup_cons]
      cases place with
      | zero =>
        obtain rfl := Option.some.inj there
        rw [beq_self_eq_true]
        rfl
      | succ place =>
        have apart : id ≠ first := fun same =>
          unlisted (same ▸ List.mem_of_getElem? there)
        rw [beq_eq_false_iff_ne.2 apart]
        exact ih distinct there points

variable [ExactScalar R]

theorem getElem?_centred (center : R × R) {points : List (Point R)} {place : Nat}
    {point : Point R} (there : points[place]? = some point) :
    (centred center points)[place]? =
      some ⟨point.x + centering center.1 (points.map (·.x)),
        point.y + centering center.2 (points.map (·.y))⟩ := by
  rw [centred, List.getElem?_map, there, Option.map_some]

theorem getElem?_gridPoints (settings : RankedSettings R) (canvas : Canvas R) {ranks : List Nat}
    {layers : Layers} {node : Nat} (ranked : node < ranks.length)
    (slotted : node < layers.slots.length) :
    (gridPoints settings canvas ranks layers)[node]? =
      some ⟨((ranks.getD node 0 : Nat) : R) * rankStep settings canvas layers,
        ((layers.slots.getD node 0 : Nat) : R) * nodeStep settings canvas layers⟩ := by
  have cell : (ranks.zip layers.slots)[node]? =
      some (ranks.getD node 0, layers.slots.getD node 0) := by
    rw [List.getD_eq_getElem _ _ ranked, List.getD_eq_getElem _ _ slotted]
    exact List.getElem?_zip_eq_some.2
      ⟨List.getElem?_eq_getElem ranked, List.getElem?_eq_getElem slotted⟩
  rw [gridPoints_eq, List.getElem?_map, cell, Option.map_some]

/-- Every node of a drawing stands on the line of its rank, and the lines are evenly
spaced. -/
theorem Measured.exists_lines {settings : RankedSettings R} {canvas : Canvas R}
    (measured : Measured settings canvas) (count : Nat) (arcs : List Arc) :
    ∃ start step : R, 0 < step ∧ ∀ node < count, ∃ point,
      (drawing settings canvas count arcs)[node]? = some point ∧
        point.x = (((longestPathRanks count arcs).getD node 0 : Nat) : R) * step + start := by
  refine ⟨_, _, measured.rankStep_pos _, fun node known =>
    ⟨_, getElem?_centred canvas.center (getElem?_gridPoints settings canvas ?_ ?_), rfl⟩⟩
  · rwa [length_longestPathRanks]
  · rwa [Layers.length_slots_ordered]

/-- Over exact scalars every link between two different nodes leads from one line to
another, and to the right when no way along the links leads back. -/
theorem rankedLayout_leads_right {settings : Settings R} (accepted : settings.validate = .ok ())
    {topology : Topology R} (distinct : (topology.nodes.map (·.id)).Nodup)
    {source target : NodeId} (link : topology.Link source target) :
    let placement := rankedLayout settings.layout.ranked settings.canvas topology
    ∃ start stop, placement.lookup source = some start ∧ placement.lookup target = some stop ∧
      (¬Relation.ReflTransGen topology.Link target source → start.x < stop.x) ∧
        start.x ≠ stop.x := by
  have proper := proper_indexedLinks distinct
  obtain ⟨first, last, firstThere, lastThere, linked⟩ := exists_linked distinct link
  have firstKnown := proper.source _ linked
  have lastKnown := proper.target _ linked
  have several : 2 ≤ topology.nodes.length := by
    have apart := proper.loopFree _ linked
    dsimp only at firstKnown lastKnown apart
    omega
  rw [rankedLayout_of_several _ _ several]
  obtain ⟨line, step, forward, lines⟩ := (measured_of_validate accepted).exists_lines
    topology.nodes.length (breakCycles topology.nodes.length (indexedLinks topology))
  obtain ⟨start, startThere, startX⟩ := lines first firstKnown
  obtain ⟨stop, stopThere, stopX⟩ := lines last lastKnown
  let rank (node : Nat) : Nat := (longestPathRanks topology.nodes.length
    (breakCycles topology.nodes.length (indexedLinks topology))).getD node 0
  have leads {one other : Nat} (kept : Linked (breakCycles topology.nodes.length
      (indexedLinks topology)) one other) :
      (rank one : R) * step + line < (rank other : R) * step + line := by
    have below : rank one < rank other :=
      rank_lt_rank (proper_breakCycles proper) (wellFounded_breakCycles proper) kept
    gcongr
  refine ⟨start, stop, ?_, ?_, fun oneWay => ?_, ?_⟩
  · rw [lookup_zip distinct firstThere, startThere]
  · rw [lookup_zip distinct lastThere, stopThere]
  · rw [startX, stopX]
    exact leads (linked_breakCycles_of_not_reaches proper linked fun back =>
      oneWay (links_of_reaches distinct back lastThere firstThere))
  · -- The ranks differ whether the arc was turned round or not.
    rw [startX, stopX]
    rcases linked_breakCycles topology.nodes.length linked with kept | turned
    · exact (leads kept).ne
    · exact (leads turned).ne'

/-- Of three nodes the first two are linked both ways, and the second leads to the third. -/
theorem rankedLayout_leads_right_bothWays :
    let settings : Settings ℚ := .standard
    let bothWays : Topology ℚ := { tangled with
      nodes := [.plain ⟨"a"⟩ "a", .plain ⟨"b"⟩ "b", .plain ⟨"c"⟩ "c"]
      edges := [⟨⟨"b"⟩, ⟨"a"⟩⟩, ⟨⟨"a"⟩, ⟨"b"⟩⟩, ⟨⟨"c"⟩, ⟨"c"⟩⟩, ⟨⟨"b"⟩, ⟨"c"⟩⟩] }
    let placement := rankedLayout settings.layout.ranked settings.canvas bothWays
    (∃ start stop, placement.lookup ⟨"a"⟩ = some start ∧ placement.lookup ⟨"b"⟩ = some stop ∧
        start.x ≠ stop.x) ∧
      ∃ start stop, placement.lookup ⟨"b"⟩ = some start ∧ placement.lookup ⟨"c"⟩ = some stop ∧
        start.x < stop.x := by
  intro settings bothWays placement
  have accepted : settings.validate = .ok () := by decide +kernel
  have distinct : (bothWays.nodes.map (·.id)).Nodup := by decide
  have stuck : ¬Relation.ReflTransGen bothWays.Link ⟨"c"⟩ ⟨"b"⟩ := by
    have last : ∀ edge ∈ bothWays.edges, bothWays.Link edge.source edge.target →
        edge.source ≠ ⟨"c"⟩ := by decide
    intro back
    rcases back.cases_head with same | ⟨_, link, -⟩
    · exact absurd same (by decide)
    · exact last _ link.listed link rfl
  obtain ⟨start, stop, startThere, stopThere, -, apart⟩ :=
    rankedLayout_leads_right accepted distinct
      (show bothWays.Link ⟨"a"⟩ ⟨"b"⟩ by decide)
  obtain ⟨first, last, firstThere, lastThere, right, -⟩ :=
    rankedLayout_leads_right accepted distinct
      (show bothWays.Link ⟨"b"⟩ ⟨"c"⟩ by decide)
  exact ⟨⟨start, stop, startThere, stopThere, apart⟩,
    first, last, firstThere, lastThere, right stuck⟩

end PeerNet.Layout
