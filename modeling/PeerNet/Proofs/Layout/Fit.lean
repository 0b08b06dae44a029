import Mathlib.Order.Bounds.Basic
import Mathlib.Tactic.Linarith
import Mathlib.Tactic.Ring
import Mathlib.Tactic.FieldSimp
import PeerNet.Proofs.Config.Validity
import PeerNet.Proofs.Exact
import PeerNet.Proofs.Layout.Layers

/-!
# Drawings that fit the canvas

Over exact scalars the ranked layout gives every node a place of its own on the canvas,
and the drawing is centred. Rank and slot tell the nodes apart, the steps are positive
and shrink until the last rank and the last slot are in reach, and centring moves all
nodes by the same distance.
-/

set_option autoImplicit false

namespace PeerNet.Layout

variable {R : Type} [ExactScalar R]

/-! ## Steps -/

theorem fitStep_eq {step extent : R} (places : Nat) (room : 0 < extent) :
    fitStep step places extent =
      if places < 2 then step else min step (extent / ((places - 1 : Nat) : R)) := by
  rw [fitStep, ExactScalar.zero_eq, decide_eq_true room, ExactScalar.ofNat_eq,
    ExactScalar.smaller_eq]
  simp

theorem fitStep_pos {step extent : R} (places : Nat) (forward : 0 < step) (room : 0 < extent) :
    0 < fitStep step places extent := by
  rw [fitStep_eq places room]
  split
  · exact forward
  · next several =>
    have gaps : (0 : R) < ((places - 1 : Nat) : R) := by
      rw [Nat.cast_pos]
      omega
    exact lt_min forward (div_pos room gaps)

theorem mul_fitStep_le {step extent : R} {places index : Nat} (forward : 0 < step)
    (room : 0 < extent) (known : index < places) :
    (index : R) * fitStep step places extent ≤ extent := by
  rw [fitStep_eq places room]
  split
  · obtain rfl : index = 0 := by omega
    simpa using room.le
  · next several =>
    have gaps : (0 : R) < ((places - 1 : Nat) : R) := by
      rw [Nat.cast_pos]
      omega
    have within : (index : R) ≤ ((places - 1 : Nat) : R) := by
      rw [Nat.cast_le]
      omega
    calc (index : R) * min step (extent / ((places - 1 : Nat) : R))
        ≤ ((places - 1 : Nat) : R) * (extent / ((places - 1 : Nat) : R)) :=
          mul_le_mul within (min_le_right _ _) (le_min forward.le (div_pos room gaps).le)
            gaps.le
      _ = extent := mul_div_cancel₀ extent gaps.ne'

/-! ## Centring -/

/-- The least and the greatest of some numbers. -/
structure Spans (numbers : List R) (low high : R) : Prop where
  least : IsLeast {x | x ∈ numbers} low
  greatest : IsGreatest {x | x ∈ numbers} high

theorem spans_singleton (x : R) : Spans [x] x x := by
  constructor <;> simp [IsLeast, IsGreatest, lowerBounds, upperBounds]

theorem Spans.append {numbers : List R} {low high : R} (spans : Spans numbers low high) (x : R) :
    Spans (numbers ++ [x]) (min low x) (max high x) := by
  constructor
  · constructor
    · rcases min_choice low x with old | new
      · rw [old]
        exact List.mem_append_left _ spans.least.1
      · rw [new]
        exact List.mem_append_right _ List.mem_cons_self
    · intro y member
      rcases List.mem_append.1 member with old | new
      · exact (min_le_left low x).trans (spans.least.2 old)
      · exact (min_le_right low x).trans_eq (List.mem_singleton.1 new).symm
  · constructor
    · rcases max_choice high x with old | new
      · rw [old]
        exact List.mem_append_left _ spans.greatest.1
      · rw [new]
        exact List.mem_append_right _ List.mem_cons_self
    · intro y member
      rcases List.mem_append.1 member with old | new
      · exact (spans.greatest.2 old).trans (le_max_left high x)
      · exact (List.mem_singleton.1 new).trans_le (le_max_right high x)

private theorem spans_foldl {numbers : List R} {low high : R} (spans : Spans numbers low high)
    (others : List R) :
    let reached := others.foldl (fun (low, high) x =>
      (Scalar.smaller low x, Scalar.larger high x)) (low, high)
    Spans (numbers ++ others) reached.1 reached.2 := by
  induction others generalizing numbers low high with
  | nil => rwa [List.append_nil]
  | cons x others ih =>
    have next := ih (spans.append x)
    rw [← ExactScalar.smaller_eq, ← ExactScalar.larger_eq, List.append_assoc] at next
    exact next

theorem spans_bounds (first : R) (others : List R) :
    Spans (first :: others) (bounds first others).1 (bounds first others).2 :=
  spans_foldl (spans_singleton first) others

theorem Spans.centering_eq {numbers : List R} {low high : R} (spans : Spans numbers low high)
    (place : R) : centering place numbers = place - (low + high) / 2 := by
  cases numbers with
  | nil => exact absurd spans.least.1 List.not_mem_nil
  | cons first others =>
    have computed := spans_bounds first others
    have low : (bounds first others).1 = low := computed.least.unique spans.least
    have high : (bounds first others).2 = high := computed.greatest.unique spans.greatest
    rw [← low, ← high, ← ExactScalar.half_eq]
    rfl

theorem exists_spans {numbers : List R} (inhabited : numbers ≠ []) :
    ∃ low high, Spans numbers low high := by
  cases numbers with
  | nil => exact absurd rfl inhabited
  | cons first others => exact ⟨_, _, spans_bounds first others⟩

theorem Spans.shift {numbers : List R} {low high : R} (spans : Spans numbers low high)
    (distance : R) : Spans (numbers.map (· + distance)) (low + distance) (high + distance) := by
  constructor
  · refine ⟨List.mem_map.2 ⟨low, spans.least.1, rfl⟩, fun y member => ?_⟩
    obtain ⟨x, known, rfl⟩ := List.mem_map.1 member
    exact add_le_add_left (spans.least.2 known) distance
  · refine ⟨List.mem_map.2 ⟨high, spans.greatest.1, rfl⟩, fun y member => ?_⟩
    obtain ⟨x, known, rfl⟩ := List.mem_map.1 member
    exact add_le_add_left (spans.greatest.2 known) distance

/-- Numbers from zero up to an extent stay there when they are centred. -/
theorem exists_spans_centred {numbers : List R} {extent : R} (inhabited : numbers ≠ [])
    (within : ∀ x ∈ numbers, 0 ≤ x ∧ x ≤ extent) :
    let moved := numbers.map (· + centering (Scalar.half extent) numbers)
    (∀ x ∈ moved, 0 ≤ x ∧ x ≤ extent) ∧
      ∃ low high, Spans moved low high ∧ (low + high) / 2 = extent / 2 := by
  obtain ⟨low, high, spans⟩ := exists_spans inhabited
  have distance := spans.centering_eq (Scalar.half extent)
  rw [ExactScalar.half_eq] at distance
  have start := (within low spans.least.1).1
  have stop := (within high spans.greatest.1).2
  refine ⟨fun y member => ?_, _, _, spans.shift _, ?_⟩
  · obtain ⟨x, known, rfl⟩ := List.mem_map.1 member
    have above : low ≤ x := spans.least.2 known
    have below : x ≤ high := spans.greatest.2 known
    rw [ExactScalar.half_eq, distance]
    constructor <;> linarith
  · rw [ExactScalar.half_eq, distance]
    ring

/-! ## The grid -/

/-- Measures that leave room between nodes, and a canvas with room for them. -/
structure Measured (settings : RankedSettings R) (canvas : Canvas R) : Prop where
  width : 0 < canvas.width
  height : 0 < canvas.height
  rankStep : 0 < settings.nodeWidth + settings.rankGap
  nodeStep : 0 < settings.nodeHeight + settings.nodeGap

theorem measured_of_validate {settings : Settings R} (accepted : settings.validate = .ok ()) :
    Measured settings.layout.ranked settings.canvas := by
  obtain ⟨canvas, ranked⟩ := Settings.validate_parts accepted
  obtain ⟨width, height⟩ := Canvas.validate_eq_ok_iff.1 canvas
  obtain ⟨⟨nodeWidth, nodeHeight⟩, rankGap, nodeGap⟩ := RankedSettings.validate_eq_ok_iff.1 ranked
  rw [ExactScalar.zero_eq] at width height nodeWidth nodeHeight rankGap nodeGap
  exact ⟨width, height, add_pos_of_pos_of_nonneg nodeWidth (not_lt.1 rankGap),
    add_pos_of_pos_of_nonneg nodeHeight (not_lt.1 nodeGap)⟩

section

variable (settings : RankedSettings R) (canvas : Canvas R)

/-- The distance between two ranks. -/
def rankStep (layers : Layers) : R :=
  fitStep (settings.nodeWidth + settings.rankGap) layers.rows.length canvas.width

/-- The distance between two places in a row. -/
def nodeStep (layers : Layers) : R :=
  fitStep (settings.nodeHeight + settings.nodeGap) layers.widest canvas.height

theorem gridPoints_eq (ranks : List Nat) (layers : Layers) :
    gridPoints settings canvas ranks layers = (ranks.zip layers.slots).map fun cell =>
      ⟨(cell.1 : R) * rankStep settings canvas layers,
        (cell.2 : R) * nodeStep settings canvas layers⟩ := by
  simp only [gridPoints, ExactScalar.ofNat_eq]
  rfl

end

variable {settings : RankedSettings R} {canvas : Canvas R} {count : Nat} {ranks : List Nat}
  {layers : Layers}

theorem Measured.rankStep_pos (measured : Measured settings canvas) (layers : Layers) :
    0 < Layout.rankStep settings canvas layers :=
  fitStep_pos _ measured.rankStep measured.width

theorem Measured.nodeStep_pos (measured : Measured settings canvas) (layers : Layers) :
    0 < Layout.nodeStep settings canvas layers :=
  fitStep_pos _ measured.nodeStep measured.height

theorem Measured.nodup_gridPoints (measured : Measured settings canvas)
    (arranged : layers.Arranged count ranks) : (gridPoints settings canvas ranks layers).Nodup := by
  rw [gridPoints_eq]
  refine arranged.nodup_cells.map fun first last same => ?_
  obtain ⟨x, y⟩ := Point.mk.inj same
  have rank := mul_right_cancel₀ (measured.rankStep_pos layers).ne' x
  have slot := mul_right_cancel₀ (measured.nodeStep_pos layers).ne' y
  exact Prod.ext (Nat.cast_injective rank) (Nat.cast_injective slot)

theorem Measured.mem_gridPoints (measured : Measured settings canvas)
    (arranged : layers.Arranged count ranks) {point : Point R}
    (member : point ∈ gridPoints settings canvas ranks layers) :
    (0 ≤ point.x ∧ point.x ≤ canvas.width) ∧ 0 ≤ point.y ∧ point.y ≤ canvas.height := by
  rw [gridPoints_eq] at member
  obtain ⟨⟨rank, slot⟩, cell, rfl⟩ := List.mem_map.1 member
  obtain ⟨rankInside, slotInside⟩ := arranged.cell_inside cell
  exact ⟨⟨mul_nonneg (Nat.cast_nonneg rank) (measured.rankStep_pos layers).le,
      mul_fitStep_le measured.rankStep measured.width rankInside⟩,
    mul_nonneg (Nat.cast_nonneg slot) (measured.nodeStep_pos layers).le,
    mul_fitStep_le measured.nodeStep measured.height slotInside⟩

/-! ## The drawing -/

/-- Points apart from each other on a canvas, with their bounding box in its middle. -/
structure Fits (canvas : Canvas R) (points : List (Point R)) : Prop where
  apart : points.Nodup
  inside : ∀ point ∈ points, (0 ≤ point.x ∧ point.x ≤ canvas.width) ∧
    0 ≤ point.y ∧ point.y ≤ canvas.height
  centred : points ≠ [] → ∃ left right top bottom,
    Spans (points.map (·.x)) left right ∧ Spans (points.map (·.y)) top bottom ∧
      (left + right) / 2 = canvas.width / 2 ∧ (top + bottom) / 2 = canvas.height / 2

theorem fits_nil (canvas : Canvas R) : Fits canvas [] where
  apart := List.nodup_nil
  inside := by simp
  centred inhabited := absurd rfl inhabited

theorem fits_center {canvas : Canvas R} (width : 0 < canvas.width) (height : 0 < canvas.height) :
    Fits canvas [⟨canvas.center.1, canvas.center.2⟩] where
  apart := List.nodup_singleton _
  inside := by
    intro point member
    rw [List.mem_singleton.1 member, Canvas.center, ExactScalar.half_eq, ExactScalar.half_eq]
    constructor <;> constructor <;> linarith
  centred _ := by
    refine ⟨_, _, _, _, spans_singleton _, spans_singleton _, ?_, ?_⟩
    · rw [add_self_div_two]
      exact ExactScalar.half_eq canvas.width
    · rw [add_self_div_two]
      exact ExactScalar.half_eq canvas.height

/-- Points that lie apart on the canvas fit it once they are centred. -/
theorem fits_centred {canvas : Canvas R} {points : List (Point R)} (apart : points.Nodup)
    (inside : ∀ point ∈ points, (0 ≤ point.x ∧ point.x ≤ canvas.width) ∧
      0 ≤ point.y ∧ point.y ≤ canvas.height) : Fits canvas (centred canvas.center points) := by
  rcases eq_or_ne points [] with rfl | inhabited
  · exact fits_nil canvas
  · have listed (coordinate : Point R → R) : points.map coordinate ≠ [] := fun none =>
      inhabited (List.map_eq_nil_iff.1 none)
    have xBounded : ∀ x ∈ points.map (·.x), 0 ≤ x ∧ x ≤ canvas.width := by
      rintro _ member
      obtain ⟨point, known, rfl⟩ := List.mem_map.1 member
      exact (inside point known).1
    have yBounded : ∀ y ∈ points.map (·.y), 0 ≤ y ∧ y ≤ canvas.height := by
      rintro _ member
      obtain ⟨point, known, rfl⟩ := List.mem_map.1 member
      exact (inside point known).2
    obtain ⟨xInside, left, right, xSpans, xMiddle⟩ := exists_spans_centred (listed _) xBounded
    obtain ⟨yInside, top, bottom, ySpans, yMiddle⟩ := exists_spans_centred (listed _) yBounded
    rw [List.map_map] at xInside xSpans yInside ySpans
    refine ⟨?_, fun moved member => ?_, fun _ =>
      ⟨left, right, top, bottom, ?_, ?_, xMiddle, yMiddle⟩⟩
    · refine apart.map fun one other same => ?_
      obtain ⟨x, y⟩ := Point.mk.inj same
      cases one
      cases other
      exact congrArg₂ Point.mk (add_right_cancel x) (add_right_cancel y)
    · obtain ⟨point, known, rfl⟩ := List.mem_map.1 member
      exact ⟨xInside _ (List.mem_map.2 ⟨point, known, rfl⟩),
        yInside _ (List.mem_map.2 ⟨point, known, rfl⟩)⟩
    · rw [centred, List.map_map]
      exact xSpans
    · rw [centred, List.map_map]
      exact ySpans

theorem Measured.fits_drawing (measured : Measured settings canvas) (count : Nat)
    (arcs : List Arc) : Fits canvas (drawing settings canvas count arcs) := by
  have arranged := Layers.arranged_ordered R count arcs (longestPathRanks count arcs)
  exact fits_centred (measured.nodup_gridPoints arranged)
    fun _ member => measured.mem_gridPoints arranged member

/-- With accepted settings the ranked layout of any topology, whatever its ids and links
are, gives every node one position, in node order, and the positions fit the canvas. -/
theorem rankedLayout_fits_canvas {settings : Settings R} (accepted : settings.validate = .ok ())
    (topology : Topology R) :
    let placement := rankedLayout settings.layout.ranked settings.canvas topology
    placement.map (·.1) = topology.nodes.map (·.id) ∧
      Fits settings.canvas (placement.map (·.2)) := by
  have measured := measured_of_validate accepted
  refine ⟨map_fst_rankedLayout _ _ topology, ?_⟩
  match nodes : topology.nodes with
  | [] =>
    simp only [rankedLayout, nodes]
    exact fits_nil _
  | [only] =>
    simp only [rankedLayout, nodes]
    exact fits_center measured.width measured.height
  | first :: second :: rest =>
    have several : 2 ≤ topology.nodes.length := by simp [nodes]
    have covers : (drawing settings.layout.ranked settings.canvas topology.nodes.length
        (breakCycles topology.nodes.length (indexedLinks topology))).length ≤
          (topology.nodes.map (·.id)).length := by
      rw [length_drawing, List.length_map]
    rw [rankedLayout_of_several _ _ several, List.map_snd_zip covers]
    exact measured.fits_drawing _ _

/-- Two nodes share an id, three links make a cycle, one of them is listed twice, and
there are a loop and an edge to no node. -/
def tangled : Topology ℚ where
  id := 1
  name := "tangled"
  origin := .custom
  nodes := [.plain ⟨"a"⟩ "a", .plain ⟨"b"⟩ "b", .plain ⟨"c"⟩ "c", .plain ⟨"a"⟩ "a"]
  edges := [⟨⟨"a"⟩, ⟨"b"⟩⟩, ⟨⟨"b"⟩, ⟨"c"⟩⟩, ⟨⟨"c"⟩, ⟨"a"⟩⟩, ⟨⟨"a"⟩, ⟨"b"⟩⟩, ⟨⟨"c"⟩, ⟨"c"⟩⟩,
    ⟨⟨"b"⟩, ⟨"x"⟩⟩]

theorem rankedLayout_fits_canvas_tangled :
    let settings : Settings ℚ := .standard
    let placement := rankedLayout settings.layout.ranked settings.canvas tangled
    settings.validate = .ok () ∧ placement.map (·.1) = [⟨"a"⟩, ⟨"b"⟩, ⟨"c"⟩, ⟨"a"⟩] ∧
      Fits settings.canvas (placement.map (·.2)) := by
  have accepted : (Settings.standard : Settings ℚ).validate = .ok () := by decide +kernel
  obtain ⟨ids, fits⟩ := rankedLayout_fits_canvas accepted tangled
  exact ⟨accepted, ids, fits⟩

end PeerNet.Layout
