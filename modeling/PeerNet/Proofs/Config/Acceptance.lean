import PeerNet.Proofs.Config.Validity
import PeerNet.Proofs.Decimal.Comparison

/-!
# Accepted settings

The conditions that settings are accepted under. Most numbers have to pass the comparison
that is asked for, which what is not a number never does. The gaps of the ranked layout have
to fail the opposite comparison, so a gap that is not a number is accepted.
-/

set_option autoImplicit false

namespace PeerNet

/-- No side, list or directory is missing and all parameters are in their ranges, where the two
gaps are sound in a given sense. -/
structure Settings.InRange {R : Type} [Scalar R] (settings : Settings R) (soundGap : R → Prop) :
    Prop where
  canvas : (0.0 : R) < settings.canvas.width ∧ (0.0 : R) < settings.canvas.height
  options : settings.options.versions ≠ [] ∧ settings.options.latencies ≠ [] ∧
    settings.options.ram ≠ [] ∧ settings.options.cpu ≠ []
  alphaDecay : (0.0 : R) < settings.layout.force.alphaDecay ∧
    settings.layout.force.alphaDecay < (1.0 : R)
  alphaMin : (0.0 : R) < settings.layout.force.alphaMin ∧
    settings.layout.force.alphaMin < (1.0 : R)
  velocityDecay : (0.0 : R) ≤ settings.layout.force.velocityDecay ∧
    settings.layout.force.velocityDecay ≤ (1.0 : R)
  linkDistance : (0.0 : R) < settings.layout.force.linkDistance
  dragAlphaTarget : (0.0 : R) ≤ settings.layout.force.dragAlphaTarget ∧
    settings.layout.force.dragAlphaTarget < (1.0 : R)
  nodeBox : (0.0 : R) < settings.layout.ranked.nodeWidth ∧
    (0.0 : R) < settings.layout.ranked.nodeHeight
  gaps : soundGap settings.layout.ranked.rankGap ∧ soundGap settings.layout.ranked.nodeGap
  presetDirectory : ∃ c ∈ settings.assets.presetDirectory.toList, Text.isBlank c = false

theorem Text.blank_eq_false_iff {text : String} :
    Text.blank text = false ↔ ∃ c ∈ text.toList, Text.isBlank c = false := by
  simp [Text.blank]

namespace Settings

theorem InRange.congr_gaps {R : Type} [Scalar R] {settings : Settings R} {first second : R → Prop}
    (same : ∀ gap, first gap ↔ second gap) : settings.InRange first ↔ settings.InRange second := by
  rw [funext fun gap => propext (same gap)]

theorem validate_eq_ok_iff_inRange {R : Type} [Scalar R] {settings : Settings R} :
    settings.validate = .ok () ↔ settings.InRange fun gap => ¬gap < (0.0 : R) := by
  rw [validate_eq_ok_iff, Canvas.validate_eq_ok_iff, NodeOptions.validate_eq_ok_iff,
    ForceSettings.validate_eq_ok_iff, RankedSettings.validate_eq_ok_iff, Text.blank_eq_false_iff]
  constructor
  · rintro ⟨canvas, options, ⟨decay, least, velocity, distance, drag⟩, ⟨box, gaps⟩, directory⟩
    exact ⟨canvas, options, decay, least, velocity, distance, drag, box, gaps, directory⟩
  · rintro ⟨canvas, options, decay, least, velocity, distance, drag, box, gaps, directory⟩
    exact ⟨canvas, options, ⟨decay, least, velocity, distance, drag⟩, ⟨box, gaps⟩, directory⟩

/-- Settings of floating point numbers are accepted just when everything is in its range, but
that a gap may also be no number. So everything is in its range just when the settings are
accepted and both gaps are numbers. -/
theorem accepted_iff (settings : Settings Float) :
    (settings.validate = .ok () ↔
      settings.InRange fun gap => 0.0 ≤ gap ∨ gap.isNaN = true) ∧
      ((settings.InRange fun gap => 0.0 ≤ gap) ↔
        settings.validate = .ok () ∧ settings.layout.ranked.rankGap.isNaN = false ∧
          settings.layout.ranked.nodeGap.isNaN = false) := by
  have accepted : settings.validate = .ok () ↔
      settings.InRange fun gap => 0.0 ≤ gap ∨ gap.isNaN = true :=
    validate_eq_ok_iff_inRange.trans (InRange.congr_gaps fun _ => not_lt_zero_iff)
  have defined {gap : Float} (ranged : 0.0 ≤ gap) : gap.isNaN = false :=
    Bool.eq_false_iff.2 fun undefined => not_zero_le_of_isNaN undefined ranged
  refine ⟨accepted, ?_⟩
  rw [accepted]
  constructor
  · intro inRange
    obtain ⟨rankGap, nodeGap⟩ := inRange.gaps
    exact ⟨{ inRange with gaps := ⟨.inl rankGap, .inl nodeGap⟩ }, defined rankGap, defined nodeGap⟩
  · rintro ⟨inRange, rankGap, nodeGap⟩
    exact { inRange with
      gaps := ⟨inRange.gaps.1.resolve_right (Bool.eq_false_iff.1 rankGap),
        inRange.gaps.2.resolve_right (Bool.eq_false_iff.1 nodeGap)⟩ }

/-- A gap between the ranks that is not a number is not at least zero, and is accepted. -/
theorem accepted_with_undefined_gap :
    let ranked : RankedSettings Float := { RankedSettings.standard with rankGap := 0.0 / 0.0 }
    let settings : Settings Float :=
      { Settings.standard with layout := { Settings.standard.layout with ranked } }
    settings.validate = .ok () ∧ ¬settings.InRange fun gap => 0.0 ≤ gap := by
  intro ranked settings
  refine ⟨?_, fun inRange => ?_⟩
  · exact eq_ok_of_toOption (by decide)
  · exact absurd inRange.gaps.1 (by decide)

end Settings

end PeerNet
