import PeerNet.Config.Validity
import PeerNet.Proofs.Outcome

/-!
# The settings check

Settings are accepted part by part, and a part is accepted when its numbers lie where
they have to.
-/

set_option autoImplicit false

namespace PeerNet

variable {R : Type}

namespace SettingsFault

theorem require_eq_ok_iff {condition : Bool} {fault : SettingsFault R} :
    require condition fault = .ok () ↔ condition = true := by
  cases condition <;> simp [require]

end SettingsFault

variable [Scalar R]

theorem Canvas.validate_eq_ok_iff {canvas : Canvas R} :
    canvas.validate = .ok () ↔ (0.0 : R) < canvas.width ∧ (0.0 : R) < canvas.height := by
  rw [Canvas.validate, SettingsFault.require_eq_ok_iff, Bool.and_eq_true, decide_eq_true_iff,
    decide_eq_true_iff]

omit [Scalar R] in
theorem NodeOptions.validate_eq_ok_iff {options : NodeOptions} :
    (options.validate : Except (SettingsFault R) Unit) = .ok () ↔
      options.versions ≠ [] ∧ options.latencies ≠ [] ∧ options.ram ≠ [] ∧ options.cpu ≠ [] := by
  simp [NodeOptions.validate, bind_eq_ok_iff, SettingsFault.require_eq_ok_iff]

theorem ForceSettings.validate_eq_ok_iff {force : ForceSettings R} :
    force.validate = .ok () ↔
      ((0.0 : R) < force.alphaDecay ∧ force.alphaDecay < (1.0 : R)) ∧
        ((0.0 : R) < force.alphaMin ∧ force.alphaMin < (1.0 : R)) ∧
        ((0.0 : R) ≤ force.velocityDecay ∧ force.velocityDecay ≤ (1.0 : R)) ∧
        (0.0 : R) < force.linkDistance ∧
        (0.0 : R) ≤ force.dragAlphaTarget ∧ force.dragAlphaTarget < (1.0 : R) := by
  simp only [ForceSettings.validate, bind_eq_ok_iff, SettingsFault.require_eq_ok_iff,
    Bool.and_eq_true, decide_eq_true_iff]

theorem RankedSettings.validate_eq_ok_iff {ranked : RankedSettings R} :
    ranked.validate = .ok () ↔
      ((0.0 : R) < ranked.nodeWidth ∧ (0.0 : R) < ranked.nodeHeight) ∧
        ¬ranked.rankGap < (0.0 : R) ∧ ¬ranked.nodeGap < (0.0 : R) := by
  simp [RankedSettings.validate, bind_eq_ok_iff, SettingsFault.require_eq_ok_iff]

/-- Settings are accepted when all of their parts are. -/
theorem Settings.validate_eq_ok_iff {settings : Settings R} :
    settings.validate = .ok () ↔
      settings.canvas.validate = .ok () ∧
        (settings.options.validate : Except (SettingsFault R) Unit) = .ok () ∧
        settings.layout.force.validate = .ok () ∧ settings.layout.ranked.validate = .ok () ∧
        Text.blank settings.assets.presetDirectory = false := by
  simp [Settings.validate, bind_eq_ok_iff, SettingsFault.require_eq_ok_iff]

theorem Settings.validate_parts {settings : Settings R} (accepted : settings.validate = .ok ()) :
    settings.canvas.validate = .ok () ∧ settings.layout.ranked.validate = .ok () := by
  obtain ⟨canvas, -, -, ranked, -⟩ := validate_eq_ok_iff.1 accepted
  exact ⟨canvas, ranked⟩

end PeerNet
