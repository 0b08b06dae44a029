import PeerNet.Config.Settings
import PeerNet.Text.Blank

/-!
# Valid settings

Settings are checked part by part, and the first fault is reported. A number
that is not comparable to itself lies in no interval.
-/

set_option autoImplicit false

namespace PeerNet

inductive SettingsFault (R : Type) where
  | canvas (width height : R)
  | noVersions
  | noLatencies
  | noResources
  | alphaDecay (value : R)
  | alphaMin (value : R)
  | velocityDecay (value : R)
  | linkDistance
  | dragAlphaTarget
  | nodeBox
  | gaps
  | presetDirectory
  deriving DecidableEq

namespace SettingsFault

inductive Part where
  | canvas
  | options
  | layout
  | assets
  deriving DecidableEq, Repr

variable {R : Type}

def part : SettingsFault R → Part
  | .canvas .. => .canvas
  | .noVersions | .noLatencies | .noResources => .options
  | .alphaDecay _ | .alphaMin _ | .velocityDecay _ | .linkDistance | .dragAlphaTarget
  | .nodeBox | .gaps => .layout
  | .presetDirectory => .assets

def detail [NumberText R] : SettingsFault R → String
  | .canvas width height =>
    "canvas must have positive dimensions, got " ++ NumberText.write width ++ "x" ++
      NumberText.write height
  | .noVersions => "versions cannot be empty"
  | .noLatencies => "latency_profiles cannot be empty"
  | .noResources => "ram and cpu options cannot be empty"
  | .alphaDecay value => "alpha_decay must be in (0, 1), got " ++ NumberText.write value
  | .alphaMin value => "alpha_min must be in (0, 1), got " ++ NumberText.write value
  | .velocityDecay value => "velocity_decay must be in [0, 1], got " ++ NumberText.write value
  | .linkDistance => "link_distance must be positive"
  | .dragAlphaTarget => "drag_alpha_target must be in [0, 1)"
  | .nodeBox => "node bounding box must be positive"
  | .gaps => "rank_sep and node_sep cannot be negative"
  | .presetDirectory => "graphml_dir cannot be empty"

def message [NumberText R] (fault : SettingsFault R) : String :=
  (match fault.part with
    | .canvas => "Invalid canvas configuration: "
    | .options => "Invalid node options: "
    | .layout => "Invalid layout configuration: "
    | .assets => "Invalid asset configuration: ") ++ fault.detail

end SettingsFault

section

variable {R : Type} [Scalar R]

def SettingsFault.require (condition : Bool) (fault : SettingsFault R) :
    Except (SettingsFault R) Unit :=
  if condition then .ok () else .error fault

open SettingsFault (require)

def Canvas.validate (canvas : Canvas R) : Except (SettingsFault R) Unit :=
  require ((0.0 : R) < canvas.width && (0.0 : R) < canvas.height)
    (.canvas canvas.width canvas.height)

omit [Scalar R] in
def NodeOptions.validate (options : NodeOptions) : Except (SettingsFault R) Unit := do
  require (!options.versions.isEmpty) .noVersions
  require (!options.latencies.isEmpty) .noLatencies
  require (!options.ram.isEmpty && !options.cpu.isEmpty) .noResources

def ForceSettings.validate (force : ForceSettings R) : Except (SettingsFault R) Unit := do
  require ((0.0 : R) < force.alphaDecay && force.alphaDecay < (1.0 : R))
    (.alphaDecay force.alphaDecay)
  require ((0.0 : R) < force.alphaMin && force.alphaMin < (1.0 : R)) (.alphaMin force.alphaMin)
  require ((0.0 : R) ≤ force.velocityDecay && force.velocityDecay ≤ (1.0 : R))
    (.velocityDecay force.velocityDecay)
  require ((0.0 : R) < force.linkDistance) .linkDistance
  require ((0.0 : R) ≤ force.dragAlphaTarget && force.dragAlphaTarget < (1.0 : R))
    .dragAlphaTarget

def RankedSettings.validate (ranked : RankedSettings R) : Except (SettingsFault R) Unit := do
  require ((0.0 : R) < ranked.nodeWidth && (0.0 : R) < ranked.nodeHeight) .nodeBox
  require (!(ranked.rankGap < (0.0 : R) || ranked.nodeGap < (0.0 : R))) .gaps

/-- Checks all settings and reports the first fault. -/
def Settings.validate (settings : Settings R) : Except (SettingsFault R) Unit := do
  settings.canvas.validate
  settings.options.validate
  settings.layout.force.validate
  settings.layout.ranked.validate
  require (!Text.blank settings.assets.presetDirectory) .presetDirectory

end

end PeerNet
