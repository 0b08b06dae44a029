import PeerNet.Decimal.Number
import PeerNet.Scalar

/-!
# Settings

What an editor can be configured with: the canvas, the values that node fields
may take, the parameters of the two layouts, and where presets are found. Every
part has the values that the editor ships with.
-/

set_option autoImplicit false

namespace PeerNet

structure Canvas (R : Type) where
  width : R
  height : R

structure NodeOptions where
  versions : List String := ["22.0", "23.0", "24.0", "24.1", "25.0", "26.0"]
  latencies : List String := ["0ms", "10ms", "50ms", "100ms", "200ms"]
  ram : List UInt32 := [1, 2, 4, 8, 16]
  cpu : List UInt32 := [1, 2, 4, 8]
  deriving DecidableEq, Repr

def NodeOptions.defaultVersion (options : NodeOptions) : String :=
  options.versions.getLast?.getD "26.0"

/-- A length of time in nanoseconds. -/
structure Duration where
  nanoseconds : Nat
  deriving DecidableEq, Repr

structure ForceSettings (R : Type) where
  linkDistance : R
  /-- The charge between each two nodes; a negative one repels. -/
  chargeStrength : R
  centerStrength : R
  alphaDecay : R
  alphaMin : R
  velocityDecay : R
  dragAlphaTarget : R
  tickInterval : Duration
  seed : UInt64

structure RankedSettings (R : Type) where
  nodeWidth : R
  nodeHeight : R
  rankGap : R
  nodeGap : R

structure LayoutSettings (R : Type) where
  force : ForceSettings R
  ranked : RankedSettings R

structure AssetSettings where
  presetDirectory : String := "graphml"
  deriving DecidableEq, Repr

structure Settings (R : Type) where
  canvas : Canvas R
  options : NodeOptions
  layout : LayoutSettings R
  assets : AssetSettings

section

variable {R : Type} [Scalar R]

def Canvas.center (canvas : Canvas R) : R × R :=
  (Scalar.half canvas.width, Scalar.half canvas.height)

def Canvas.standard : Canvas R := ⟨650.0, 650.0⟩

def ForceSettings.standard : ForceSettings R where
  linkDistance := 150.0
  chargeStrength := 0.0 - 60.0
  centerStrength := 0.05
  alphaDecay := 0.0228
  alphaMin := 0.001
  velocityDecay := 0.4
  dragAlphaTarget := 0.3
  tickInterval := ⟨16000000⟩
  seed := 0x5eed

def RankedSettings.standard : RankedSettings R where
  nodeWidth := 172.0
  nodeHeight := 36.0
  rankGap := 50.0
  nodeGap := 50.0

def Settings.standard : Settings R where
  canvas := .standard
  options := {}
  layout := ⟨.standard, .standard⟩
  assets := {}

end

end PeerNet
