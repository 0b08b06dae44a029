import PeerNet.Config.Duration
import PeerNet.Json.Basic

/-!
# Settings from documents

Settings are read from the values of a document, whatever its notation. Every
field may be missing and then has its standard value. Unknown fields do not
count, and a known field must not be repeated.
-/

set_option autoImplicit false

namespace PeerNet

/-- Values of a document in some notation, as far as settings are read from
them. -/
class DocumentValue (V : Type) (R : outParam Type) where
  /-- The named fields of a record, as far as it has them; fails where the value
  is no record or repeats one of them. -/
  fields? : List String → V → Option (List (Option V))
  items? : V → Option (List V)
  text? : V → Option String
  number? : V → Option R
  natural? : Nat → V → Option Nat

instance {R : Type} [JsonNumber R] : DocumentValue (Json R) R where
  fields? := Json.fields?
  items? := Json.items?
  text? := Json.string?
  number? := Json.number?
  natural? := Json.natural?

open DocumentValue (fields? items? text? number? natural?)

variable {V R : Type} [Scalar R] [DocumentValue V R]

def readOr? {α : Type} (standard : α) (read? : V → Option α) : Option V → Option α
  | none => some standard
  | some value => read? value

omit [Scalar R] in
def readTexts? (value : V) : Option (List String) := do
  (← items? value).mapM text?

omit [Scalar R] in
def readWords? (value : V) : Option (List UInt32) := do
  (← items? value).mapM fun item => (natural? UInt32.size item).map UInt32.ofNat

omit [Scalar R] in
def readDuration? (value : V) : Option Duration := do
  Duration.ofText? (← text? value)

def Canvas.ofDocument? (value : V) : Option (Canvas R) := do
  let standard : Canvas R := .standard
  match ← fields? ["width", "height"] value with
  | [width, height] =>
    some {
      width := ← readOr? standard.width number? width
      height := ← readOr? standard.height number? height }
  | _ => none

omit [Scalar R] in
def NodeOptions.ofDocument? (value : V) : Option NodeOptions := do
  let standard : NodeOptions := {}
  match ← fields? ["versions", "latency_profiles", "ram", "cpu"] value with
  | [versions, latencies, ram, cpu] =>
    some {
      versions := ← readOr? standard.versions readTexts? versions
      latencies := ← readOr? standard.latencies readTexts? latencies
      ram := ← readOr? standard.ram readWords? ram
      cpu := ← readOr? standard.cpu readWords? cpu }
  | _ => none

def ForceSettings.documentFields : List String :=
  ["link_distance", "charge_strength", "center_strength", "alpha_decay", "alpha_min",
    "velocity_decay", "drag_alpha_target", "tick_interval", "seed"]

def ForceSettings.ofDocument? (value : V) : Option (ForceSettings R) := do
  let standard : ForceSettings R := .standard
  match ← fields? documentFields value with
  | [linkDistance, chargeStrength, centerStrength, alphaDecay, alphaMin, velocityDecay,
      dragAlphaTarget, tickInterval, seed] =>
    some {
      linkDistance := ← readOr? standard.linkDistance number? linkDistance
      chargeStrength := ← readOr? standard.chargeStrength number? chargeStrength
      centerStrength := ← readOr? standard.centerStrength number? centerStrength
      alphaDecay := ← readOr? standard.alphaDecay number? alphaDecay
      alphaMin := ← readOr? standard.alphaMin number? alphaMin
      velocityDecay := ← readOr? standard.velocityDecay number? velocityDecay
      dragAlphaTarget := ← readOr? standard.dragAlphaTarget number? dragAlphaTarget
      tickInterval := ← readOr? standard.tickInterval readDuration? tickInterval
      seed := .ofNat (← readOr? standard.seed.toNat (natural? UInt64.size) seed) }
  | _ => none

def RankedSettings.ofDocument? (value : V) : Option (RankedSettings R) := do
  let standard : RankedSettings R := .standard
  match ← fields? ["node_width", "node_height", "rank_sep", "node_sep"] value with
  | [nodeWidth, nodeHeight, rankGap, nodeGap] =>
    some {
      nodeWidth := ← readOr? standard.nodeWidth number? nodeWidth
      nodeHeight := ← readOr? standard.nodeHeight number? nodeHeight
      rankGap := ← readOr? standard.rankGap number? rankGap
      nodeGap := ← readOr? standard.nodeGap number? nodeGap }
  | _ => none

def LayoutSettings.ofDocument? (value : V) : Option (LayoutSettings R) := do
  match ← fields? ["force", "hierarchical"] value with
  | [force, ranked] =>
    some {
      force := ← readOr? .standard ForceSettings.ofDocument? force
      ranked := ← readOr? .standard RankedSettings.ofDocument? ranked }
  | _ => none

omit [Scalar R] in
def AssetSettings.ofDocument? (value : V) : Option AssetSettings := do
  match ← fields? ["graphml_dir"] value with
  | [directory] =>
    some { presetDirectory := ← readOr? ({} : AssetSettings).presetDirectory text? directory }
  | _ => none

def Settings.ofDocument? (value : V) : Option (Settings R) := do
  match ← fields? ["canvas", "node_options", "layout", "assets"] value with
  | [canvas, options, layout, assets] =>
    some {
      canvas := ← readOr? .standard Canvas.ofDocument? canvas
      options := ← readOr? {} NodeOptions.ofDocument? options
      layout := ← readOr? ⟨.standard, .standard⟩ LayoutSettings.ofDocument? layout
      assets := ← readOr? {} AssetSettings.ofDocument? assets }
  | _ => none

end PeerNet
