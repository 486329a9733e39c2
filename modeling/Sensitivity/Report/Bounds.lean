import Sensitivity.Propagation
import Sensitivity.Json.Number
import Sensitivity.Message
import Sensitivity.Text.Column

/-! Reports on the bounds of a run: how wide they are at each node, and where they stop
being useful. -/
namespace Sensitivity

open Numeric

structure NodeReport where
  path : String
  kind : String
  depth : Nat
  outputShape : List Nat
  activationWidth : Single
  derivativeWidth : Single
  hasNaN : Bool
  hasInfinite : Bool
deriving DecidableEq

inductive Status where
  | nan
  | infinite
  | saturated
  | exact
  | ok
deriving DecidableEq

namespace Status

def name : Status → String
  | .nan => "NAN"
  | .infinite => "INF"
  | .saturated => "SATURATED"
  | .exact => "EXACT"
  | .ok => "OK"

end Status

namespace NodeReport

/-- Wider bounds than this carry no information. -/
def saturationWidth : Single := Single.ofNat (10 ^ (30 : Nat))

def IsSaturated (n : NodeReport) : Prop :=
  saturationWidth < n.activationWidth ∨ saturationWidth < n.derivativeWidth

instance (n : NodeReport) : Decidable n.IsSaturated := inferInstanceAs (Decidable (_ ∨ _))

def hasDegraded (n : NodeReport) : Bool := n.hasNaN || n.hasInfinite || n.IsSaturated

def status (n : NodeReport) : Status :=
  if n.hasNaN then .nan
  else if n.hasInfinite then .infinite
  else if n.IsSaturated then .saturated
  else if Scalar.Same n.derivativeWidth 0 then .exact
  else .ok

/-- The report on a node; bounds that are not stored count as exact. -/
def ofRun (r : Run Single) (node : Node) : NodeReport :=
  let stored := (r.activation? node.id).toList ++ (r.derivative? node.id).toList
  { path := node.path
    kind := node.tag
    depth := node.depth
    outputShape := node.outputShape
    activationWidth := ((r.activation? node.id).map Interval.maxWidth).getD 0
    derivativeWidth := ((r.derivative? node.id).map Interval.maxWidth).getD 0
    hasNaN := stored.any Interval.hasNaN
    hasInfinite := stored.any Interval.hasInfinite }

def line (n : NodeReport) : String :=
  Text.row [
    Text.nameColumn (String.ofList (List.replicate (2 * n.depth) ' ') ++ n.path),
    Text.right 14 n.kind,
    Text.right 16 (shapeText n.outputShape),
    Text.right 10 (threeDecimals n.activationWidth),
    Text.right 10 (threeDecimals n.derivativeWidth),
    n.status.name ++ (if n.hasDegraded then " <<<" else "")]

def toJson (n : NodeReport) : Json :=
  .ofFields [
    ("path",.ofString n.path),
    ("kind",.ofString n.kind),
    ("depth",.ofNat n.depth),
    ("output_shape",.array (n.outputShape.map Json.ofNat)),
    ("activation_width",.ofSingle n.activationWidth),
    ("derivative_width",.ofSingle n.derivativeWidth),
    ("has_nan",.bool n.hasNaN),
    ("has_infinite",.bool n.hasInfinite)]

end NodeReport

/-- The bounds of all nodes after one run. -/
structure BoundsReport where
  network : String
  nodes : List NodeReport
  outputWidth : Single
  inputDerivativeWidth : Single
deriving DecidableEq

namespace BoundsReport

def ofRun (e : Engine Single) (r : Run Single) : BoundsReport :=
  { network := e.name
    nodes := e.nodes.map (NodeReport.ofRun r)
    outputWidth := r.output.maxWidth
    inputDerivativeWidth := r.inputDerivative.maxWidth }

def firstDegraded? (b : BoundsReport) : Option NodeReport := b.nodes.find? NodeReport.hasDegraded

/-- The table of all nodes. Its underline is as long as the title has bytes. -/
def summary (b : BoundsReport) : String :=
  let warning := match b.firstDegraded? with
    | some n => ["WARNING: Bounds degraded at " ++ n.path ++ " (" ++ n.status.name ++ ")"]
    | none => []
  Text.lines <|
    ["Bounds of '" ++ b.network ++ "'",
      Text.rule (b.network.utf8ByteSize + 12) '=',
      Text.row [Text.left 40 "Layer",Text.right 14 "Kind",Text.right 16 "Output",
        Text.right 10 "Act Width",Text.right 10 "Der Width","Status"],
      Text.rowRule [40,14,16,10,10,7]] ++
    b.nodes.map NodeReport.line ++
    ["",
      "Output width: " ++ threeDecimals b.outputWidth ++ ", input sensitivity width: " ++
        threeDecimals b.inputDerivativeWidth] ++
    warning

def toJson (b : BoundsReport) : Json :=
  .ofFields [
    ("network",.ofString b.network),
    ("nodes",.array (b.nodes.map NodeReport.toJson)),
    ("output_width",.ofSingle b.outputWidth),
    ("input_derivative_width",.ofSingle b.inputDerivativeWidth)]

end BoundsReport
end Sensitivity
