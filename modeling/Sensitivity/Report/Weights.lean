import Sensitivity.Statistics
import Sensitivity.Pruning
import Sensitivity.Json.Number
import Sensitivity.Text.Column

/-! Reports on indicators and on pruning. -/
namespace Sensitivity

open Numeric

def IndicatorStats.line (s : IndicatorStats) : String :=
  Text.row [
    Text.nameColumn s.path,
    Text.right 9 (toString s.count),
    Text.right 10 (threeDecimals s.min),
    Text.right 10 (threeDecimals s.mean),
    Text.right 10 (threeDecimals s.max),
    Text.right 7 (toString s.zeros)]

namespace Indicators

def summary (ind : Indicators Single) : String :=
  Text.lines <|
    ["Weight Indicators",
      "=================",
      Text.row [Text.left 40 "Layer",Text.right 9 "Weights",Text.right 10 "Min",
        Text.right 10 "Mean",Text.right 10 "Max",Text.right 7 "Zeros"],
      Text.rowRule [40,9,10,10,10,7]] ++
    ind.stats.map IndicatorStats.line ++
    ["","Total weights: " ++ toString ind.total]

def toJson (ind : Indicators Single) : Json :=
  .ofFields [("layers",.array (ind.layers.map fun l => .ofFields [
    ("path",.ofString l.path),
    ("values",.ofFields [
      ("v",.ofNat 1),
      ("dim",.array (l.values.shape.map Json.ofNat)),
      ("data",.array (l.values.toList.map Json.ofSingle))])]))]

end Indicators

namespace PruneReport

/-- The share of zeroed weights in percent, in 64-bit precision; nothing of nothing is zero. -/
def percent (r : PruneReport) : Magnitude :=
  let share := do
    let zeroed ← roundRatio binary64 r.zeroed 1
    let total ← roundRatio binary64 r.totalWeights 1
    Magnitude.div binary64 (← Magnitude.mul binary64 ⟨100,0⟩ zeroed) total
  if r.totalWeights = 0 then ⟨0,0⟩ else share.getD ⟨0,0⟩

def summary (r : PruneReport) : String :=
  Text.lines <|
    ("Zeroed " ++ toString r.zeroed ++ " of " ++ toString r.totalWeights ++ " weights (" ++
      twoPlaces r.percent ++ "%)") ::
    r.layers.map fun l =>
      "  " ++ Text.nameColumn l.path ++ " " ++ Text.right 9 (toString l.zeroed) ++ " / " ++
        Text.left 9 (toString l.total)

def toJson (r : PruneReport) : Json :=
  .ofFields [
    ("total_weights",.ofNat r.totalWeights),
    ("zeroed",.ofNat r.zeroed),
    ("layers",.array (r.layers.map fun l => .ofFields [
      ("path",.ofString l.path),
      ("total",.ofNat l.total),
      ("zeroed",.ofNat l.zeroed)]))]

end PruneReport
end Sensitivity
