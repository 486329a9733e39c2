import Sensitivity.Indicator
import Sensitivity.Single

/-! Summary statistics of indicators. -/
namespace Sensitivity

structure IndicatorStats where
  path : String
  count : Nat
  min : Single
  max : Single
  mean : Single
  zeros : Nat
deriving DecidableEq

/-- The mean, accumulated in 64-bit precision. -/
def Single.mean (values : List Single) : Single :=
  let sum := values.foldl (fun s v => s + v.toNative.toFloat) (0 : Float)
  Single.ofNative (sum / Float.ofNat values.length).toFloat32

/-- Statistics of one layer; those of no values are zero. -/
def LayerIndicators.stats (l : LayerIndicators Single) : IndicatorStats :=
  let values := l.values.toList
  let count := values.length
  { path := l.path
    count
    min := if count = 0 then 0 else Scalar.least values
    max := if count = 0 then 0 else Scalar.greatest values
    mean := if count = 0 then 0 else Single.mean values
    zeros := values.countP fun v => Scalar.Same v 0 }

def Indicators.stats (ind : Indicators Single) : List IndicatorStats :=
  ind.layers.map LayerIndicators.stats

end Sensitivity
