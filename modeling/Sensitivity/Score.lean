import Sensitivity.Bound
import Sensitivity.Error

/-! Scores: how a bound on a weight's contribution becomes one number. -/
namespace Sensitivity

inductive Score where
  | maxAbs
  | upper
  | width
deriving DecidableEq

namespace Score

variable {α : Type}

def apply [Scalar α] : Score → Bound α → α
  | .maxAbs, b => b.maxAbs
  | .upper, b => b.upper
  | .width, b => b.width

def name : Score → String
  | .maxAbs => "max-abs"
  | .upper => "upper"
  | .width => "width"

def ofName (name : String) : Except (Error α) Score :=
  if name = "max-abs" ∨ name = "max_abs" then .ok .maxAbs
  else if name = "upper" then .ok .upper
  else if name = "width" then .ok .width
  else .error (.badConfig (.unknownScore name))

end Score
end Sensitivity
