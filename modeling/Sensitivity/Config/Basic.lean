import Sensitivity.Score
import Sensitivity.Single

/-! Settings of one run: the input range, the fraction to prune and the score. -/
namespace Sensitivity

/-- When work is spread over several threads; results never depend on it. -/
structure Parallelism where
  enabled : Bool := true
  minItems : Nat := 64
deriving DecidableEq

namespace Parallelism

def applies (p : Parallelism) (items : Nat) : Bool := p.enabled && decide (p.minItems ≤ items)

end Parallelism

structure Config where
  inputMin : Single := Single.zero
  inputMax : Single := Single.ofNat 255
  fraction : Single := Single.zero
  score : Score := .maxAbs
  parallelism : Parallelism := {}
deriving DecidableEq

def checkFraction (fraction : Single) : Except (Error Single) Unit :=
  if 0 ≤ fraction ∧ fraction ≤ 1 then .ok () else .error (.badConfig (.fraction fraction))

namespace Config

/-- The input range as a bound: both ends are numbers, and in order. -/
def inputBound (c : Config) : Except (Error Single) (Bound Single) :=
  if c.inputMin.isNaN ∨ c.inputMax.isNaN ∨ c.inputMax < c.inputMin then
    .error (.badInterval (.inputRange c.inputMin c.inputMax))
  else .ok ⟨c.inputMin,c.inputMax⟩

def check (c : Config) : Except (Error Single) Unit := do
  let _ ← c.inputBound
  checkFraction c.fraction

end Config
end Sensitivity
