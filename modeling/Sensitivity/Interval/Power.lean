import Sensitivity.Interval.Basic

/-! Powers of interval tensors with one real exponent. -/
namespace Sensitivity.Interval

variable {α : Type} [Scalar α]

def wholePower (x : Interval α) (n : Int) : Except (Error α) (Interval α) :=
  if n < 0 ∧ 0 < x.zeroCount then .error (.outsideDomain (.wholePower n x.zeroCount))
  else .ok (x.map (Bound.ipow · n))

def smallest (x : Interval α) : α := Scalar.least (x.toList.map Bound.lower)

/-- A power that is not whole: a positive one needs cells from zero on, a negative one
cells above zero. -/
def realPower (x : Interval α) (e : α) : Except (Error α) (Interval α) :=
  let outside : Bool := if 0 < e then x.smallest < 0 else x.smallest ≤ 0
  if outside ∧ x.size ≠ 0 then
    .error (.outsideDomain (.realPower e (¬ 0 < e) x.smallest))
  else .ok (x.map (Bound.rpow · e))

/-- Cell-wise power: parity decides for whole exponents, monotonicity for the others. -/
def power (x : Interval α) (e : α) : Except (Error α) (Interval α) :=
  if Scalar.Same e 0 then .ok (Tensor.fill x.shape (Bound.point 1))
  else match Scalar.whole? e with
    | some n => x.wholePower n
    | none => x.realPower e

end Sensitivity.Interval
