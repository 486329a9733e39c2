import Sensitivity.Layer.Window

/-! Layers without weights that keep their shape: rectifier, softmax and dropout. -/
namespace Sensitivity

variable {α : Type} [Scalar α]

namespace Rectifier

def forward (x : Interval α) : Interval α := x.supScalar 0

/-- The slope is one above zero, zero below it, and between both where the
activation touches zero. -/
def slope (activation derivative : Bound α) : Bound α :=
  if 0 < activation.lower then derivative
  else if activation.upper < 0 then 0
  else derivative.hullWithZero

def Stretches (source target : List Nat) : Prop :=
  source.length = target.length ∧ ∀ p ∈ source.zip target, p.1 = p.2 ∨ p.1 = 1

instance (source target : List Nat) : Decidable (Stretches source target) :=
  inferInstanceAs (Decidable (_ ∧ _))

/-- One activation serves every row of the derivative. -/
def backward (x d : Interval α) : Except (Error α) (Interval α) :=
  match d.shape with
  | rows :: shape =>
    if Stretches x.shape shape then
      .ok (Tensor.ofFn d.shape fun i =>
        slope (x.read (Tensor.stretched x.shape shape (i % shape.prod))) (d.read i))
    else .error (.shapeMismatch (rows :: x.shape) d.shape)
  | [] => .error (.shapeMismatch (1 :: x.shape) d.shape)

end Rectifier

namespace Softmax

def sumFromEnd : List α → α
  | [] => 0
  | v :: rest => sumFromEnd rest + v

/-- For each value the sum of the others: `before`, the sum of what precedes the list, and
the sum of what follows the value. -/
def exclusiveSums : α → List α → List α
  | _, [] => []
  | before, v :: rest => (before + sumFromEnd rest) :: exclusiveSums (before + v) rest

/-- One share of a total, and a fixed answer where the total is not positive. -/
def share (v others fallback : α) : α := if 0 < v + others then v / (v + others) else fallback

/-- The bounds of one lane: each end of a cell meets the opposite ends of all others.
The lane is first shifted by its largest upper end. -/
def lane (x : List (Bound α)) : List (Bound α) :=
  let shift := Scalar.greatest (x.map Bound.upper)
  let low := x.map fun b => Scalar.exp (b.lower - shift)
  let high := x.map fun b => Scalar.exp (b.upper - shift)
  let lower := List.zipWith (share · · 0) low (exclusiveSums 0 high)
  let upper := List.zipWith (share · · 1) high (exclusiveSums 0 low)
  (List.zipWith Bound.mk lower upper).map Bound.ordered

def forward (x : Interval α) : Except (Error α) (Interval α) :=
  match x.shape.getLast? with
  | none => .error (.badConfig .softmaxScalar)
  | some n =>
    let table := Array.ofFn (n := x.shape.dropLast.prod) fun r =>
      (lane ((List.range n).map fun j => x.read (r * n + j))).toArray
    .ok (Tensor.ofFn x.shape fun i => (table.getD (i / n) #[]).getD (i % n) 0)

end Softmax

namespace Dropout

def check (rate : α) : Except (Error α) α :=
  if 0 ≤ rate ∧ rate < 1 then .ok rate else .error (.outsideDomain (.dropRate rate))

/-- The factor that replaces dropping in evaluation. -/
def keep (rate : α) : α := 1 - rate

end Dropout
end Sensitivity
