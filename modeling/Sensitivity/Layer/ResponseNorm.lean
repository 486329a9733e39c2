import Sensitivity.Layer.Window

/-! Local response normalization across channels: `y = x / (c + α x²)^β`, where
`c` collects the other channels of the window. The function and its derivatives
are not monotone, so each bound is the hull of finitely many candidates: the
corners of the box and the stationary points inside it. -/
namespace Sensitivity

/-- A window of channels, an offset and the two exponents of the norm. -/
structure ResponseNorm (α : Type) where
  localRange : Nat
  offset : α
  alpha : α
  beta : α
deriving DecidableEq

namespace ResponseNorm

variable {α : Type} [Scalar α]

/-- The window holds a channel, the offset is positive, and the norm does not amplify. -/
def check (layer : ResponseNorm α) : Except (Error α) (ResponseNorm α) :=
  if layer.localRange = 0 then .error (.badConfig .zeroLocalRange)
  else if ¬ 0 < layer.offset ∨ ¬ 0 ≤ layer.alpha ∨ ¬ 0 ≤ layer.beta then
    .error (.outsideDomain (.responseNorm layer.offset layer.alpha layer.beta))
  else .ok layer

/-- The channels around `c` that normalize it: from the first up to the second one. -/
def window (layer : ResponseNorm α) (c channels : Nat) : Nat × Nat :=
  (c - layer.localRange / 2,min (c + layer.localRange / 2 + 1) channels)

def two : α := ((2 : Nat) : α)

def outputAt (alpha beta x c : α) : α := x / Scalar.rpow (c + alpha * x * x) beta

/-- Candidates for the output on one edge of `c`: both ends, and for `β > 1/2` the two
points where the output is stationary in `x`. -/
def outputCandidates (x : Bound α) (alpha beta c : α) : List α :=
  let ends := [outputAt alpha beta x.lower c,outputAt alpha beta x.upper c]
  if 0 < alpha ∧ 1 < two * beta then
    let r := Scalar.sqrt (c / (alpha * (two * beta - 1)))
    ends ++ ([r,-r].filter fun v => x.Contains v).map (outputAt alpha beta · c)
  else ends

def output (x c : Bound α) (alpha beta : α) : Bound α :=
  (outputCandidates x alpha beta c.lower ++ outputCandidates x alpha beta c.upper).foldl Bound.push
    (Bound.point (outputAt alpha beta x.lower c.lower))

/-- The derivative of a channel's output by its own input, at the square `u` of that input. -/
def selfAt (alpha beta u c : α) : α :=
  (c + alpha * (1 - two * beta) * u) / Scalar.rpow (c + alpha * u) (beta + 1)

/-- Candidates on one edge of `c`: both ends of `u`, and for `β > 1/2` the point where the
derivative is stationary in `u`. -/
def selfCandidates (u : Bound α) (alpha beta c : α) : List α :=
  let ends := [selfAt alpha beta u.lower c,selfAt alpha beta u.upper c]
  if 0 < alpha ∧ 1 < two * beta then
    let stationary := ((3 : Nat) : α) * c / (alpha * (two * beta - 1))
    if u.Contains stationary then ends ++ [selfAt alpha beta stationary c] else ends
  else ends

def selfEdgeCandidates (c : Bound α) (alpha beta u : α) : List α :=
  let stationary := alpha * (two * beta + 1) * u
  if c.Contains stationary then [selfAt alpha beta u stationary] else []

def selfDerivative (x c : Bound α) (alpha beta : α) : Bound α :=
  let u := x.square
  let edges := if 0 < alpha then
      selfEdgeCandidates c alpha beta u.lower ++ selfEdgeCandidates c alpha beta u.upper
    else []
  (selfCandidates u alpha beta c.lower ++ selfCandidates u alpha beta c.upper ++ edges).foldl
    Bound.push (Bound.point (selfAt alpha beta u.lower c.lower))

/-- The derivative of a channel's output by the input `p` of a neighbour, `q` being its own. -/
def neighborAt (alpha beta p q c : α) : α :=
  -two * alpha * beta * p * q /
    Scalar.rpow (c + alpha * p * p + alpha * q * q) (beta + 1)

/-- Candidates on one edge of `c`: the corners, the four points that are stationary in both
inputs, and the points that are stationary along an edge of the box. -/
def neighborCandidates (xj xc : Bound α) (alpha beta c : α) : List α :=
  let value (pq : α × α) := neighborAt alpha beta pq.1 pq.2 c
  let corners := [(xj.lower,xc.lower),(xj.lower,xc.upper),(xj.upper,xc.lower),
    (xj.upper,xc.upper)]
  let r := Scalar.sqrt (c / (two * alpha * beta))
  let inside := [(r,r),(r,-r),(-r,r),(-r,-r)].filter fun pq =>
    xj.Contains pq.1 ∧ xc.Contains pq.2
  let edge := alpha * (two * beta + 1)
  let turn (p : α) := Scalar.sqrt ((c + alpha * p * p) / edge)
  let rows := [xj.lower,xj.upper].flatMap fun p =>
    ([turn p,-turn p].filter fun q => xc.Contains q).map fun q => (p,q)
  let columns := [xc.lower,xc.upper].flatMap fun q =>
    ([turn q,-turn q].filter fun p => xj.Contains p).map fun p => (p,q)
  (corners ++ inside ++ rows ++ columns).map value

def neighborDerivative (xj xc c : Bound α) (alpha beta : α) : Bound α :=
  if Scalar.Same alpha 0 ∨ Scalar.Same beta 0 then 0
  else
    let zero := if xj.ContainsZero ∨ xc.ContainsZero then [0] else []
    (zero ++ neighborCandidates xj xc alpha beta c.lower ++
      neighborCandidates xj xc alpha beta c.upper).foldl Bound.push
      (Bound.point (neighborAt alpha beta xj.lower xc.lower c.lower))

/-- The offset and `α` times the squares of the window of `c`, some channels left out. -/
def denominator (layer : ResponseNorm α) (squares : Array (Bound α)) (c : Nat)
    (skipped : List Nat) : Bound α :=
  let sum : Bound α := (span (layer.window c squares.size)).foldl
    (fun s j => if j ∈ skipped then s else s.add (squares.getD j 0)) 0
  ⟨layer.offset + layer.alpha * sum.lower,layer.offset + layer.alpha * sum.upper⟩

def outputs (layer : ResponseNorm α) (column : Array (Bound α)) : Array (Bound α) :=
  let squares := column.map Bound.square
  column.mapIdx fun c b => output b (layer.denominator squares c [c]) layer.alpha layer.beta

def derivative (layer : ResponseNorm α) (column squares : Array (Bound α)) (c j : Nat) :
    Bound α :=
  if j = c then
    selfDerivative (column.getD c 0) (layer.denominator squares c [c]) layer.alpha layer.beta
  else
    neighborDerivative (column.getD j 0) (column.getD c 0) (layer.denominator squares c [c,j])
      layer.alpha layer.beta

/-- For each channel `c` the derivatives by the channels of its window, in order. -/
def jacobian (layer : ResponseNorm α) (column : Array (Bound α)) : Array (Array (Bound α)) :=
  let squares := column.map Bound.square
  Array.ofFn (n := column.size) fun c =>
    ((span (layer.window c column.size)).map fun j =>
      layer.derivative column squares c j).toArray

end ResponseNorm

structure ResponseNormTransform (α : Type) where
  layer : ResponseNorm α
  image : ImageShape

namespace ResponseNormTransform

variable {α : Type} [Scalar α]

def build (layer : ResponseNorm α) (inputShape : List Nat) :
    Except (Error α) (ResponseNormTransform α) := do
  let layer ← layer.check
  return ⟨layer,← ImageShape.ofShape "local response normalization" inputShape⟩

def column (t : ResponseNormTransform α) (x : Interval α) (position : Nat) : Array (Bound α) :=
  Array.ofFn (n := t.image.channels) fun c => x.read (c * t.image.area + position)

def forward (t : ResponseNormTransform α) (x : Interval α) : Except (Error α) (Interval α) := do
  x.expectShape t.image.toList
  let table := Array.ofFn (n := t.image.area) fun p => t.layer.outputs (t.column x p)
  return Interval.ofImage t.image fun c y z =>
    (table.getD (y * t.image.width + z) #[]).getD c 0

/-- What channel `c` passes back to channel `j` at position `(y, z)`; exact zeros pass nothing. -/
def backwardTerm (t : ResponseNormTransform α) (table : Array (Array (Array (Bound α))))
    (d : Interval α) (row j y z : Nat) (acc : Bound α) (c : Nat) : Bound α :=
  let (start,stop) := t.layer.window c t.image.channels
  let b := d.at4 t.image.channels t.image.height t.image.width row c y z
  if b.IsZero then acc
  else if start ≤ j ∧ j < stop then
    let jacobian := table.getD (y * t.image.width + z) #[]
    acc.add (b.mul ((jacobian.getD c #[]).getD (j - start) 0))
  else acc

def backward (t : ResponseNormTransform α) (x d : Interval α) :
    Except (Error α) (Interval α) := do
  x.expectShape t.image.toList
  let rows ← d.rowCount t.image.toList
  let table := Array.ofFn (n := t.image.area) fun p => t.layer.jacobian (t.column x p)
  Interval.ofRows rows t.image fun row j y z =>
    (List.range t.image.channels).foldl (t.backwardTerm table d row j y z) 0

end ResponseNormTransform
end Sensitivity
