import Sensitivity.Layer.Window

/-! Square pooling windows over images: maxima and averages. -/
namespace Sensitivity

inductive PoolMode where
  | max
  | avg
deriving DecidableEq

/-- A square window of `size × size` cells. -/
structure Pooling where
  mode : PoolMode
  size : Nat
  stride : Nat
  padding : Nat
deriving DecidableEq

namespace Pooling

/-- Size and stride are positive, and the padding is narrower than the window. -/
def check {α : Type} (layer : Pooling) : Except (Error α) Pooling :=
  if layer.size = 0 ∨ layer.stride = 0 then
    .error (.badConfig (.poolExtent layer.size layer.stride))
  else if layer.size ≤ layer.padding then
    .error (.badConfig (.poolPadding layer.padding layer.size))
  else .ok layer

def window (layer : Pooling) (i extent : Nat) : List Nat :=
  span (Window.cells layer.stride layer.padding layer.size i extent)

end Pooling

structure PoolingTransform where
  layer : Pooling
  input : ImageShape
  output : ImageShape

namespace PoolingTransform

def build {α : Type} (layer : Pooling) (inputShape : List Nat) :
    Except (Error α) PoolingTransform := do
  let layer ← layer.check
  let input ← ImageShape.ofShape "pooling" inputShape
  let h ← Window.count input.height layer.size layer.stride layer.padding
  let w ← Window.count input.width layer.size layer.stride layer.padding
  return ⟨layer,input,⟨input.channels,h,w⟩⟩

def window (t : PoolingTransform) (i j : Nat) : List (Nat × Nat) :=
  (t.layer.window i t.input.height).flatMap fun y =>
    (t.layer.window j t.input.width).map fun z => (y,z)

variable {α : Type} [Scalar α]

/-- The number of cells of a full window, as a word. -/
def area (t : PoolingTransform) : Nat := t.layer.size * t.layer.size % Window.wordCount

def windowBounds (t : PoolingTransform) (x : Interval α) (c i j : Nat) : List (Bound α) :=
  (t.window i j).map fun (y,z) => x.at3 t.input.height t.input.width c y z

/-- The largest of both ends, or their sums over the area with padding counted in. -/
def forwardCell (t : PoolingTransform) (x : Interval α) (c i j : Nat) : Bound α :=
  let bounds := t.windowBounds x c i j
  match t.layer.mode with
  | .max => ⟨Scalar.greatest (bounds.map Bound.lower),Scalar.greatest (bounds.map Bound.upper)⟩
  | .avg =>
    let sum := bounds.foldl Bound.add 0
    ⟨sum.lower / (t.area : α),sum.upper / (t.area : α)⟩

def forward (t : PoolingTransform) (x : Interval α) : Except (Error α) (Interval α) := do
  x.expectShape t.input.toList
  return Interval.ofImage t.output (t.forwardCell x)

/-- The cells of a window that can hold its maximum: their upper ends reach the
largest lower end. -/
def contenders (t : PoolingTransform) (x : Interval α) (c i j : Nat) : List (Nat × Nat) :=
  let best := Scalar.greatest ((t.windowBounds x c i j).map Bound.lower)
  (t.window i j).filter fun (y,z) =>
    best ≤ (x.at3 t.input.height t.input.width c y z).upper

def routes (t : PoolingTransform) (x : Interval α) : Tensor (List (Nat × Nat)) :=
  let h := t.output.height
  let w := t.output.width
  Tensor.ofFn t.output.toList fun i => t.contenders x (i / w / h) (i / w % h) (i % w)

/-- What window `(i, j)` passes back to cell `(y, z)` of its channel: all of the
derivative to an only contender, and between none and all of it to each of several. -/
def maxTerm (t : PoolingTransform) (routes : Tensor (List (Nat × Nat))) (d : Interval α)
    (row c y z : Nat) (acc : Bound α) (out : Nat × Nat) : Bound α :=
  let (i,j) := out
  let route := routes.at3 t.output.height t.output.width c i j
  if (y,z) ∈ route then
    let b := d.at4 t.output.channels t.output.height t.output.width row c i j
    acc.add (if route.length = 1 then b else b.hullWithZero)
  else acc

/-- An equal share of the derivative to each cell of the window. -/
def avgTerm (t : PoolingTransform) (d : Interval α) (row c y z : Nat) (acc : Bound α)
    (out : Nat × Nat) : Bound α :=
  let (i,j) := out
  if (y,z) ∈ t.window i j then
    let b := d.at4 t.output.channels t.output.height t.output.width row c i j
    acc.add (b.scale (1 / (t.area : α)))
  else acc

def backward (t : PoolingTransform) (x d : Interval α) : Except (Error α) (Interval α) := do
  x.expectShape t.input.toList
  let rows ← d.rowCount t.output.toList
  match t.layer.mode with
  | .max =>
    let routes := t.routes x
    Interval.ofRows rows t.input fun row c y z =>
      (grid2 t.output.height t.output.width).foldl (t.maxTerm routes d row c y z) 0
  | .avg =>
    Interval.ofRows rows t.input fun row c y z =>
      (grid2 t.output.height t.output.width).foldl (t.avgTerm d row c y z) 0

end PoolingTransform
end Sensitivity
