import Sensitivity.Transform
import Sensitivity.Proofs.Position
import Sensitivity.Proofs.Sound.Bound

/-! Layers at exact values: the output of a layer, how it moves with the input, and how a
sensitivity to the output is passed back. Nothing here mentions a bound. -/
namespace Sensitivity

namespace Tensor

/-- A tensor with one cell replaced. -/
def update (t : Tensor ℝ) (k : ℕ) (v : ℝ) : Tensor ℝ :=
  t.mapPositions fun i w => if i = k then v else w

@[simp] theorem shape_update (t : Tensor ℝ) (k : ℕ) (v : ℝ) : (t.update k v).shape = t.shape := rfl

theorem read_update {t : Tensor ℝ} {i : ℕ} (k : ℕ) (v : ℝ) (h : i < t.shape.prod) :
    (t.update k v).read i = if i = k then v else t.read i :=
  read_mapPositions _ t h

theorem update_self (t : Tensor ℝ) (k : ℕ) : t.update k (t.read k) = t := by
  refine ext_read rfl fun i hi => ?_
  rw [read_update (t := t) k _ hi]
  split
  next h => rw [h]
  next => rfl

theorem hasDerivAt_read_update {t : Tensor ℝ} {i : ℕ} (k : ℕ) (v : ℝ) (h : i < t.shape.prod) :
    HasDerivAt (fun v => (t.update k v).read i) (if i = k then 1 else 0) v := by
  simp only [read_update k _ h]
  split
  · exact hasDerivAt_id' v
  · exact hasDerivAt_const v _

/-- An image, cell by cell. -/
def ofImage (image : ImageShape) (cell : ℕ → ℕ → ℕ → ℝ) : Tensor ℝ :=
  ofFn image.toList fun i =>
    cell (i / image.width / image.height) (i / image.width % image.height) (i % image.width)

@[simp] theorem shape_ofImage (image : ImageShape) (cell : ℕ → ℕ → ℕ → ℝ) :
    (ofImage image cell).shape = image.toList := rfl

/-- The cell of an image at a channel, row and column. -/
noncomputable def pixel (x : Tensor ℝ) (image : ImageShape) (c y z : ℕ) : ℝ :=
  x.at3 image.height image.width c y z

/-- The cell of an image that is surrounded by zeros. -/
noncomputable def padded (x : Tensor ℝ) (image : ImageShape) (c : ℕ) (y z : ℤ) : ℝ :=
  if 0 ≤ y ∧ y < image.height ∧ 0 ≤ z ∧ z < image.width then x.pixel image c y.toNat z.toNat else 0

end Tensor

/-- `y = x · W + b` over the flattened input. -/
noncomputable def DenseTransform.eval (t : DenseTransform ℝ) (x : Tensor ℝ) : Tensor ℝ :=
  Tensor.ofFn [t.layer.outputs] fun j =>
    (∑ i ∈ Finset.range t.layer.inputs, x.read i * t.layer.weights.read (i * t.layer.outputs + j)) +
      t.layer.bias.getD j 0

namespace ConvolutionTransform

/-- The value that output position `(i, j)` of channel `o` reads at one cell of its filter. -/
noncomputable def readAt (t : ConvolutionTransform ℝ) (x : Tensor ℝ) (o i j ci di dj : ℕ) : ℝ :=
  x.padded t.input (o / (t.layer.outputs / t.layer.groups) * t.layer.groupInputs + ci)
    (i * t.layer.stride + di - t.layer.padding) (j * t.layer.stride + dj - t.layer.padding)

/-- A bias and the products of a filter with the cells that it covers. -/
noncomputable def eval (t : ConvolutionTransform ℝ) (x : Tensor ℝ) : Tensor ℝ :=
  Tensor.ofImage t.output fun o i j =>
    t.layer.bias.getD o 0 + ∑ ci ∈ Finset.range t.layer.groupInputs,
      ∑ di ∈ Finset.range t.layer.height, ∑ dj ∈ Finset.range t.layer.width,
        t.layer.weights.at4 t.layer.groupInputs t.layer.height t.layer.width o ci di dj *
          t.readAt x o i j ci di dj

end ConvolutionTransform

namespace PoolingTransform

/-- The cells of an image under the window of an output position. -/
def under (t : PoolingTransform) (i j : ℕ) : Finset (ℕ × ℕ) :=
  (Finset.range t.input.height ×ˢ Finset.range t.input.width).filter fun p =>
    (i * t.layer.stride ≤ p.1 + t.layer.padding ∧
      p.1 + t.layer.padding < i * t.layer.stride + t.layer.size) ∧
    j * t.layer.stride ≤ p.2 + t.layer.padding ∧
      p.2 + t.layer.padding < j * t.layer.stride + t.layer.size

/-- The largest value under a window, or the sum over the size of a full window. -/
noncomputable def eval (t : PoolingTransform) (x : Tensor ℝ) : Tensor ℝ :=
  Tensor.ofImage t.output fun c i j =>
    match t.layer.mode with
    | .max => sSup (Set.image (fun p : ℕ × ℕ => x.pixel t.input c p.1 p.2) (t.under i j))
    | .avg => (∑ p ∈ t.under i j, x.pixel t.input c p.1 p.2) / (t.layer.size * t.layer.size)

/-- A cell with the largest value under a window, or no cell if there is none. -/
def Routes (t : PoolingTransform) (x : Tensor ℝ) (c i j : ℕ) : Option (ℕ × ℕ) → Prop
  | none => t.under i j = ∅
  | some p => p ∈ t.under i j ∧
    ∀ q ∈ t.under i j, x.pixel t.input c q.1 q.2 ≤ x.pixel t.input c p.1 p.2

/-- Every window sends all of its sensitivity to one of its largest cells. -/
def MaxSlopes (t : PoolingTransform) (x : Tensor ℝ) (slope : ℕ → ℕ → ℝ) : Prop :=
  ∀ c < t.output.channels, ∀ i < t.output.height, ∀ j < t.output.width,
    ∃ route, t.Routes x c i j route ∧ ∀ k, slope (t.output.position c i j) k =
      if ∃ p ∈ route, t.input.position c p.1 p.2 = k then 1 else 0

end PoolingTransform

namespace ResponseNormTransform

/-- The channels at most half the local range away from a channel. -/
def nearby (t : ResponseNormTransform ℝ) (c : ℕ) : Finset ℕ :=
  (Finset.range t.image.channels).filter fun j =>
    j ≤ c + t.layer.localRange / 2 ∧ c ≤ j + t.layer.localRange / 2

/-- Each value over a power of the squares of the channels nearby. -/
noncomputable def eval (t : ResponseNormTransform ℝ) (x : Tensor ℝ) : Tensor ℝ :=
  Tensor.ofImage t.image fun c y z =>
    x.pixel t.image c y z / (t.layer.offset + t.layer.alpha *
      ∑ j ∈ t.nearby c, x.pixel t.image j y z ^ 2) ^ t.layer.beta

end ResponseNormTransform

noncomputable def Rectifier.eval (x : Tensor ℝ) : Tensor ℝ := x.map (max · 0)

/-- The slopes of a rectifier at a value: any between zero and one where it has no derivative. -/
def Rectifier.IsSlope (v s : ℝ) : Prop := (0 < v → s = 1) ∧ (v < 0 → s = 0) ∧ 0 ≤ s ∧ s ≤ 1

/-- The exponential of each value, over the sum of those along the last axis. -/
noncomputable def Softmax.eval (x : Tensor ℝ) : Tensor ℝ :=
  let n := x.shape.getLast?.getD 1
  Tensor.ofFn x.shape fun i =>
    Real.exp (x.read i) / ∑ j ∈ Finset.range n, Real.exp (x.read (i / n * n + j))

namespace Transform

/-- The output of a layer. -/
noncomputable def eval (t : Transform ℝ) (x : Tensor ℝ) : Tensor ℝ :=
  match t with
  | .dense t => t.eval x
  | .convolution t => t.eval x
  | .pooling t => t.eval x
  | .responseNorm t => t.eval x
  | .relu => Rectifier.eval x
  | .softmax => Softmax.eval x
  | .dropout keep => x.map (· * keep)

/-- Output value `i` of a layer has the derivative `slope i k` by its input value `k`. -/
def HasSlopes (t : Transform ℝ) (x : Tensor ℝ) (slope : ℕ → ℕ → ℝ) : Prop :=
  ∀ i < (t.eval x).shape.prod, ∀ k < x.shape.prod,
    HasDerivAt (fun v => (t.eval (x.update k v)).read i) (slope i k) (x.read k)

/-- The slopes that a sensitivity is passed back through: the derivatives, with any of the
admitted slopes where a rectifier or a maximum has none. A softmax passes on what it receives. -/
def Slopes (t : Transform ℝ) (x : Tensor ℝ) (slope : ℕ → ℕ → ℝ) : Prop :=
  match t with
  | .relu => ∀ i < x.shape.prod, ∃ s, Rectifier.IsSlope (x.read i) s ∧
    ∀ k, slope i k = if i = k then s else 0
  | .softmax => ∀ i < x.shape.prod, ∀ k, slope i k = if i = k then 1 else 0
  | .pooling p =>
    match p.layer.mode with
    | .max => p.MaxSlopes x slope
    | .avg => (Transform.pooling p).HasSlopes x slope
  | t => t.HasSlopes x slope

/-- A sensitivity to the output of a layer at an input, and what it gives for the input. -/
def Reverses (t : Transform ℝ) (x sensitivity returned : Tensor ℝ) : Prop :=
  returned.shape = x.shape ∧ ∃ slope, t.Slopes x slope ∧ ∀ k < x.shape.prod,
    returned.read k = ∑ i ∈ Finset.range sensitivity.shape.prod, sensitivity.read i * slope i k

end Transform

/-- The number of windows that fit along a padded axis, whatever a word can hold. -/
def Window.number (extent window stride padding : ℕ) : ℕ :=
  (extent + 2 * padding - window) / stride + 1

namespace Operation

/-- A layer over inputs of a shape. The output of a layer with windows has a row and a column for
each window that fits, and a dropout keeps each value with the probability that it is not dropped. -/
def onShape (op : Operation ℝ) (shape : List ℕ) : Transform ℝ :=
  let image : ImageShape := ⟨shape.getD 0 0,shape.getD 1 0,shape.getD 2 0⟩
  match op with
  | .dense layer => .dense ⟨layer,shape⟩
  | .convolution layer => .convolution ⟨layer,image,layer.outputs,
      Window.number image.height layer.height layer.stride layer.padding,
      Window.number image.width layer.width layer.stride layer.padding⟩
  | .pooling layer => .pooling ⟨layer,image,image.channels,
      Window.number image.height layer.size layer.stride layer.padding,
      Window.number image.width layer.size layer.stride layer.padding⟩
  | .responseNorm layer => .responseNorm ⟨layer,image⟩
  | .relu => .relu
  | .softmax => .softmax
  | .dropout rate => .dropout (1 - rate)

/-- The output of a layer. -/
noncomputable def eval (op : Operation ℝ) (x : Tensor ℝ) : Tensor ℝ := (op.onShape x.shape).eval x

/-- A sensitivity to the output of a layer at an input, and what it gives for the input. -/
def Reverses (op : Operation ℝ) (x sensitivity returned : Tensor ℝ) : Prop :=
  (op.onShape x.shape).Reverses x sensitivity returned

end Operation
end Sensitivity
