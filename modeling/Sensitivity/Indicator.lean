import Sensitivity.Propagation
import Sensitivity.Score

/-! Importance of weights. A weight `w` between input `a` and output `o`
contributes `a · D · w` to a sensitivity, for the derivative `D` of `o`; a
convolution weight contributes the sum over all positions that it reads. Its
indicator is the largest score of the contributions, and zero at least. -/
namespace Sensitivity

/-- The indicators of one weighted layer, shaped as its weights. -/
structure LayerIndicators (α : Type) where
  path : String
  values : Tensor α

structure Indicators (α : Type) where
  layers : List (LayerIndicators α)

namespace Indicators

def ofValues {α : Type} (values : List (Tensor α)) : Indicators α :=
  ⟨values.mapIdx fun i t => ⟨"layer" ++ toString i,t⟩⟩

def total {α : Type} (ind : Indicators α) : Nat := (ind.layers.map (·.values.size)).sum

end Indicators

namespace Indicator

variable {α : Type} [Scalar α]

/-- The largest score over the rows, zero at least. -/
def best (score : Bound α → α) (rows : Nat) (contribution : Nat → Bound α) : α :=
  (List.range rows).foldl (fun best row => max best (score (contribution row))) 0

def denseContribution (t : DenseTransform α) (x d : Interval α) (i j row : Nat) : Bound α :=
  let n := t.layer.outputs
  ((x.read i).mul (d.read (row * n + j))).scale (t.layer.weights.read (i * n + j))

def dense (score : Bound α → α) (t : DenseTransform α) (x d : Interval α) :
    Except (Error α) (Tensor α) := do
  let n := t.layer.outputs
  let rows ← d.rowCount [n]
  if x.size ≠ t.layer.inputs then .error (.shapeMismatch [t.layer.inputs] [x.size])
  else return Tensor.ofFn [t.layer.inputs,n] fun k =>
    best score rows (denseContribution t x d (k / n) (k % n))

def cellsRead (layer : Convolution α) (length outputs extent : Nat) : List Nat :=
  (grid2 length outputs).filterMap fun (d,i) => layer.source? i d extent

def channelsRead (layer : Convolution α) : List Nat :=
  (grid2 layer.outputs layer.groupInputs).map fun (o,ci) => layer.inputChannel o ci

def ReadsInside (t : ConvolutionTransform α) (rows : Nat) (image : ImageShape) : Prop :=
  let channels := channelsRead t.layer
  let ys := cellsRead t.layer t.layer.height t.output.height t.input.height
  let zs := cellsRead t.layer t.layer.width t.output.width t.input.width
  rows = 0 ∨ channels = [] ∨ ys = [] ∨ zs = [] ∨
    ((∀ c ∈ channels, c < image.channels) ∧ (∀ y ∈ ys, y < image.height) ∧
      ∀ z ∈ zs, z < image.width)

instance (t : ConvolutionTransform α) (rows : Nat) (image : ImageShape) :
    Decidable (ReadsInside t rows image) :=
  inferInstanceAs (Decidable (_ ∨ _))

/-- What output position `(i, j)` adds to the sum of one filter weight. -/
def convolutionTerm (t : ConvolutionTransform α) (image : ImageShape) (x d : Interval α)
    (o ci di dj row : Nat) (acc : Bound α) (position : Nat × Nat) : Bound α :=
  let (i,j) := position
  match t.layer.source? i di t.input.height, t.layer.source? j dj t.input.width with
  | some y, some z =>
    acc.add ((x.at3 image.height image.width (t.layer.inputChannel o ci) y z).mul
      (d.at4 t.output.channels t.output.height t.output.width row o i j))
  | _, _ => acc

/-- The contribution of one filter weight to one row: the sum over all output positions. -/
def convolutionContribution (t : ConvolutionTransform α) (image : ImageShape)
    (x d : Interval α) (o ci di dj row : Nat) : Bound α :=
  ((grid2 t.output.height t.output.width).foldl
    (convolutionTerm t image x d o ci di dj row) 0).scale (t.layer.weight o ci di dj)

def convolution (score : Bound α → α) (t : ConvolutionTransform α) (x d : Interval α) :
    Except (Error α) (Tensor α) := do
  let rows ← d.rowCount t.output.toList
  match x.shape with
  | [c,h,w] =>
    let image : ImageShape := ⟨c,h,w⟩
    let layer := t.layer
    if ReadsInside t rows image then
      return Tensor.ofFn [layer.outputs,layer.groupInputs,layer.height,layer.width] fun k =>
        best score rows (convolutionContribution t image x d
          (k / layer.width / layer.height / layer.groupInputs)
          (k / layer.width / layer.height % layer.groupInputs)
          (k / layer.width % layer.height) (k % layer.width))
    else .error .outsideStorage
  | _ => .error (.badConfig .activationRank)

def stored (r : Run α) (node : Node) : Except (Error α) (Interval α × Interval α) :=
  match r.activation? node.id, r.derivative? node.id with
  | none, _ => .error (.badOrder .noActivation)
  | some _, none => .error (.badOrder .noDerivative)
  | some x, some d => .ok (x,d)

def ofNode (score : Bound α → α) (r : Run α) (node : Node) :
    Option (Transform α) → Option (Except (Error α) (LayerIndicators α))
  | some (.dense t) => some <| Error.within node.id node.path do
    let (x,d) ← stored r node
    return ⟨node.path,← dense score t x d⟩
  | some (.convolution t) => some <| Error.within node.id node.path do
    let (x,d) ← stored r node
    return ⟨node.path,← convolution score t x d⟩
  | _ => none

end Indicator

def Indicators.compute {α : Type} [Scalar α] (score : Bound α → α) (e : Engine α) (r : Run α) :
    Except (Error α) (Indicators α) := do
  return ⟨← (e.listing.filterMap fun entry => Indicator.ofNode score r entry.1 entry.2).mapM id⟩

end Sensitivity
