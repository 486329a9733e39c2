import Sensitivity.Layer.Window

/-! Grouped two-dimensional cross-correlations with symmetric zero padding. -/
namespace Sensitivity

/-- Filters of `groupInputs × height × width` weights, one for each output channel. -/
structure Convolution (α : Type) where
  outputs : Nat
  groupInputs : Nat
  height : Nat
  width : Nat
  weights : Tensor α
  shape_weights : weights.shape = [outputs,groupInputs,height,width]
  bias : Array α
  stride : Nat
  padding : Nat
  groups : Nat

namespace Convolution

variable {α : Type} [Scalar α]

/-- The stride is positive, the groups share the output channels, and each has a bias. -/
def check (layer : Convolution α) : Except (Error α) (Convolution α) :=
  if layer.stride = 0 then .error (.badConfig .zeroStride)
  else if layer.groups = 0 ∨ layer.outputs % layer.groups ≠ 0 then
    .error (.badConfig (.channelGroups layer.outputs layer.groups))
  else if layer.bias.size ≠ layer.outputs then
    .error (.shapeMismatch [layer.outputs] [layer.bias.size])
  else .ok layer

def weight (layer : Convolution α) (o ci di dj : Nat) : α :=
  layer.weights.at4 layer.groupInputs layer.height layer.width o ci di dj

/-- The input channel that filter channel `ci` of output channel `o` reads. -/
def inputChannel (layer : Convolution α) (o ci : Nat) : Nat :=
  o / (layer.outputs / layer.groups) * layer.groupInputs + ci

def filterChannel? (layer : Convolution α) (o c : Nat) : Option Nat :=
  if layer.inputChannel o 0 ≤ c ∧ c - layer.inputChannel o 0 < layer.groupInputs then
    some (c - layer.inputChannel o 0)
  else none

/-- The input cell along one axis that output `i` reads at filter offset `d`. -/
def source? (layer : Convolution α) (i d extent : Nat) : Option Nat :=
  Window.source? layer.stride layer.padding i d extent

def taps (layer : Convolution α) : List (Nat × Nat × Nat) :=
  grid3 layer.groupInputs layer.height layer.width

end Convolution

/-- The product of a weight and a bound; a negative weight swaps the ends. -/
def Bound.weighted {α : Type} [Scalar α] (b : Bound α) (w : α) : Bound α :=
  if 0 ≤ w then ⟨w * b.lower,w * b.upper⟩ else ⟨w * b.upper,w * b.lower⟩

structure ConvolutionTransform (α : Type) where
  layer : Convolution α
  input : ImageShape
  output : ImageShape

namespace ConvolutionTransform

variable {α : Type} [Scalar α]

def build (layer : Convolution α) (inputShape : List Nat) :
    Except (Error α) (ConvolutionTransform α) := do
  let layer ← layer.check
  let input ← ImageShape.ofShape "convolution" inputShape
  let channels := layer.groupInputs * layer.groups
  if input.channels ≠ channels then
    .error (.shapeMismatch [channels,input.height,input.width] inputShape)
  else
    let h ← Window.count input.height layer.height layer.stride layer.padding
    let w ← Window.count input.width layer.width layer.stride layer.padding
    return ⟨layer,input,⟨layer.outputs,h,w⟩⟩

/-- What one filter cell adds to output `(o, i, j)`; zero weights and padding add nothing. -/
def forwardTap (t : ConvolutionTransform α) (x : Interval α) (o i j : Nat)
    (acc : Bound α) (tap : Nat × Nat × Nat) : Bound α :=
  let (ci,di,dj) := tap
  let w := t.layer.weight o ci di dj
  if Scalar.Same w 0 then acc
  else match t.layer.source? i di t.input.height, t.layer.source? j dj t.input.width with
    | some y, some z =>
      acc.add ((x.at3 t.input.height t.input.width (t.layer.inputChannel o ci) y z).weighted w)
    | _, _ => acc

def forwardCell (t : ConvolutionTransform α) (x : Interval α) (o i j : Nat) : Bound α :=
  t.layer.taps.foldl (t.forwardTap x o i j) (Bound.point (t.layer.bias.getD o 0))

def forward (t : ConvolutionTransform α) (x : Interval α) : Except (Error α) (Interval α) := do
  x.expectShape t.input.toList
  return (Interval.ofImage t.output (t.forwardCell x)).ordered

/-- What output `(o, i, j)` of one row passes back to input cell `(c, y, z)`: the weight
through which the cell is read times the derivative; exact zeros pass nothing. -/
def backwardTerm (t : ConvolutionTransform α) (d : Interval α) (row c y z : Nat)
    (acc : Bound α) (out : Nat × Nat × Nat) : Bound α :=
  let (o,i,j) := out
  let b := d.at4 t.output.channels t.output.height t.output.width row o i j
  if b.IsZero then acc
  else
    let layer := t.layer
    match layer.filterChannel? o c,
        Window.offset? layer.stride layer.padding i y layer.height,
        Window.offset? layer.stride layer.padding j z layer.width with
    | some ci, some di, some dj => acc.add (b.weighted (layer.weight o ci di dj))
    | _, _, _ => acc

def backwardCell (t : ConvolutionTransform α) (d : Interval α) (row c y z : Nat) : Bound α :=
  (grid3 t.output.channels t.output.height t.output.width).foldl (t.backwardTerm d row c y z) 0

def backward (t : ConvolutionTransform α) (d : Interval α) : Except (Error α) (Interval α) := do
  let rows ← d.rowCount t.output.toList
  Interval.ofRows rows t.input (t.backwardCell d)

end ConvolutionTransform
end Sensitivity
