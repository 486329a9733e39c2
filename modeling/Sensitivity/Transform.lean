import Sensitivity.Network.Basic

/-! Layers resolved against the shape of their input. The forward rule bounds a
layer's output from the bound on its input; the backward rule bounds the
sensitivity to the input from the one to the output. -/
namespace Sensitivity

variable {α : Type} [Scalar α]

inductive Transform (α : Type) where
  | dense (t : DenseTransform α)
  | convolution (t : ConvolutionTransform α)
  | pooling (t : PoolingTransform)
  | responseNorm (t : ResponseNormTransform α)
  | relu
  | softmax
  | dropout (keep : α)

namespace Transform

def tag {α : Type} : Transform α → String
  | .dense _ => "fully_connected"
  | .convolution _ => "convolutional"
  | .pooling t => match t.layer.mode with
    | .max => "max_pool"
    | .avg => "avg_pool"
  | .responseNorm _ => "norm"
  | .relu => "relu"
  | .softmax => "softmax"
  | .dropout _ => "dropout"

/-- Checks an operation again and fits it to an input shape; also gives the output shape. -/
def ofOperation (op : Operation α) (inputShape : List Nat) :
    Except (Error α) (Transform α × List Nat) :=
  match op with
  | .dense layer => do
    return (.dense (← DenseTransform.build layer inputShape),[layer.outputs])
  | .convolution layer => do
    let t ← ConvolutionTransform.build layer inputShape
    return (.convolution t,t.output.toList)
  | .pooling layer => do
    let t ← PoolingTransform.build layer inputShape
    return (.pooling t,t.output.toList)
  | .responseNorm layer => do
    return (.responseNorm (← ResponseNormTransform.build layer inputShape),inputShape)
  | .relu => .ok (.relu,inputShape)
  | .softmax =>
    if inputShape = [] then .error (.badConfig .softmaxShape) else .ok (.softmax,inputShape)
  | .dropout rate => do
    return (.dropout (Dropout.keep (← Dropout.check rate)),inputShape)

/-- The transform of a layer kind; a block has none of its own. -/
def build (kind : LayerKind α) (inputShape : List Nat) :
    Except (Error α) (Transform α × List Nat) :=
  match kind with
  | .single op => ofOperation op inputShape
  | .block _ => .error (.unsupported .compositeBlock)

def forward (t : Transform α) (x : Interval α) : Except (Error α) (Interval α) :=
  match t with
  | .dense t => t.forward x
  | .convolution t => t.forward x
  | .pooling t => t.forward x
  | .responseNorm t => t.forward x
  | .relu => .ok (Rectifier.forward x)
  | .softmax => Softmax.forward x
  | .dropout keep => .ok (x.scale keep)

/-- The bound on the sensitivity to the input. A softmax closes its network, and its
sensitivity is seeded directly. -/
def backward (t : Transform α) (x d : Interval α) : Except (Error α) (Interval α) :=
  match t with
  | .dense t => t.backward d
  | .convolution t => t.backward d
  | .pooling t => t.backward x d
  | .responseNorm t => t.backward x d
  | .relu => Rectifier.backward x d
  | .softmax => .ok d
  | .dropout keep => .ok (d.scale keep)

end Transform
end Sensitivity
