import Sensitivity.Interval.Contraction
import Sensitivity.Layer.Window

/-! Fully connected layers: `y = x · W + b` over the flattened input. -/
namespace Sensitivity

/-- A weight for each input and output, and one bias for each output. -/
structure Dense (α : Type) where
  inputs : Nat
  outputs : Nat
  weights : Tensor α
  shape_weights : weights.shape = [inputs,outputs]
  bias : Array α

namespace Dense

variable {α : Type} [Scalar α]

def check (layer : Dense α) : Except (Error α) (Dense α) :=
  if layer.bias.size = layer.outputs then .ok layer
  else .error (.shapeMismatch [layer.outputs] [layer.bias.size])

def transposed (layer : Dense α) : Tensor α :=
  Tensor.ofFn [layer.outputs,layer.inputs] fun i =>
    layer.weights.read (i % layer.inputs * layer.outputs + i / layer.inputs)

end Dense

structure DenseTransform (α : Type) where
  layer : Dense α
  inputShape : List Nat

namespace DenseTransform

variable {α : Type} [Scalar α]

def build (layer : Dense α) (inputShape : List Nat) : Except (Error α) (DenseTransform α) :=
  if inputShape.prod = layer.inputs then .ok ⟨layer,inputShape⟩
  else .error (.shapeMismatch [layer.inputs] [inputShape.prod])

def forward (t : DenseTransform α) (x : Interval α) : Except (Error α) (Interval α) := do
  (← Interval.contract x.flatten t.layer.weights).addTensor (Tensor.ofArray t.layer.bias)

/-- The derivative rows against the transposed weights, in the shape of the input. -/
def backward (t : DenseTransform α) (d : Interval α) : Except (Error α) (Interval α) := do
  let rows ← d.rowCount [t.layer.outputs]
  (← Interval.contract d t.layer.transposed).reshape (rows :: t.inputShape)

end DenseTransform
end Sensitivity
