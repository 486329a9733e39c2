import Sensitivity.Layer.Dense
import Sensitivity.Layer.Convolution
import Sensitivity.Layer.Pooling
import Sensitivity.Layer.ResponseNorm
import Sensitivity.Layer.Activation

/-! Networks: named layers in order, where a block runs branches side by side
and joins their channels. Shapes are not stored; they follow from the input. -/
namespace Sensitivity

/-- What a single layer computes. -/
inductive Operation (α : Type) where
  | dense (layer : Dense α)
  | convolution (layer : Convolution α)
  | pooling (layer : Pooling)
  | responseNorm (layer : ResponseNorm α)
  | relu
  | softmax
  | dropout (rate : α)

namespace Operation

variable {α : Type}

def tag : Operation α → String
  | .dense _ => "fully_connected"
  | .convolution _ => "convolutional"
  | .pooling layer => match layer.mode with
    | .max => "max_pool"
    | .avg => "avg_pool"
  | .responseNorm _ => "norm"
  | .relu => "relu"
  | .softmax => "softmax"
  | .dropout _ => "dropout"

def weights? : Operation α → Option (Tensor α)
  | .dense layer => some layer.weights
  | .convolution layer => some layer.weights
  | _ => none

def isWeighted (op : Operation α) : Bool := op.weights?.isSome

def mapWeights (f : Nat → α → α) : Operation α → Operation α
  | .dense layer => .dense
    { layer with
      weights := layer.weights.mapPositions f
      shape_weights := layer.shape_weights }
  | .convolution layer => .convolution
    { layer with
      weights := layer.weights.mapPositions f
      shape_weights := layer.shape_weights }
  | op => op

end Operation

mutual

/-- Layers in order, each a single operation or a block of branches. -/
inductive Layers (α : Type) where
  | nil
  | single (name : String) (op : Operation α) (rest : Layers α)
  | block (name : String) (branches : Branches α) (rest : Layers α)

/-- The branches of a block; one without layers passes its input on. -/
inductive Branches (α : Type) where
  | nil
  | cons (name : String) (layers : Layers α) (rest : Branches α)

end

/-- The kind of one layer, whatever its name and place. -/
inductive LayerKind (α : Type) where
  | single (op : Operation α)
  | block (branches : Branches α)

/-- A network and the shape of one input sample. -/
structure Network (α : Type) where
  name : String
  inputShape : List Nat
  layers : Layers α

def layerPath (parent name : String) : String :=
  if parent = "" then name else parent ++ "/" ++ name

variable {α : Type}

namespace LayerKind

def tag : LayerKind α → String
  | .single op => op.tag
  | .block _ => "inception"

def isWeighted : LayerKind α → Bool
  | .single op => op.isWeighted
  | .block _ => false

end LayerKind

namespace Branches

def isEmpty : Branches α → Bool
  | .nil => true
  | .cons .. => false

end Branches

namespace Layers

def isEmpty : Layers α → Bool
  | .nil => true
  | _ => false

def kinds : Layers α → List (String × LayerKind α)
  | .nil => []
  | .single name op rest => (name,.single op) :: rest.kinds
  | .block name branches rest => (name,.block branches) :: rest.kinds

end Layers

mutual

def Layers.nodeCount : Layers α → Nat
  | .nil => 0
  | .single _ _ rest => 1 + rest.nodeCount
  | .block _ branches rest => 1 + branches.nodeCount + rest.nodeCount

def Branches.nodeCount : Branches α → Nat
  | .nil => 0
  | .cons _ layers rest => layers.nodeCount + rest.nodeCount

end

mutual

/-- Paths and weights of the weighted layers, depth first in order of declaration. -/
def Layers.weighted (parent : String) : Layers α → List (String × Tensor α)
  | .nil => []
  | .single name op rest =>
    (op.weights?.toList.map fun w => (layerPath parent name,w)) ++ rest.weighted parent
  | .block name branches rest =>
    branches.weighted (layerPath parent name) ++ rest.weighted parent

def Branches.weighted (parent : String) : Branches α → List (String × Tensor α)
  | .nil => []
  | .cons name layers rest =>
    layers.weighted (layerPath parent name) ++ rest.weighted parent

end

mutual

def Layers.weightedCount : Layers α → Nat
  | .nil => 0
  | .single _ op rest => (if op.isWeighted then 1 else 0) + rest.weightedCount
  | .block _ branches rest => branches.weightedCount + rest.weightedCount

def Branches.weightedCount : Branches α → Nat
  | .nil => 0
  | .cons _ layers rest => layers.weightedCount + rest.weightedCount

end

mutual

/-- Changes each weight by the position of its layer among the weighted ones, counted
from `first`, by its position in the layer, and by its value. -/
def Layers.mapWeights (f : Nat → Nat → α → α) (first : Nat) : Layers α → Layers α
  | .nil => .nil
  | .single name op rest =>
    .single name (op.mapWeights (f first))
      (rest.mapWeights f (first + if op.isWeighted then 1 else 0))
  | .block name branches rest =>
    .block name (branches.mapWeights f first) (rest.mapWeights f (first + branches.weightedCount))

def Branches.mapWeights (f : Nat → Nat → α → α) (first : Nat) : Branches α → Branches α
  | .nil => .nil
  | .cons name layers rest =>
    .cons name (layers.mapWeights f first) (rest.mapWeights f (first + layers.weightedCount))

end

namespace Network

def nodeCount (net : Network α) : Nat := net.layers.nodeCount

def weighted (net : Network α) : List (String × Tensor α) := net.layers.weighted ""

def weightCount (net : Network α) : Nat := (net.weighted.map fun w => w.2.size).sum

def mapWeights (f : Nat → Nat → α → α) (net : Network α) : Network α :=
  { net with layers := net.layers.mapWeights f 0 }

def setWeight (net : Network α) (layer index : Nat) (value : α) : Network α :=
  net.mapWeights fun l i w => if l = layer ∧ i = index then value else w

end Network
end Sensitivity
