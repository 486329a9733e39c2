import Sensitivity.Network.Basic

/-! Networks that are the same in names, shapes and settings, and in the values of all
numbers; a NaN is not the same as itself. -/
namespace Sensitivity

variable {α : Type} [Scalar α]

def sameValues (a b : List α) : Bool :=
  a.length == b.length && (a.zip b).all fun (v,w) => Scalar.Same v w

def Tensor.same (a b : Tensor α) : Bool := a.shape == b.shape && sameValues a.toList b.toList

def Operation.same : Operation α → Operation α → Bool
  | .dense a, .dense b => a.weights.same b.weights && sameValues a.bias.toList b.bias.toList
  | .convolution a, .convolution b =>
    a.weights.same b.weights && sameValues a.bias.toList b.bias.toList &&
      a.stride == b.stride && a.padding == b.padding && a.groups == b.groups
  | .pooling a, .pooling b => a == b
  | .responseNorm a, .responseNorm b =>
    a.localRange == b.localRange &&
      sameValues [a.offset,a.alpha,a.beta] [b.offset,b.alpha,b.beta]
  | .relu, .relu => true
  | .softmax, .softmax => true
  | .dropout a, .dropout b => Scalar.Same a b
  | _, _ => false

mutual

def Layers.same : Layers α → Layers α → Bool
  | .nil, .nil => true
  | .single name op rest, .single name' op' rest' =>
    name == name' && op.same op' && rest.same rest'
  | .block name branches rest, .block name' branches' rest' =>
    name == name' && branches.same branches' && rest.same rest'
  | _, _ => false

def Branches.same : Branches α → Branches α → Bool
  | .nil, .nil => true
  | .cons name layers rest, .cons name' layers' rest' =>
    name == name' && layers.same layers' && rest.same rest'
  | _, _ => false

end

def Network.same (a b : Network α) : Bool :=
  a.name == b.name && a.inputShape == b.inputShape && a.layers.same b.layers

end Sensitivity
