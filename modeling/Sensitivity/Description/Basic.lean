import Sensitivity.Network.Basic
import Sensitivity.Single

/-! Descriptions: networks as they are stored, every layer with the same loosely typed
fields, and their conversion from and to networks. -/
namespace Sensitivity

/-- A shape and values in row-major order, not yet known to fit together. -/
structure TensorData where
  shape : List Nat
  data : List Single
deriving DecidableEq

/-- The fields of a layer; which of them count depends on its kind. -/
structure LayerFields where
  name : String
  kind : String
  attributes : List (String × Attribute Single)
  weights : Option TensorData
  bias : Option TensorData
deriving DecidableEq

mutual

/-- Described layers in order, each with the branches that it holds. -/
inductive LayerSpecs where
  | nil
  | cons (fields : LayerFields) (branches : BranchSpecs) (rest : LayerSpecs)

inductive BranchSpecs where
  | nil
  | cons (name : String) (layers : LayerSpecs) (rest : BranchSpecs)

end

structure Description where
  name : String
  inputShape : List Nat
  layers : LayerSpecs

namespace TensorData

def ofTensor (t : Tensor Single) : TensorData := ⟨t.shape,t.toList⟩

def ofVector (v : Array Single) : TensorData := ⟨[v.size],v.toList⟩

/-- The tensor, if there are as many values as the shape asks for. Their number is a word, so
extents that are too large for an array can ask for few. -/
def toTensor (d : TensorData) : Except (Error Single) (Tensor Single) :=
  let count := d.shape.prod % Window.wordCount
  if d.data.length ≠ count then .error (.malformed (.valueCount d.shape count d.data.length))
  else if h : Tensor.Addressable d.shape ∧ d.data.length = d.shape.prod then
    .ok ⟨d.shape,d.data.toArray,by simp [h.2]⟩
  else .error (.malformed .hugeTensor)

end TensorData

namespace LayerFields

/-- The last attribute with a key. -/
def attribute? (f : LayerFields) (key : String) : Option (Attribute Single) :=
  (f.attributes.reverse.find? fun a => a.1 = key).map (·.2)

/-- A whole attribute from zero on, or a default where it is missing. -/
def natural? (f : LayerFields) (key : String) : Except (Error Single) (Option Nat) :=
  match f.attribute? key with
  | none => .ok none
  | some (.int v) =>
    if 0 ≤ v then .ok (some v.toNat)
    else .error (.badConfig (.intAttribute f.name key (.int v)))
  | some other => .error (.badConfig (.intAttribute f.name key other))

def number? (f : LayerFields) (key : String) : Except (Error Single) (Option Single) :=
  match f.attribute? key with
  | none => .ok none
  | some (.float v) => .ok (some v)
  | some (.int v) => .ok (some (Single.ofInt v))
  | some other => .error (.badConfig (.floatAttribute f.name key other))

def requiredWeights (f : LayerFields) : Except (Error Single) (Tensor Single) :=
  match f.weights with
  | none => .error (.malformed (.noWeights f.name))
  | some d => d.toTensor

/-- The bias vector, or as many zeros as there are outputs. -/
def biasOrZeros (f : LayerFields) (outputs : Nat) : Except (Error Single) (Array Single) :=
  match f.bias with
  | none => .ok (Array.replicate outputs 0)
  | some d => do
    let t ← d.toTensor
    if t.rank = 1 then return t.cells
    else .error (.malformed (.rank f.name "bias" 1 t.shape))

def dense (f : LayerFields) : Except (Error Single) (Dense Single) := do
  let w ← f.requiredWeights
  match h : w.shape with
  | [inputs,outputs] => Dense.check ⟨inputs,outputs,w,h,← f.biasOrZeros outputs⟩
  | shape => .error (.malformed (.rank f.name "weights" 2 shape))

def convolution (f : LayerFields) : Except (Error Single) (Convolution Single) := do
  let w ← f.requiredWeights
  match h : w.shape with
  | [outputs,groupInputs,height,width] =>
    let bias ← f.biasOrZeros outputs
    let stride := (← f.natural? "stride").getD 1
    let padding := (← f.natural? "padding").getD 0
    let groups := (← f.natural? "groups").getD 1
    Convolution.check ⟨outputs,groupInputs,height,width,w,h,bias,stride,padding,groups⟩
  | shape => .error (.malformed (.rank f.name "weights" 4 shape))

/-- Windows are as far apart as they are wide, unless a stride is given. -/
def pooling (f : LayerFields) (mode : PoolMode) : Except (Error Single) Pooling := do
  match ← f.natural? "pool_size" with
  | none => .error (.badConfig (.noPoolSize f.name))
  | some size =>
    let stride := (← f.natural? "stride").getD size
    let padding := (← f.natural? "padding").getD 0
    Pooling.check ⟨mode,size,stride,padding⟩

def responseNorm (f : LayerFields) : Except (Error Single) (ResponseNorm Single) := do
  let localRange := (← f.natural? "local_range").getD 5
  let offset := (← f.number? "k").getD (Single.ofNat 1)
  let alpha := (← f.number? "alpha").getD (Single.ofRatio false 1 10000)
  let beta := (← f.number? "beta").getD (Single.ofRatio false 3 4)
  ResponseNorm.check ⟨localRange,offset,alpha,beta⟩

def dropout (f : LayerFields) : Except (Error Single) Single := do
  Dropout.check ((← f.number? "p_dropout").getD (Single.ofRatio false 1 2))

def operation (f : LayerFields) : Except (Error Single) (Operation Single) :=
  if f.kind = "fully_connected" then .dense <$> f.dense
  else if f.kind = "convolutional" then .convolution <$> f.convolution
  else if f.kind = "max_pool" then .pooling <$> f.pooling .max
  else if f.kind = "avg_pool" then .pooling <$> f.pooling .avg
  else if f.kind = "norm" then .responseNorm <$> f.responseNorm
  else if f.kind = "relu" then .ok .relu
  else if f.kind = "softmax" then .ok .softmax
  else if f.kind = "dropout" then .dropout <$> f.dropout
  else .error (.unsupported (.unknownKind f.kind f.name))

/-- A whole attribute is stored as a 64-bit number with a sign. -/
def natural (key : String) (v : Nat) : String × Attribute Single :=
  (key,.int (if v < 2 ^ (63 : Nat) then v else (v : Int) - 2 ^ (64 : Nat)))

def ofOperation (name : String) (op : Operation Single) : LayerFields :=
  let fields (attributes : List (String × Attribute Single)) (weights bias : Option TensorData) :
      LayerFields := ⟨name,op.tag,attributes,weights,bias⟩
  match op with
  | .dense layer => fields [] (some (.ofTensor layer.weights)) (some (.ofVector layer.bias))
  | .convolution layer =>
    fields [natural "groups" layer.groups,natural "padding" layer.padding,
      natural "stride" layer.stride]
      (some (.ofTensor layer.weights)) (some (.ofVector layer.bias))
  | .pooling layer =>
    fields [natural "padding" layer.padding,natural "pool_size" layer.size,
      natural "stride" layer.stride] none none
  | .responseNorm layer =>
    fields [("alpha",.float layer.alpha),("beta",.float layer.beta),
      ("k",.float layer.offset),natural "local_range" layer.localRange] none none
  | .relu => fields [] none none
  | .softmax => fields [] none none
  | .dropout rate => fields [("p_dropout",.float rate)] none none

end LayerFields

mutual

/-- The described layers; the first one that cannot be built decides the error. -/
def LayerSpecs.toLayers : LayerSpecs → Except (Error Single) (Layers Single)
  | .nil => .ok .nil
  | .cons fields branches rest =>
    if fields.kind = "inception" then do
      let branches ← branches.toBranches
      return .block fields.name branches (← rest.toLayers)
    else do
      let op ← fields.operation
      return .single fields.name op (← rest.toLayers)

def BranchSpecs.toBranches : BranchSpecs → Except (Error Single) (Branches Single)
  | .nil => .ok .nil
  | .cons name layers rest => do
    let layers ← layers.toLayers
    return .cons name layers (← rest.toBranches)

end

mutual

def LayerSpecs.ofLayers : Layers Single → LayerSpecs
  | .nil => .nil
  | .single name op rest => .cons (.ofOperation name op) .nil (.ofLayers rest)
  | .block name branches rest =>
    .cons ⟨name,"inception",[],none,none⟩ (.ofBranches branches) (.ofLayers rest)

def BranchSpecs.ofBranches : Branches Single → BranchSpecs
  | .nil => .nil
  | .cons name layers rest => .cons name (.ofLayers layers) (.ofBranches rest)

end

namespace Description

def toNetwork (d : Description) : Except (Error Single) (Network Single) := do
  return ⟨d.name,d.inputShape,← d.layers.toLayers⟩

def ofNetwork (net : Network Single) : Description :=
  ⟨net.name,net.inputShape,.ofLayers net.layers⟩

end Description
end Sensitivity
