import Sensitivity.Transform

/-! Compiled networks. A plan has the tree of its network, with every layer
resolved against its input shape and numbered depth first in order of
declaration, a block before what it holds. -/
namespace Sensitivity

/-- What is known of a layer once its network is compiled. -/
structure Node where
  id : Nat
  path : String
  tag : String
  depth : Nat
  inputShape : List Nat
  outputShape : List Nat
  /-- The position among the weighted layers. -/
  weighted? : Option Nat
deriving DecidableEq

mutual

/-- Resolved layers in order, each with a note. -/
inductive Plan (α ν : Type) where
  | done
  | layer (note : ν) (transform : Transform α) (rest : Plan α ν)
  | block (note : ν) (branches : BranchPlans α ν) (rest : Plan α ν)

/-- The branches of a block with the channels that each contributes. -/
inductive BranchPlans (α ν : Type) where
  | done
  | branch (steps : Plan α ν) (width : Nat) (rest : BranchPlans α ν)

end

mutual

/-- Notes and transforms, a block before what it holds; a block has no transform. -/
def Plan.listing {α ν : Type} : Plan α ν → List (ν × Option (Transform α))
  | .done => []
  | .layer note t rest => (note,some t) :: rest.listing
  | .block note branches rest => (note,none) :: (branches.listing ++ rest.listing)

def BranchPlans.listing {α ν : Type} : BranchPlans α ν → List (ν × Option (Transform α))
  | .done => []
  | .branch steps _ rest => steps.listing ++ rest.listing

end

structure Numbering where
  nodes : Nat
  weighted : Nat
deriving DecidableEq

namespace Numbering

/-- One more node. -/
def next (n : Numbering) (isWeighted : Bool) : Numbering :=
  ⟨n.nodes + 1,if isWeighted then n.weighted + 1 else n.weighted⟩

end Numbering

variable {α : Type} [Scalar α]

/-- Fits one operation; a softmax only fits where it closes the network. -/
def Operation.fit (op : Operation α) (path : String) (shape : List Nat) (closes : Bool) :
    Except (Error α) (Transform α × List Nat) :=
  match op, closes with
  | .softmax, false => .error (.unsupported (.innerSoftmax path))
  | op, _ => Transform.ofOperation op shape

def Branches.image (branches : Branches α) (shape : List Nat) : Except (Error α) ImageShape :=
  if branches.isEmpty then .error (.badConfig .noBranches)
  else ImageShape.ofShape "inception" shape

def branchWidth (image : ImageShape) (shape : List Nat) : Except (Error α) Nat := do
  let out ← ImageShape.ofShape "inception branch output" shape
  if out.height = image.height ∧ out.width = image.width then return out.channels
  else .error (.shapeMismatch [out.channels,image.height,image.width] shape)

mutual

/-- Resolves layers from an input shape on; also gives the output shape. The channels of a block
are those of its branches together, as a word. -/
def Layers.compile (shape : List Nat) (parent : String) (depth : Nat) (n : Numbering) :
    Layers α → Except (Error α) (Plan α Node × List Nat × Numbering)
  | .nil => .ok (.done,shape,n)
  | .single name op rest => do
    let path := layerPath parent name
    let (t,out) ← Error.within n.nodes path
      (op.fit path shape (depth == 0 && rest.isEmpty))
    let node : Node := ⟨n.nodes,path,op.tag,depth,shape,out,
      if op.isWeighted then some n.weighted else none⟩
    let (plan,last,n) ← rest.compile out parent depth (n.next op.isWeighted)
    return (.layer node t plan,last,n)
  | .block name branches rest => do
    let path := layerPath parent name
    let image ← Error.within n.nodes path (branches.image shape)
    let (plans,channels,n') ← Error.within n.nodes path
      (branches.compile image path (depth + 1) (n.next false))
    let out := [channels % Window.wordCount,image.height,image.width]
    let node : Node := ⟨n.nodes,path,"inception",depth,shape,out,none⟩
    let (plan,last,n'') ← rest.compile out parent depth n'
    return (.block node plans plan,last,n'')

def Branches.compile (image : ImageShape) (parent : String) (depth : Nat) (n : Numbering) :
    Branches α → Except (Error α) (BranchPlans α Node × Nat × Numbering)
  | .nil => .ok (.done,0,n)
  | .cons name layers rest => do
    let (steps,out,n) ← layers.compile image.toList (layerPath parent name) depth n
    let width ← branchWidth image out
    let (plans,channels,n) ← rest.compile image parent depth n
    return (.branch steps width plans,width + channels,n)

end

/-- A compiled network, ready to propagate bounds. -/
structure Engine (α : Type) where
  name : String
  inputShape : List Nat
  outputShape : List Nat
  plan : Plan α Node

namespace Engine

def compile (net : Network α) : Except (Error α) (Engine α) :=
  if net.layers.isEmpty then .error (.badConfig (.noLayers net.name))
  else do
    let (plan,out,_) ← net.layers.compile net.inputShape "" 0 ⟨0,0⟩
    return ⟨net.name,net.inputShape,out,plan⟩

def listing {α : Type} (e : Engine α) : List (Node × Option (Transform α)) := e.plan.listing

def nodes {α : Type} (e : Engine α) : List Node := e.listing.map (·.1)

def nodeCount {α : Type} (e : Engine α) : Nat := e.nodes.length

def find? {α : Type} (e : Engine α) (path : String) : Option Node :=
  e.nodes.find? fun node => node.path = path

def weighted {α : Type} (e : Engine α) : List Nat :=
  (e.nodes.filter fun node => node.weighted?.isSome).map (·.id)

/-- One exact unit row for each output value. -/
def identitySeed (e : Engine α) : Except (Error α) (Interval α) :=
  let rows := e.outputShape.prod % Window.wordCount
  (Interval.identity rows).reshape (rows :: e.outputShape)

end Engine
end Sensitivity
