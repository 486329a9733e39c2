import Sensitivity.Plan

/-! Runs of a compiled network: one forward pass of activation bounds, then one
backward pass of derivative bounds. Every node's slot is filled once by each. -/
namespace Sensitivity

variable {α : Type}

/-- The bounds stored for a node so far. -/
inductive Slot (α : Type) where
  | unvisited
  | activationSet (activation : Interval α)
  | derivativeSet (activation derivative : Interval α)

namespace Slot

def stage : Slot α → Stage
  | .unvisited => .unvisited
  | .activationSet _ => .activationSet
  | .derivativeSet _ _ => .derivativeSet

def activation? : Slot α → Option (Interval α)
  | .unvisited => none
  | .activationSet x => some x
  | .derivativeSet x _ => some x

def derivative? : Slot α → Option (Interval α)
  | .derivativeSet _ d => some d
  | _ => none

end Slot

abbrev Slots (α : Type) := Array (Slot α)

namespace Slots

def empty (nodes : Nat) : Slots α := Array.replicate nodes .unvisited

def setActivation (slots : Slots α) (node : Node) (x : Interval α) :
    Except (Error α) (Slots α) :=
  Error.within node.id node.path <|
    match slots[node.id]? with
    | none => .error (.badOrder (.unknownNode node.id))
    | some .unvisited => .ok (slots.set! node.id (.activationSet x))
    | some slot => .error (.badOrder (.stage node.id slot.stage .unvisited))

def setDerivative (slots : Slots α) (node : Node) (d : Interval α) :
    Except (Error α) (Slots α) :=
  Error.within node.id node.path <|
    match slots[node.id]? with
    | none => .error (.badOrder (.unknownNode node.id))
    | some (.activationSet x) => .ok (slots.set! node.id (.derivativeSet x d))
    | some slot => .error (.badOrder (.stage node.id slot.stage .activationSet))

end Slots

variable [Scalar α]

mutual

def Plan.forward : Plan α Node → Interval α →
    Except (Error α) (Plan α (Node × Interval α) × Interval α)
  | .done, x => .ok (.done,x)
  | .layer node t rest, x => do
    let y ← Error.within node.id node.path (t.forward x)
    let (trace,last) ← rest.forward y
    return (.layer (node,x) t trace,last)
  | .block node branches rest, x => do
    let (traces,outputs) ← branches.forward x
    let y ← Error.within node.id node.path (Tensor.concat outputs 0)
    let (trace,last) ← rest.forward y
    return (.block (node,x) traces trace,last)

def BranchPlans.forward : BranchPlans α Node → Interval α →
    Except (Error α) (BranchPlans α (Node × Interval α) × List (Interval α))
  | .done, _ => .ok (.done,[])
  | .branch steps width rest, x => do
    let (trace,y) ← steps.forward x
    let (traces,ys) ← rest.forward x
    return (.branch trace width traces,y :: ys)

end

mutual

/-- The activations in the order they are stored: those inside a block before the block's. -/
def Plan.activations : Plan α (Node × Interval α) → List (Node × Interval α)
  | .done => []
  | .layer note _ rest => note :: rest.activations
  | .block note branches rest => branches.activations ++ note :: rest.activations

def BranchPlans.activations : BranchPlans α (Node × Interval α) → List (Node × Interval α)
  | .done => []
  | .branch steps _ rest => steps.activations ++ rest.activations

end

def addReturned (total : Option (Interval α)) (x : Interval α) : Except (Error α) (Interval α) :=
  match total with
  | none => .ok x
  | some sum => sum.add x

mutual

/-- Passes a sensitivity back through the layers, last one first. Gives what each node
receives, in the order it is stored, and what reaches the input. -/
def Plan.backward : Plan α (Node × Interval α) → Interval α →
    Except (Error α) (List (Node × Interval α) × Interval α)
  | .done, d => .ok ([],d)
  | .layer (node,x) t rest, d => do
    let (log,dy) ← rest.backward d
    let dx ← Error.within node.id node.path (t.backward x dy)
    return (log ++ [(node,dy)],dx)
  | .block (node,_) branches rest, d => do
    let (log,dy) ← rest.backward d
    let (inside,total) ← branches.backward node dy 0 none
    match total with
    | none => .error (.inLayer node.id node.path (.badConfig .noBranches))
    | some dx => return (log ++ inside ++ [(node,dy)],dx)

/-- Cuts the channels of each branch out of the derivative, passes them back, and adds up
what they give. -/
def BranchPlans.backward (node : Node) (d : Interval α) (offset : Nat)
    (total : Option (Interval α)) : BranchPlans α (Node × Interval α) →
    Except (Error α) (List (Node × Interval α) × Option (Interval α))
  | .done => .ok ([],total)
  | .branch steps width rest => do
    let part ← Error.within node.id node.path (d.slice 1 offset (offset + width))
    let (log,dx) ← steps.backward part
    let sum ← Error.within node.id node.path (addReturned total dx)
    let (logs,last) ← rest.backward node d (offset + width) (some sum)
    return (log ++ logs,last)

end

/-- The bounds of one finished run. -/
structure Run (α : Type) where
  slots : Slots α
  output : Interval α
  inputDerivative : Interval α

namespace Run

def stage? {α : Type} (r : Run α) (id : Nat) : Option Stage := r.slots[id]?.map Slot.stage

def activation? {α : Type} (r : Run α) (id : Nat) : Option (Interval α) :=
  r.slots[id]?.bind Slot.activation?

def derivative? {α : Type} (r : Run α) (id : Nat) : Option (Interval α) :=
  r.slots[id]?.bind Slot.derivative?

end Run

namespace Engine

def checkSeed (e : Engine α) (seed : Interval α) : Except (Error α) Unit :=
  let refuse : Except (Error α) Unit :=
    .error (.shapeMismatch (max (seed.shape.head?.getD 1) 1 :: e.outputShape) seed.shape)
  match seed.shape with
  | rows :: rest => if rest = e.outputShape ∧ rows ≠ 0 then .ok () else refuse
  | [] => refuse

/-- Runs both passes. Nothing is returned unless both succeed. -/
def propagate (e : Engine α) (x seed : Interval α) : Except (Error α) (Run α) := do
  x.expectShape e.inputShape
  e.checkSeed seed
  let (trace,output) ← e.plan.forward x
  let slots ← trace.activations.foldlM (fun s w => s.setActivation w.1 w.2)
    (Slots.empty e.nodeCount)
  let (log,inputDerivative) ← trace.backward seed
  let slots ← log.foldlM (fun s w => s.setDerivative w.1 w.2) slots
  return ⟨slots,output,inputDerivative⟩

def propagateRange (e : Engine α) (range : Bound α) : Except (Error α) (Run α) := do
  let x ← Interval.uniform e.inputShape range
  e.propagate x (← e.identitySeed)

end Engine
end Sensitivity
