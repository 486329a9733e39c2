import Sensitivity.Indicator
import Sensitivity.Config.Basic

/-! Pruning: the globally least important fraction of all weights is set to zero. -/
namespace Sensitivity

/-- A weight by the position of its layer among the weighted ones and by its row-major
position in the layer. -/
structure WeightRef where
  layer : Nat
  index : Nat
deriving DecidableEq

/-- Weights chosen for removal, least important first, and the shapes of the layers that
they were chosen from. -/
structure Selection where
  weights : List WeightRef
  layerShapes : List (List Nat)
deriving DecidableEq

structure LayerPruneCount where
  path : String
  total : Nat
  zeroed : Nat
deriving DecidableEq

structure PruneReport where
  totalWeights : Nat
  zeroed : Nat
  layers : List LayerPruneCount
deriving DecidableEq

section Count

open Numeric

/-- One and a millionth in 64-bit precision. It covers the error of a 32-bit fraction, so
that `0.7` of ten weights are seven. -/
def countSlack : Magnitude := ⟨4503604130970123,-52⟩

/-- The number of weights that a finite positive fraction selects, computed in 64-bit
precision with the slack applied before rounding down. -/
def flooredCount (fraction : Magnitude) (total : Nat) : Nat :=
  let exact := (roundRatio binary64 total 1).bind (Magnitude.mul binary64 fraction)
  match exact.bind (Magnitude.mul binary64 · countSlack) with
  | some m => min m.floor total
  | none => total

/-- The number of weights that a fraction selects out of a total: none for a negative one
or a NaN, and all of them at most. -/
def selectionCount (fraction : Single) (total : Nat) : Nat :=
  if fraction.isNaN ∨ fraction.negative then 0
  else if fraction.isFinite then flooredCount fraction.size total
  else total

end Count

namespace Selection

/-- Ranks a weight by its indicator in the total order of floats, then by its place. -/
def before (a b : Single × WeightRef) : Bool :=
  a.1.rank < b.1.rank ∨ a.1.rank = b.1.rank ∧
    (a.2.layer < b.2.layer ∨ a.2.layer = b.2.layer ∧ a.2.index ≤ b.2.index)

def entries (ind : Indicators Single) : List (Single × WeightRef) :=
  (ind.layers.mapIdx fun layer l =>
    l.values.toList.mapIdx fun index v => (v,(⟨layer,index⟩ : WeightRef))).flatten

def ofFraction (ind : Indicators Single) (fraction : Single) :
    Except (Error Single) Selection := do
  checkFraction fraction
  let ranked := (entries ind).mergeSort before
  return ⟨(ranked.take (selectionCount fraction ranked.length)).map (·.2),
    ind.layers.map (·.values.shape)⟩

variable {α : Type} [Scalar α]

def InRange (weighted : List (String × Tensor α)) (r : WeightRef) : Prop :=
  ∃ w ∈ weighted[r.layer]?, r.index < w.2.size

instance (weighted : List (String × Tensor α)) (r : WeightRef) :
    Decidable (InRange weighted r) :=
  match h : weighted[r.layer]? with
  | some w =>
    if hr : r.index < w.2.size then .isTrue ⟨w,h,hr⟩
    else .isFalse fun ⟨v,hv,hlt⟩ => by
      have e : v = w := Option.some.inj (hv.symm.trans h)
      exact hr (e ▸ hlt)
  | none => .isFalse fun ⟨v,hv,_⟩ => by simp [h] at hv

def zero (refs : List WeightRef) (net : Network α) : Network α :=
  net.mapWeights fun layer index w => if ⟨layer,index⟩ ∈ refs then 0 else w

def report (weighted : List (String × Tensor α)) (refs : List WeightRef) : PruneReport :=
  { totalWeights := (weighted.map fun w => w.2.size).sum
    zeroed := refs.length
    layers := weighted.mapIdx fun layer w =>
      ⟨w.1,w.2.size,refs.countP fun r => r.layer = layer⟩ }

def checkShapes (s : Selection) (weighted : List (String × Tensor α)) :
    Except (Error α) Unit :=
  if weighted.length ≠ s.layerShapes.length then
    .error (.shapeMismatch [s.layerShapes.length] [weighted.length])
  else
    match (weighted.zip s.layerShapes).find? fun p => p.1.2.shape ≠ p.2 with
    | some p => .error (.shapeMismatch p.2 p.1.2.shape)
    | none => .ok ()

/-- Sets the selected weights to zero, one after the other. Gives the network as it is left,
also where a reference out of range ends the removal early. -/
def apply (s : Selection) (net : Network α) : Network α × Except (Error α) PruneReport :=
  let weighted := net.weighted
  match s.checkShapes weighted with
  | .error e => (net,.error e)
  | .ok () =>
    let done := s.weights.takeWhile fun r => InRange weighted r
    match s.weights.find? fun r => ¬ InRange weighted r with
    | some r => (zero done net,.error (.badConfig (.weightIndex r.index r.layer)))
    | none => (zero done net,.ok (report weighted s.weights))

end Selection

def Network.indicators {α : Type} [Scalar α] (net : Network α) (range : Bound α)
    (score : Bound α → α) : Except (Error α) (Indicators α) := do
  let e ← Engine.compile net
  Indicators.compute score e (← e.propagateRange range)

def Config.select (c : Config) (net : Network Single) : Except (Error Single) Selection := do
  c.check
  Selection.ofFraction (← net.indicators ⟨c.inputMin,c.inputMax⟩ c.score.apply) c.fraction

def Config.prune (c : Config) (net : Network Single) :
    Network Single × Except (Error Single) PruneReport :=
  match c.select net with
  | .error e => (net,.error e)
  | .ok s => s.apply net

end Sensitivity
