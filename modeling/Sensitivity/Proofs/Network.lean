import Sensitivity.Network.Basic
import Sensitivity.Proofs.Tensor

/-! Changing the weights of a network. The changed weights are those of the listing, each by its
place in it, and nothing else about the network changes. -/
namespace Sensitivity

variable {α : Type}

theorem Tensor.mapPositions_mapPositions (f g : ℕ → α → α) (t : Tensor α) :
    (t.mapPositions f).mapPositions g = t.mapPositions fun i w => g i (f i w) := by
  refine Tensor.ext rfl ?_
  simp [mapPositions,Function.comp_def]

theorem Tensor.mapPositions_self (t : Tensor α) : t.mapPositions (fun _ w => w) = t :=
  Tensor.ext rfl (Array.ext (by simp [mapPositions]) (by simp [mapPositions]))

namespace Operation

theorem weights?_mapWeights (f : ℕ → α → α) (op : Operation α) :
    (op.mapWeights f).weights? = op.weights?.map (Tensor.mapPositions f) := by
  cases op <;> rfl

@[simp] theorem isWeighted_mapWeights (f : ℕ → α → α) (op : Operation α) :
    (op.mapWeights f).isWeighted = op.isWeighted := by
  cases op <;> rfl

theorem mapWeights_mapWeights (f g : ℕ → α → α) (op : Operation α) :
    (op.mapWeights f).mapWeights g = op.mapWeights fun i w => g i (f i w) := by
  cases op <;> simp [mapWeights,Tensor.mapPositions_mapPositions]

theorem mapWeights_self (op : Operation α) : op.mapWeights (fun _ w => w) = op := by
  cases op <;> simp [mapWeights,Tensor.mapPositions_self]

end Operation

mutual

theorem Layers.length_weighted (layers : Layers α) (parent : String) :
    (layers.weighted parent).length = layers.weightedCount := by
  cases layers with
  | nil => rfl
  | single name op rest =>
    rw [Layers.weighted,List.length_append,rest.length_weighted,Layers.weightedCount,
      Operation.isWeighted]
    cases op.weights? <;> simp
  | block name branches rest =>
    rw [Layers.weighted,List.length_append,branches.length_weighted,rest.length_weighted,
      Layers.weightedCount]

theorem Branches.length_weighted (branches : Branches α) (parent : String) :
    (branches.weighted parent).length = branches.weightedCount := by
  cases branches with
  | nil => rfl
  | cons name layers rest =>
    rw [Branches.weighted,List.length_append,layers.length_weighted,rest.length_weighted,
      Branches.weightedCount]

end

mutual

/-- Weights are changed in the order in which they are listed. -/
theorem Layers.weighted_mapWeights (layers : Layers α) (f : ℕ → ℕ → α → α) (first : ℕ)
    (parent : String) :
    (layers.mapWeights f first).weighted parent =
      (layers.weighted parent).mapIdx fun l w => (w.1,w.2.mapPositions (f (first + l))) := by
  cases layers with
  | nil => rfl
  | single name op rest =>
    rw [Layers.mapWeights,Layers.weighted,Layers.weighted,rest.weighted_mapWeights,
      Operation.weights?_mapWeights,List.mapIdx_append,Operation.isWeighted]
    cases op.weights? with
    | none => simp
    | some w => simp [Nat.add_assoc,Nat.add_comm 1]
  | block name branches rest =>
    rw [Layers.mapWeights,Layers.weighted,Layers.weighted,branches.weighted_mapWeights,
      rest.weighted_mapWeights,List.mapIdx_append,branches.length_weighted]
    simp [Nat.add_assoc,Nat.add_comm branches.weightedCount]

theorem Branches.weighted_mapWeights (branches : Branches α) (f : ℕ → ℕ → α → α) (first : ℕ)
    (parent : String) :
    (branches.mapWeights f first).weighted parent =
      (branches.weighted parent).mapIdx fun l w => (w.1,w.2.mapPositions (f (first + l))) := by
  cases branches with
  | nil => rfl
  | cons name layers rest =>
    rw [Branches.mapWeights,Branches.weighted,Branches.weighted,layers.weighted_mapWeights,
      rest.weighted_mapWeights,List.mapIdx_append,layers.length_weighted]
    simp [Nat.add_assoc,Nat.add_comm layers.weightedCount]

end

theorem Layers.weightedCount_mapWeights (layers : Layers α) (f : ℕ → ℕ → α → α) (first : ℕ) :
    (layers.mapWeights f first).weightedCount = layers.weightedCount := by
  rw [← Layers.length_weighted _ "",layers.weighted_mapWeights,List.length_mapIdx,
    layers.length_weighted]

theorem Branches.weightedCount_mapWeights (branches : Branches α) (f : ℕ → ℕ → α → α)
    (first : ℕ) : (branches.mapWeights f first).weightedCount = branches.weightedCount := by
  rw [← Branches.length_weighted _ "",branches.weighted_mapWeights,List.length_mapIdx,
    branches.length_weighted]

mutual

theorem Layers.mapWeights_mapWeights (layers : Layers α) (f g : ℕ → ℕ → α → α) (first : ℕ) :
    (layers.mapWeights f first).mapWeights g first =
      layers.mapWeights (fun l i w => g l i (f l i w)) first := by
  cases layers with
  | nil => rfl
  | single name op rest =>
    simp [Layers.mapWeights,Operation.mapWeights_mapWeights,rest.mapWeights_mapWeights]
  | block name branches rest =>
    simp [Layers.mapWeights,branches.mapWeights_mapWeights,rest.mapWeights_mapWeights,
      branches.weightedCount_mapWeights]

theorem Branches.mapWeights_mapWeights (branches : Branches α) (f g : ℕ → ℕ → α → α)
    (first : ℕ) :
    (branches.mapWeights f first).mapWeights g first =
      branches.mapWeights (fun l i w => g l i (f l i w)) first := by
  cases branches with
  | nil => rfl
  | cons name layers rest =>
    simp [Branches.mapWeights,layers.mapWeights_mapWeights,rest.mapWeights_mapWeights,
      layers.weightedCount_mapWeights]

end

mutual

theorem Layers.mapWeights_self (layers : Layers α) (first : ℕ) :
    layers.mapWeights (fun _ _ w => w) first = layers := by
  cases layers with
  | nil => rfl
  | single name op rest =>
    rw [Layers.mapWeights,Operation.mapWeights_self,rest.mapWeights_self]
  | block name branches rest =>
    rw [Layers.mapWeights,branches.mapWeights_self,rest.mapWeights_self]

theorem Branches.mapWeights_self (branches : Branches α) (first : ℕ) :
    branches.mapWeights (fun _ _ w => w) first = branches := by
  cases branches with
  | nil => rfl
  | cons name layers rest =>
    rw [Branches.mapWeights,layers.mapWeights_self,rest.mapWeights_self]

end

namespace Network

theorem mapWeights_self (net : Network α) : net.mapWeights (fun _ _ w => w) = net := by
  rw [mapWeights,Layers.mapWeights_self]

theorem weighted_mapWeights (net : Network α) (f : ℕ → ℕ → α → α) :
    (net.mapWeights f).weighted =
      net.weighted.mapIdx fun l w => (w.1,w.2.mapPositions (f l)) := by
  simp [mapWeights,weighted,Layers.weighted_mapWeights]

theorem mapWeights_mapWeights (net : Network α) (f g : ℕ → ℕ → α → α) :
    (net.mapWeights f).mapWeights g = net.mapWeights fun l i w => g l i (f l i w) := by
  simp [mapWeights,Layers.mapWeights_mapWeights]

end Network
end Sensitivity
