import Sensitivity.Description.Format
import Sensitivity.Proofs.Description.Fields
import Sensitivity.Proofs.Shape.Layer

/-! What is known of every layer of a network, whatever block it stands in. -/
namespace Sensitivity

variable {α : Type}

mutual

/-- Every operation of the layers has a property, those inside blocks included. -/
def Layers.All (p : Operation α → Prop) : Layers α → Prop
  | .nil => True
  | .single _ op rest => p op ∧ rest.All p
  | .block _ branches rest => branches.All p ∧ rest.All p

def Branches.All (p : Operation α → Prop) : Branches α → Prop
  | .nil => True
  | .cons _ layers rest => layers.All p ∧ rest.All p

end

mutual

theorem Layers.All.and {p q : Operation α → Prop} (layers : Layers α) (hp : layers.All p)
    (hq : layers.All q) : layers.All (fun op => p op ∧ q op) := by
  cases layers with
  | nil => trivial
  | single name op rest => exact ⟨⟨hp.1,hq.1⟩,Layers.All.and rest hp.2 hq.2⟩
  | block name branches rest =>
    exact ⟨Branches.All.and branches hp.1 hq.1,Layers.All.and rest hp.2 hq.2⟩

theorem Branches.All.and {p q : Operation α → Prop} (branches : Branches α) (hp : branches.All p)
    (hq : branches.All q) : branches.All (fun op => p op ∧ q op) := by
  cases branches with
  | nil => trivial
  | cons name layers rest =>
    exact ⟨Layers.All.and layers hp.1 hq.1,Branches.All.and rest hp.2 hq.2⟩

end

namespace Operation

/-- A fully connected layer has inputs and outputs. -/
def HasExtents : Operation α → Prop
  | .dense layer => layer.inputs ≠ 0 ∧ layer.outputs ≠ 0
  | _ => True

/-- A fully connected layer has one bias for each output. -/
def BiasFits : Operation α → Prop
  | .dense layer => layer.bias.size = layer.outputs
  | _ => True

end Operation

theorem Transform.Resolves.denseReady [Scalar α] {op : Operation α} {shape out : List ℕ}
    {t : Transform α} (h : Transform.Resolves op shape t out) (hextents : op.HasExtents)
    (hbias : op.BiasFits) : t.DenseReady := by
  cases h with
  | dense h => exact ⟨hextents.1,hextents.2,hbias⟩
  | convolution h => trivial
  | pooling h => trivial
  | responseNorm h => trivial
  | relu => trivial
  | softmax h => trivial
  | dropout => trivial

/-- A described fully connected layer is only built with one bias for each output. -/
theorem LayerFields.biasFits_of_operation {fields : LayerFields} {op : Operation Single}
    (h : fields.operation = .ok op) : op.BiasFits := by
  have hbuilds := (LayerFields.operation_eq_ok_iff.mp h).2
  cases op with
  | dense layer => exact (Dense.check_eq_ok_iff.mp (LayerFields.dense_eq_ok_iff.mp hbuilds).2.2).2
  | convolution layer => trivial
  | pooling layer => trivial
  | responseNorm layer => trivial
  | relu => trivial
  | softmax => trivial
  | dropout rate => trivial

mutual

def LayerSpecs.All (q : LayerFields → Prop) : LayerSpecs → Prop
  | .nil => True
  | .cons fields branches rest => q fields ∧ branches.All q ∧ rest.All q

def BranchSpecs.All (q : LayerFields → Prop) : BranchSpecs → Prop
  | .nil => True
  | .cons _ layers rest => layers.All q ∧ rest.All q

end

mutual

def LayerSpecs.decidableAll (q : LayerFields → Prop) [DecidablePred q] :
    (specs : LayerSpecs) → Decidable (specs.All q)
  | .nil => .isTrue trivial
  | .cons f branches rest =>
    have := branches.decidableAll q
    have := rest.decidableAll q
    inferInstanceAs (Decidable (q f ∧ branches.All q ∧ rest.All q))

def BranchSpecs.decidableAll (q : LayerFields → Prop) [DecidablePred q] :
    (specs : BranchSpecs) → Decidable (specs.All q)
  | .nil => .isTrue trivial
  | .cons _ layers rest =>
    have := layers.decidableAll q
    have := rest.decidableAll q
    inferInstanceAs (Decidable (layers.All q ∧ rest.All q))

end

instance (q : LayerFields → Prop) [DecidablePred q] (specs : LayerSpecs) :
    Decidable (specs.All q) := specs.decidableAll q

section

variable {q : LayerFields → Prop} {p : Operation Single → Prop}

mutual

theorem LayerSpecs.all_of_forall (specs : LayerSpecs) (h : ∀ fields, q fields) : specs.All q := by
  cases specs with
  | nil => trivial
  | cons fields branches rest =>
    exact ⟨h fields,branches.all_of_forall h,rest.all_of_forall h⟩

theorem BranchSpecs.all_of_forall (specs : BranchSpecs) (h : ∀ fields, q fields) :
    specs.All q := by
  cases specs with
  | nil => trivial
  | cons name layers rest => exact ⟨layers.all_of_forall h,rest.all_of_forall h⟩

end

mutual

/-- What holds of every operation that is built from suitable fields holds of all layers. -/
theorem LayerSpecs.all_of_toLayers (specs : LayerSpecs) {layers : Layers Single}
    (hop : ∀ {fields op}, q fields → fields.operation = .ok op → p op) (hq : specs.All q)
    (h : specs.toLayers = .ok layers) : layers.All p := by
  cases specs with
  | nil =>
    obtain rfl := Except.ok.inj h
    trivial
  | cons fields branches rest =>
    obtain ⟨hfields,hbranches,hrest⟩ := hq
    simp only [LayerSpecs.toLayers] at h
    split at h
    · simp only [Error.bind_eq_ok_iff,Error.pure_eq_ok_iff] at h
      obtain ⟨inside,hinside,after,hafter,rfl⟩ := h
      exact ⟨branches.all_of_toBranches hop hbranches hinside,
        rest.all_of_toLayers hop hrest hafter⟩
    · simp only [Error.bind_eq_ok_iff,Error.pure_eq_ok_iff] at h
      obtain ⟨op,hbuilt,after,hafter,rfl⟩ := h
      exact ⟨hop hfields hbuilt,rest.all_of_toLayers hop hrest hafter⟩

theorem BranchSpecs.all_of_toBranches (specs : BranchSpecs) {branches : Branches Single}
    (hop : ∀ {fields op}, q fields → fields.operation = .ok op → p op) (hq : specs.All q)
    (h : specs.toBranches = .ok branches) : branches.All p := by
  cases specs with
  | nil =>
    obtain rfl := Except.ok.inj h
    trivial
  | cons name layers rest =>
    simp only [BranchSpecs.toBranches,Error.bind_eq_ok_iff,Error.pure_eq_ok_iff] at h
    obtain ⟨inside,hinside,after,hafter,rfl⟩ := h
    exact ⟨layers.all_of_toLayers hop hq.1 hinside,rest.all_of_toBranches hop hq.2 hafter⟩

end

end

theorem Network.biasFits_of_ofText {text : String} {net : Network Single}
    (h : Network.ofText text = .ok net) : net.layers.All Operation.BiasFits := by
  unfold Network.ofText at h
  split at h
  · cases h
  next d _ =>
    simp only [Description.toNetwork,Error.bind_eq_ok_iff,Error.pure_eq_ok_iff] at h
    obtain ⟨layers,hlayers,rfl⟩ := h
    exact d.layers.all_of_toLayers (fun _ => LayerFields.biasFits_of_operation)
      (d.layers.all_of_forall fun _ => trivial) hlayers

end Sensitivity
