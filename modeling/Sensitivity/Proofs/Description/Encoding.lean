import Sensitivity.Proofs.Shape.Network

/-! Descriptions lose nothing. A network whose layers pass their checks is built again from its own
description, and every network that is built from a description is of that kind. -/
namespace Sensitivity

/-- A layer that passes its own check and whose whole attributes 64 bits with a sign can store. Its
tensors have to be of a shape that an allocation can hold, as every array in memory is. -/
def Operation.Describable : Operation Single → Prop
  | .dense layer => layer.check = .ok layer ∧ Tensor.Addressable layer.weights.shape
  | .convolution layer => layer.check = .ok layer ∧ Tensor.Addressable layer.weights.shape ∧
    layer.stride < 2 ^ (63 : ℕ) ∧ layer.padding < 2 ^ (63 : ℕ) ∧ layer.groups < 2 ^ (63 : ℕ)
  | .pooling layer => (layer.check : Except (Error Single) Pooling) = .ok layer ∧
    layer.size < 2 ^ (63 : ℕ) ∧ layer.stride < 2 ^ (63 : ℕ) ∧ layer.padding < 2 ^ (63 : ℕ)
  | .responseNorm layer => layer.check = .ok layer ∧ layer.localRange < 2 ^ (63 : ℕ)
  | .relu => True
  | .softmax => True
  | .dropout rate => Dropout.check rate = .ok rate

namespace LayerFields

variable {f : LayerFields} {name : String}

/-- No whole attribute needs more than 63 bits. -/
def Storable (f : LayerFields) : Prop :=
  ∀ key v, (key,Attribute.int v) ∈ f.attributes → v < 2 ^ (63 : ℕ)

theorem natural?_of_attribute? {key : String} {v : ℕ}
    (h : f.attribute? key = some (natural key v).2) (hv : v < 2 ^ (63 : ℕ)) :
    f.natural? key = .ok (some v) := by
  unfold natural?
  rw [h]
  simp [natural,hv]

theorem number?_of_attribute? {key : String} {v : Single} (h : f.attribute? key = some (.float v)) :
    f.number? key = .ok (some v) := by
  unfold number?
  rw [h]

theorem lt_of_natural? {key : String} {o : Option ℕ} (hf : f.Storable)
    (h : f.natural? key = .ok o) {fallback : ℕ} (hfallback : fallback < 2 ^ (63 : ℕ)) :
    o.getD fallback < 2 ^ (63 : ℕ) := by
  unfold natural? at h
  split at h
  next =>
    obtain rfl := Except.ok.inj h
    exact hfallback
  next v hattribute =>
    have hv := hf key v (mem_of_attribute? hattribute)
    split at h
    next =>
      obtain rfl := Except.ok.inj h
      simp only [Option.getD_some]
      omega
    next => cases h
  next => cases h

theorem operation_ofOperation {op : Operation Single} (h : op.Describable) :
    (ofOperation name op).operation = .ok op := by
  refine operation_eq_ok_iff.mpr ⟨by cases op <;> rfl,?_⟩
  cases op with
  | dense layer =>
    obtain ⟨hcheck,ha⟩ := h
    have hbias : Tensor.Addressable [layer.bias.size] := by
      rw [(Dense.check_eq_ok_iff.mp hcheck).2]
      exact Tensor.addressable_singleton ha (by simp [layer.shape_weights])
    exact dense_eq_ok_iff.mpr ⟨requiredWeights_eq_ok_iff.mpr ⟨rfl,ha⟩,
      biasOrZeros_eq_ok_iff.mpr (.inr ⟨rfl,hbias⟩),hcheck⟩
  | convolution layer =>
    obtain ⟨hcheck,ha,hstride,hpadding,hgroups⟩ := h
    have hbias : Tensor.Addressable [layer.bias.size] := by
      rw [(Convolution.check_eq_ok_iff.mp hcheck).2.2.2]
      exact Tensor.addressable_singleton ha (by simp [layer.shape_weights])
    exact convolution_eq_ok_iff.mpr ⟨requiredWeights_eq_ok_iff.mpr ⟨rfl,ha⟩,
      biasOrZeros_eq_ok_iff.mpr (.inr ⟨rfl,hbias⟩),
      ⟨_,natural?_of_attribute? rfl hstride,rfl⟩,⟨_,natural?_of_attribute? rfl hpadding,rfl⟩,
      ⟨_,natural?_of_attribute? rfl hgroups,rfl⟩,hcheck⟩
  | pooling layer =>
    obtain ⟨hcheck,hsize,hstride,hpadding⟩ := h
    exact pooling_eq_ok_iff.mpr ⟨rfl,natural?_of_attribute? rfl hsize,
      ⟨_,natural?_of_attribute? rfl hstride,rfl⟩,⟨_,natural?_of_attribute? rfl hpadding,rfl⟩,hcheck⟩
  | responseNorm layer =>
    obtain ⟨hcheck,hrange⟩ := h
    exact responseNorm_eq_ok_iff.mpr ⟨⟨_,natural?_of_attribute? rfl hrange,rfl⟩,
      ⟨_,number?_of_attribute? rfl,rfl⟩,⟨_,number?_of_attribute? rfl,rfl⟩,
      ⟨_,number?_of_attribute? rfl,rfl⟩,hcheck⟩
  | relu => trivial
  | softmax => trivial
  | dropout rate => exact dropout_eq_ok_iff.mpr ⟨⟨_,number?_of_attribute? rfl,rfl⟩,h⟩

theorem describable_of_operation {op : Operation Single} (hf : f.Storable)
    (h : f.operation = .ok op) : op.Describable := by
  have hbuilds := (operation_eq_ok_iff.mp h).2
  cases op with
  | dense layer =>
    obtain ⟨hw,-,hcheck⟩ := dense_eq_ok_iff.mp hbuilds
    exact ⟨hcheck,(requiredWeights_eq_ok_iff.mp hw).2⟩
  | convolution layer =>
    obtain ⟨hw,-,⟨s,hs,hstride⟩,⟨p,hp,hpadding⟩,⟨g,hg,hgroups⟩,hcheck⟩ :=
      convolution_eq_ok_iff.mp hbuilds
    exact ⟨hcheck,(requiredWeights_eq_ok_iff.mp hw).2,hstride ▸ lt_of_natural? hf hs (by decide),
      hpadding ▸ lt_of_natural? hf hp (by decide),hgroups ▸ lt_of_natural? hf hg (by decide)⟩
  | pooling layer =>
    obtain ⟨-,hsize,⟨s,hs,hstride⟩,⟨p,hp,hpadding⟩,hcheck⟩ := pooling_eq_ok_iff.mp hbuilds
    have hsmall : layer.size < 2 ^ (63 : ℕ) :=
      lt_of_natural? hf hsize (by decide : 0 < 2 ^ (63 : ℕ))
    exact ⟨hcheck,hsmall,hstride ▸ lt_of_natural? hf hs hsmall,
      hpadding ▸ lt_of_natural? hf hp (by decide)⟩
  | responseNorm layer =>
    obtain ⟨⟨r,hr,hrange⟩,-,-,-,hcheck⟩ := responseNorm_eq_ok_iff.mp hbuilds
    exact ⟨hcheck,hrange ▸ lt_of_natural? hf hr (by decide)⟩
  | relu => trivial
  | softmax => trivial
  | dropout rate => exact (dropout_eq_ok_iff.mp hbuilds).2

theorem kind_ofOperation_ne (op : Operation Single) : (ofOperation name op).kind ≠ "inception" := by
  cases op with
  | pooling layer =>
    obtain ⟨mode,size,stride,padding⟩ := layer
    cases mode <;> simp [ofOperation,Operation.tag]
  | _ => simp [ofOperation,Operation.tag]

end LayerFields

mutual

theorem LayerSpecs.toLayers_ofLayers {layers : Layers Single}
    (h : layers.All Operation.Describable) : (LayerSpecs.ofLayers layers).toLayers = .ok layers := by
  cases layers with
  | nil => rfl
  | single name op rest =>
    have hrest := LayerSpecs.toLayers_ofLayers h.2
    rw [LayerSpecs.ofLayers,LayerSpecs.toLayers,if_neg (LayerFields.kind_ofOperation_ne op),
      LayerFields.operation_ofOperation h.1,hrest]
    cases op <;> rfl
  | block name branches rest =>
    have hbranches := BranchSpecs.toBranches_ofBranches h.1
    have hrest := LayerSpecs.toLayers_ofLayers h.2
    rw [LayerSpecs.ofLayers,LayerSpecs.toLayers,if_pos rfl,hbranches,hrest]
    rfl

theorem BranchSpecs.toBranches_ofBranches {branches : Branches Single}
    (h : branches.All Operation.Describable) :
    (BranchSpecs.ofBranches branches).toBranches = .ok branches := by
  cases branches with
  | nil => rfl
  | cons name layers rest =>
    have hlayers := LayerSpecs.toLayers_ofLayers h.1
    have hrest := BranchSpecs.toBranches_ofBranches h.2
    rw [BranchSpecs.ofBranches,BranchSpecs.toBranches,hlayers,hrest]
    rfl

end

namespace Description

theorem toNetwork_eq_ok_iff {d : Description} {net : Network Single} :
    d.toNetwork = .ok net ↔
      net.name = d.name ∧ net.inputShape = d.inputShape ∧ d.layers.toLayers = .ok net.layers := by
  obtain ⟨name,shape,layers⟩ := net
  simp only [toNetwork,Error.bind_eq_ok_iff,Error.pure_eq_ok_iff]
  constructor
  · rintro ⟨layers',hlayers,heq⟩
    cases heq
    exact ⟨rfl,rfl,hlayers⟩
  · rintro ⟨hname,hshape,hlayers⟩
    exact ⟨layers,hlayers,by rw [hname,hshape]⟩

theorem toNetwork_ofNetwork_of_all {net : Network Single}
    (h : net.layers.All Operation.Describable) : (ofNetwork net).toNetwork = .ok net :=
  toNetwork_eq_ok_iff.mpr ⟨rfl,rfl,LayerSpecs.toLayers_ofLayers h⟩

theorem describable_of_toNetwork {d : Description} {net : Network Single}
    (hd : d.layers.All LayerFields.Storable) (h : d.toNetwork = .ok net) :
    net.layers.All Operation.Describable :=
  d.layers.all_of_toLayers LayerFields.describable_of_operation hd (toNetwork_eq_ok_iff.mp h).2.2

/-- A network that can be described is built again from its description, with every name, shape,
attribute and float as it was; and so is every network that was built from a description. -/
theorem toNetwork_ofNetwork :
    (∀ net : Network Single, net.layers.All Operation.Describable →
      (ofNetwork net).toNetwork = .ok net) ∧
    (∀ (d : Description) (net : Network Single), d.layers.All LayerFields.Storable →
      d.toNetwork = .ok net → (ofNetwork net).toNetwork = .ok net) :=
  ⟨fun _ h => toNetwork_ofNetwork_of_all h,
    fun _ _ hd h => toNetwork_ofNetwork_of_all (describable_of_toNetwork hd h)⟩

/-- A branch with an infinite weight beside one that passes its input on, and a pooling layer
whose stride is its width. -/
theorem toNetwork_ofNetwork_block : ∃ (net pooled : Network Single) (d : Description),
    net.layers.nodeCount = 2 ∧ net.layers.All Operation.Describable ∧
      d.layers.All LayerFields.Storable ∧ d.toNetwork = .ok pooled ∧
      (ofNetwork net).toNetwork = .ok net ∧ (ofNetwork pooled).toNetwork = .ok pooled := by
  let dense : Dense Single := ⟨1,1,⟨[1,1],#[Single.infinity],rfl⟩,rfl,#[Single.negInfinity]⟩
  let net : Network Single :=
    ⟨"n",[1],.block "b" (.cons "l" (.single "f" (.dense dense) .nil) (.cons "r" .nil .nil)) .nil⟩
  let pool : Layers Single := .single "p" (.pooling ⟨.avg,2,2,0⟩) .nil
  let d : Description :=
    ⟨"n",[1,2,2],.cons ⟨"p","avg_pool",[("pool_size",.int 2)],none,none⟩ .nil .nil⟩
  have hnet : net.layers.All Operation.Describable :=
    ⟨⟨⟨⟨rfl,by decide⟩,trivial⟩,trivial,trivial⟩,trivial⟩
  have hd : d.layers.All LayerFields.Storable := by
    refine ⟨fun key v hv => ?_,trivial,trivial⟩
    obtain ⟨-,rfl⟩ : key = "pool_size" ∧ v = 2 := by simpa using hv
    decide
  have hbuilt : d.toNetwork = .ok ⟨"n",[1,2,2],pool⟩ := rfl
  exact ⟨net,⟨"n",[1,2,2],pool⟩,d,rfl,hnet,hd,hbuilt,toNetwork_ofNetwork.1 net hnet,
    toNetwork_ofNetwork.2 d _ hd hbuilt⟩

end Description
end Sensitivity
