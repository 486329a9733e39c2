import Sensitivity.Description.Basic
import Sensitivity.Proofs.Shape.Layer
import Mathlib.Algebra.BigOperators.Group.List.Lemmas

/-! What it takes to build a layer from its fields. Every reader of fields has one statement: it
ends well exactly when the fields that count for its kind are read and the layer passes its check. -/
namespace Sensitivity

theorem TensorData.toTensor_eq_ok_iff {d : TensorData} {t : Tensor Single} :
    d.toTensor = .ok t ↔ d = ofTensor t ∧ Tensor.Addressable t.shape := by
  obtain ⟨shape,data⟩ := d
  unfold toTensor
  constructor
  · intro h
    dsimp only at h
    split at h
    · cases h
    split at h
    next ha =>
      obtain rfl := Except.ok.inj h
      exact ⟨rfl,ha.1⟩
    next => cases h
  · rintro ⟨heq,ha⟩
    obtain ⟨rfl,rfl⟩ := TensorData.mk.inj heq
    have hlength : t.toList.length = t.shape.prod := by simpa [Tensor.toList] using t.size_cells
    dsimp only
    rw [if_neg (by rw [ha.prod_mod]; exact not_not_intro hlength),dif_pos ⟨ha,hlength⟩]
    exact congrArg Except.ok (Tensor.ext rfl rfl)

theorem Tensor.addressable_singleton {shape : List ℕ} {n : ℕ} (h : Addressable shape)
    (hn : n ∈ shape) : Addressable [n] := by
  by_cases hzero : n = 0
  · subst hzero
    decide
  · simpa [Addressable,hzero] using h.mem_lt hn

namespace LayerFields

variable {f : LayerFields}

theorem requiredWeights_eq_ok_iff {w : Tensor Single} :
    f.requiredWeights = .ok w ↔ f.weights = some (.ofTensor w) ∧ Tensor.Addressable w.shape := by
  unfold requiredWeights
  cases f.weights with
  | none => simp
  | some d => simp only [TensorData.toTensor_eq_ok_iff,Option.some.injEq]

theorem biasOrZeros_eq_ok_iff {n : ℕ} {v : Array Single} :
    f.biasOrZeros n = .ok v ↔ (f.bias = none ∧ v = Array.replicate n 0) ∨
      (f.bias = some (.ofVector v) ∧ Tensor.Addressable [v.size]) := by
  unfold biasOrZeros
  cases f.bias with
  | none => simp [eq_comm]
  | some d =>
    simp only [Error.bind_eq_ok_iff,TensorData.toTensor_eq_ok_iff,Option.some.injEq,reduceCtorEq,
      false_and,false_or]
    constructor
    · rintro ⟨t,⟨rfl,ha⟩,h⟩
      split at h
      next hrank =>
        obtain rfl := Error.pure_eq_ok_iff.mp h
        obtain ⟨m,hm⟩ := List.length_eq_one_iff.mp hrank
        have hsize : t.shape = [t.cells.size] := by rw [t.size_cells,hm,List.prod_singleton]
        rw [hsize] at ha
        exact ⟨by rw [TensorData.ofTensor,hsize]; rfl,ha⟩
      next => cases h
    · rintro ⟨rfl,ha⟩
      exact ⟨.ofArray v,⟨rfl,ha⟩,rfl⟩

theorem mem_of_attribute? {key : String} {a : Attribute Single} (h : f.attribute? key = some a) :
    (key,a) ∈ f.attributes := by
  obtain ⟨⟨key',a'⟩,hfind,rfl⟩ := Option.map_eq_some_iff.mp h
  obtain rfl : key' = key := by simpa using List.find?_some hfind
  exact List.mem_reverse.mp (List.mem_of_find?_eq_some hfind)

theorem dense_eq_ok_iff {layer : Dense Single} :
    f.dense = .ok layer ↔ f.requiredWeights = .ok layer.weights ∧
      f.biasOrZeros layer.outputs = .ok layer.bias ∧ layer.check = .ok layer := by
  obtain ⟨inputs,outputs,weights,hweights,bias⟩ := layer
  simp only [dense,Error.bind_eq_ok_iff]
  constructor
  · rintro ⟨w,hw,h⟩
    split at h
    next hshape =>
      obtain ⟨b,hb,h⟩ := Error.bind_eq_ok_iff.mp h
      have heq := (Dense.check_eq_ok_iff.mp h).1
      cases heq
      exact ⟨hw,hb,h⟩
    next => cases h
  · rintro ⟨hw,hb,hcheck⟩
    refine ⟨weights,hw,?_⟩
    split
    next n m hshape =>
      obtain ⟨rfl,rfl⟩ : inputs = n ∧ outputs = m := by
        simpa using hweights.symm.trans hshape
      exact Error.bind_eq_ok_iff.mpr ⟨bias,hb,hcheck⟩
    next hshape => exact absurd hweights (hshape _ _)

theorem convolution_eq_ok_iff {layer : Convolution Single} :
    f.convolution = .ok layer ↔ f.requiredWeights = .ok layer.weights ∧
      f.biasOrZeros layer.outputs = .ok layer.bias ∧
      (∃ v, f.natural? "stride" = .ok v ∧ v.getD 1 = layer.stride) ∧
      (∃ v, f.natural? "padding" = .ok v ∧ v.getD 0 = layer.padding) ∧
      (∃ v, f.natural? "groups" = .ok v ∧ v.getD 1 = layer.groups) ∧
      layer.check = .ok layer := by
  obtain ⟨outputs,groupInputs,height,width,weights,hweights,bias,stride,padding,groups⟩ := layer
  simp only [convolution,Error.bind_eq_ok_iff]
  constructor
  · rintro ⟨w,hw,h⟩
    split at h
    next hshape =>
      simp only [Error.bind_eq_ok_iff] at h
      obtain ⟨b,hb,s,hs,p,hp,g,hg,h⟩ := h
      have heq := (Convolution.check_eq_ok_iff.mp h).1
      cases heq
      exact ⟨hw,hb,⟨s,hs,rfl⟩,⟨p,hp,rfl⟩,⟨g,hg,rfl⟩,h⟩
    next => cases h
  · rintro ⟨hw,hb,⟨s,hs,rfl⟩,⟨p,hp,rfl⟩,⟨g,hg,rfl⟩,hcheck⟩
    refine ⟨weights,hw,?_⟩
    split
    next n c y x hshape =>
      obtain ⟨rfl,rfl,rfl,rfl⟩ : outputs = n ∧ groupInputs = c ∧ height = y ∧ width = x := by
        simpa using hweights.symm.trans hshape
      simp only [Error.bind_eq_ok_iff]
      exact ⟨bias,hb,s,hs,p,hp,g,hg,hcheck⟩
    next hshape => exact absurd hweights (hshape _ _ _ _)

theorem pooling_eq_ok_iff {mode : PoolMode} {layer : Pooling} :
    f.pooling mode = .ok layer ↔ layer.mode = mode ∧ f.natural? "pool_size" = .ok (some layer.size) ∧
      (∃ v, f.natural? "stride" = .ok v ∧ v.getD layer.size = layer.stride) ∧
      (∃ v, f.natural? "padding" = .ok v ∧ v.getD 0 = layer.padding) ∧
      (layer.check : Except (Error Single) Pooling) = .ok layer := by
  simp only [pooling,Error.bind_eq_ok_iff]
  constructor
  · rintro ⟨size,hsize,h⟩
    cases size with
    | none => cases h
    | some size =>
      simp only [Error.bind_eq_ok_iff] at h
      obtain ⟨s,hs,p,hp,h⟩ := h
      obtain rfl := (Pooling.check_eq_ok_iff.mp h).1
      exact ⟨rfl,hsize,⟨s,hs,rfl⟩,⟨p,hp,rfl⟩,h⟩
  · rintro ⟨rfl,hsize,⟨s,hs,hstride⟩,⟨p,hp,hpadding⟩,hcheck⟩
    refine ⟨some layer.size,hsize,?_⟩
    simp only [Error.bind_eq_ok_iff]
    refine ⟨s,hs,p,hp,?_⟩
    rw [hstride,hpadding]
    exact hcheck

theorem responseNorm_eq_ok_iff {layer : ResponseNorm Single} :
    f.responseNorm = .ok layer ↔
      (∃ v, f.natural? "local_range" = .ok v ∧ v.getD 5 = layer.localRange) ∧
      (∃ v, f.number? "k" = .ok v ∧ v.getD (Single.ofNat 1) = layer.offset) ∧
      (∃ v, f.number? "alpha" = .ok v ∧ v.getD (Single.ofRatio false 1 10000) = layer.alpha) ∧
      (∃ v, f.number? "beta" = .ok v ∧ v.getD (Single.ofRatio false 3 4) = layer.beta) ∧
      layer.check = .ok layer := by
  simp only [responseNorm,Error.bind_eq_ok_iff]
  constructor
  · rintro ⟨r,hr,k,hk,a,ha,b,hb,h⟩
    obtain rfl := (ResponseNorm.check_eq_ok_iff.mp h).1
    exact ⟨⟨r,hr,rfl⟩,⟨k,hk,rfl⟩,⟨a,ha,rfl⟩,⟨b,hb,rfl⟩,h⟩
  · rintro ⟨⟨r,hr,hrange⟩,⟨k,hk,hoffset⟩,⟨a,ha,halpha⟩,⟨b,hb,hbeta⟩,hcheck⟩
    refine ⟨r,hr,k,hk,a,ha,b,hb,?_⟩
    rw [hrange,hoffset,halpha,hbeta]
    exact hcheck

theorem dropout_eq_ok_iff {rate : Single} :
    f.dropout = .ok rate ↔
      (∃ v, f.number? "p_dropout" = .ok v ∧ v.getD (Single.ofRatio false 1 2) = rate) ∧
      Dropout.check rate = .ok rate := by
  simp only [dropout,Error.bind_eq_ok_iff]
  constructor
  · rintro ⟨v,hv,h⟩
    obtain rfl := (Dropout.check_eq_ok_iff.mp h).1
    exact ⟨⟨v,hv,rfl⟩,h⟩
  · rintro ⟨⟨v,hv,hrate⟩,hcheck⟩
    refine ⟨v,hv,?_⟩
    rw [hrate]
    exact hcheck

/-- The reader of an operation's kind gives that operation. -/
def Builds (f : LayerFields) : Operation Single → Prop
  | .dense layer => f.dense = .ok layer
  | .convolution layer => f.convolution = .ok layer
  | .pooling layer => f.pooling layer.mode = .ok layer
  | .responseNorm layer => f.responseNorm = .ok layer
  | .relu => True
  | .softmax => True
  | .dropout rate => f.dropout = .ok rate

theorem operation_eq_ok_iff {op : Operation Single} :
    f.operation = .ok op ↔ f.kind = op.tag ∧ f.Builds op := by
  constructor
  · intro h
    unfold operation at h
    repeat' split at h
    next hkind =>
      obtain ⟨layer,hlayer,rfl⟩ := Error.map_eq_ok_iff.mp h
      exact ⟨hkind,hlayer⟩
    next hkind =>
      obtain ⟨layer,hlayer,rfl⟩ := Error.map_eq_ok_iff.mp h
      exact ⟨hkind,hlayer⟩
    next hkind =>
      obtain ⟨layer,hlayer,rfl⟩ := Error.map_eq_ok_iff.mp h
      have hmode := (pooling_eq_ok_iff.mp hlayer).1
      exact ⟨by simpa only [Operation.tag,hmode],by simpa only [Builds,hmode]⟩
    next hkind =>
      obtain ⟨layer,hlayer,rfl⟩ := Error.map_eq_ok_iff.mp h
      have hmode := (pooling_eq_ok_iff.mp hlayer).1
      exact ⟨by simpa only [Operation.tag,hmode],by simpa only [Builds,hmode]⟩
    next hkind =>
      obtain ⟨layer,hlayer,rfl⟩ := Error.map_eq_ok_iff.mp h
      exact ⟨hkind,hlayer⟩
    next hkind =>
      obtain rfl := Except.ok.inj h
      exact ⟨hkind,trivial⟩
    next hkind =>
      obtain rfl := Except.ok.inj h
      exact ⟨hkind,trivial⟩
    next hkind =>
      obtain ⟨rate,hrate,rfl⟩ := Error.map_eq_ok_iff.mp h
      exact ⟨hkind,hrate⟩
    next => cases h
  · rintro ⟨hkind,h⟩
    cases op with
    | pooling layer =>
      obtain ⟨mode,size,stride,padding⟩ := layer
      cases mode <;> simp_all [operation,Operation.tag,Builds]
    | _ => simp_all [operation,Operation.tag,Builds]

end LayerFields
end Sensitivity
