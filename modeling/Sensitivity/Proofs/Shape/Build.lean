import Sensitivity.Proofs.Shape.Network

/-! What is left to fail once a layer is built. Building compares the parts of a layer with one
another and with the input shape, so both ways through the layer then end well on every bound of
that shape. Only the number of biases of a fully connected layer is not compared before the bias is
added. -/
namespace Sensitivity

variable {α : Type}

/-- The biases fit the outputs, where building does not compare them. -/
def LayerKind.BiasFits : LayerKind α → Prop
  | .single op => op.BiasFits
  | .block _ => True

variable [Scalar α]

/-- A wrong number of biases is found after the product is formed. -/
theorem DenseTransform.forward_eq_mismatch {t : DenseTransform α} {x : Interval α}
    (hx : x.shape.prod = t.layer.inputs) (hinputs : t.layer.inputs ≠ 0)
    (hout : Tensor.Addressable [t.layer.outputs]) (hbias : t.layer.bias.size ≠ t.layer.outputs) :
    t.forward x = .error (.shapeMismatch [t.layer.outputs] [t.layer.bias.size]) := by
  have hflat : x.flatten.shape = [] ++ [t.layer.inputs] := by simp [hx]
  obtain ⟨z,hz⟩ := Interval.exists_contract hflat t.layer.shape_weights hinputs hout
  have hshape : z.shape = [t.layer.outputs] :=
    ((Interval.contract_eq_ok_iff hflat t.layer.shape_weights).mp hz).2.2.2.1
  have hne : z.shape ≠ (Tensor.ofArray t.layer.bias).shape := by
    rw [hshape,Tensor.shape_ofArray]
    exact fun h => hbias (List.cons.inj h).1.symm
  rw [forward,hz]
  show Tensor.zip _ z _ = _
  rw [Tensor.zip,dif_neg hne,hshape,Tensor.shape_ofArray]

namespace Transform

theorem Fits.hasCells {t : Transform α} {shape out : List ℕ} (h : t.Fits shape out)
    (hshape : 0 ∉ shape) (hout : 0 ∉ out) : t.HasCells := by
  cases t with
  | dense t =>
    obtain ⟨-,hprod,rfl⟩ := h
    refine ⟨hprod ▸ List.prod_ne_zero hshape,fun hzero => hout ?_⟩
    rw [hzero]
    exact List.mem_singleton_self 0
  | _ => trivial

theorem resolves_of_build {kind : LayerKind α} {shape out : List ℕ} {t : Transform α}
    (h : build kind shape = .ok (t,out)) : ∃ op, kind = .single op ∧ Resolves op shape t out := by
  cases kind with
  | single op => exact ⟨op,rfl,resolves_of_ofOperation h⟩
  | block branches => cases h

/-- A layer that is built runs on every bound of its shape, as long as the results can be held:
forward to its output shape, and back from any number of rows. The way forward only fails for a
fully connected layer that has not one bias for each output. -/
theorem runs_of_build {kind : LayerKind α} {shape out : List ℕ} {t : Transform α}
    (h : build kind shape = .ok (t,out)) (hshape : 0 ∉ shape) (hout : 0 ∉ out) :
    t.Fits shape out ∧
    (∀ x : Interval α, x.shape = shape → Tensor.Addressable out →
      (kind.BiasFits → ∃ y, t.forward x = .ok y ∧ y.shape = out) ∧
      (¬ kind.BiasFits → ∃ layer, kind = .single (.dense layer) ∧
        t.forward x = .error (.shapeMismatch [layer.outputs] [layer.bias.size]))) ∧
    ∀ (x d : Interval α) (rows : ℕ), x.shape = shape → d.shape = rows :: out → rows ≠ 0 →
      Tensor.Addressable (rows :: shape) → ∃ e, t.backward x d = .ok e ∧ e.shape = rows :: shape := by
  obtain ⟨op,rfl,hresolves⟩ := resolves_of_build h
  have hfits := hresolves.fits
  have hcells := hfits.hasCells hshape hout
  refine ⟨hfits,?_,?_⟩
  · intro x hx haddress
    constructor
    · intro hbias
      have hready : t.DenseReady := hresolves.denseReady ?_ hbias
      · obtain ⟨y,hy⟩ := hfits.exists_forward hready hx haddress
        exact ⟨y,hy,hfits.shape_forward hy hx⟩
      · cases hresolves with
        | dense _ => exact hcells
        | _ => trivial
    · intro hbias
      cases hresolves with
      | @dense layer _ hprod =>
        exact ⟨layer,rfl,DenseTransform.forward_eq_mismatch (hx ▸ hprod) hcells.1 haddress hbias⟩
      | _ => exact absurd trivial hbias
  · intro x d rows hx hd hrows haddress
    obtain ⟨e,he⟩ := hfits.exists_backward hcells hx hd hrows haddress
    exact ⟨e,he,hfits.shape_backward he hd⟩

/-- Two biases for one output are built and then refused. A strided convolution in two groups runs
both ways. -/
theorem runs_of_build_biases :
    (∃ (layer : Dense Single) (t : Transform Single),
      build (.single (.dense layer)) [1] = .ok (t,[1]) ∧
      t.forward (.fill [1] 0) = .error (.shapeMismatch [1] [2])) ∧
    ∃ (layer : Convolution Single) (t : Transform Single),
      build (.single (.convolution layer)) [2,5,5] = .ok (t,[4,3,3]) ∧
      (∃ y, t.forward (.fill [2,5,5] 0) = .ok y ∧ y.shape = [4,3,3]) ∧
      ∃ e, t.backward (.fill [2,5,5] 0) (.fill [7,4,3,3] 0) = .ok e ∧ e.shape = [7,2,5,5] := by
  constructor
  · let layer : Dense Single := ⟨1,1,.fill [1,1] 1,rfl,#[0,0]⟩
    have hbuild : build (.single (.dense layer)) [1] = .ok (.dense ⟨layer,[1]⟩,[1]) := rfl
    obtain ⟨-,hforward,-⟩ := runs_of_build hbuild (by decide) (by decide)
    obtain ⟨-,hrefused⟩ := hforward (.fill [1] 0) rfl (by decide)
    obtain ⟨_,hlayer,herror⟩ := hrefused (by simp [LayerKind.BiasFits,Operation.BiasFits,layer])
    cases hlayer
    exact ⟨layer,_,hbuild,herror⟩
  · let layer : Convolution Single :=
      ⟨4,1,3,3,.fill [4,1,3,3] 1,rfl,Array.replicate 4 0,2,1,2⟩
    have hbuild : build (.single (.convolution layer)) [2,5,5] =
        .ok (.convolution ⟨layer,⟨2,5,5⟩,⟨4,3,3⟩⟩,[4,3,3]) := by cbv
    obtain ⟨-,hforward,hbackward⟩ := runs_of_build hbuild (by decide) (by decide)
    exact ⟨layer,_,hbuild,(hforward _ rfl (by decide)).1 trivial,
      hbackward _ _ 7 rfl rfl (by decide) (by decide)⟩

end Transform
end Sensitivity
