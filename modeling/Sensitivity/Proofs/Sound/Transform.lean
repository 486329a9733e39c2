import Sensitivity.Proofs.Sound.Activation
import Sensitivity.Proofs.Sound.Convolution
import Sensitivity.Proofs.Sound.Dense
import Sensitivity.Proofs.Sound.Pooling
import Sensitivity.Proofs.Sound.ResponseNorm

/-! Soundness of single layers. A bound around the input gives a bound around the output, and one
around a sensitivity to the output gives one around what is passed back. -/
namespace Sensitivity
namespace Transform

variable {t : Transform ℝ} {shape out : List ℕ} {X Y D E : Interval ℝ} {x δ ε : Tensor ℝ} {row : ℕ}

theorem Fits.shape_eval (ht : t.Fits shape out) (hx : x.shape = shape) : (t.eval x).shape = out := by
  cases t with
  | dense t => exact ht.2.2.symm
  | convolution t => exact ht.2.2
  | pooling t => exact ht.2.2
  | responseNorm t => exact ht.2.1.trans ht.2.2.symm
  | relu => exact hx.trans ht.symm
  | softmax => exact hx.trans ht.2.symm
  | dropout keep => exact hx.trans ht.symm

theorem Fits.encloses_forward (ht : t.Fits shape out) (hwords : t.InWords) (hx : X.Encloses x)
    (hy : t.forward X = .ok Y) : Y.Encloses (t.eval x) := by
  cases t with
  | dense t => exact DenseTransform.encloses_forward hx hy
  | convolution t => exact ConvolutionTransform.encloses_forward hx hy
  | pooling t => exact PoolingTransform.encloses_forward ht.1 hwords.2 hx hy
  | responseNorm t => exact ResponseNormTransform.encloses_forward ht.1 hx hy
  | relu =>
    obtain rfl := Except.ok.inj hy
    exact Rectifier.encloses_forward hx
  | softmax => exact Softmax.encloses_forward hx hy
  | dropout keep =>
    obtain rfl := Except.ok.inj hy
    exact Dropout.encloses_forward hx keep

theorem Fits.enclosesRow_backward (ht : t.Fits shape out) (hwords : t.InWords)
    (hx : X.Encloses x) (hshape : x.shape = shape) (hd : D.EnclosesRow row δ) (hδ : δ.shape = out)
    (he : t.backward X D = .ok E) (hε : t.Reverses x δ ε) : E.EnclosesRow row ε := by
  cases t with
  | dense t =>
    obtain ⟨rfl,hinputs,rfl⟩ := ht
    exact DenseTransform.enclosesRow_backward hinputs hd hδ he hshape hε
  | convolution t =>
    obtain ⟨ht,rfl,rfl⟩ := ht
    exact ConvolutionTransform.enclosesRow_backward ht hd hδ hshape he hε
  | pooling t =>
    obtain ⟨ht,rfl,rfl⟩ := ht
    exact PoolingTransform.enclosesRow_backward ht hwords.2 hx hshape hd hδ he hε
  | responseNorm t =>
    obtain ⟨ht,rfl,rfl⟩ := ht
    exact ResponseNormTransform.enclosesRow_backward ht hx hshape hd hδ he hε
  | relu =>
    obtain rfl := ht
    exact Rectifier.enclosesRow_backward hx hd (hδ.trans hshape.symm) he hε
  | softmax =>
    obtain ⟨-,rfl⟩ := ht
    obtain rfl := Except.ok.inj he
    exact Softmax.enclosesRow_backward hd (hδ.trans hshape.symm) hε
  | dropout keep =>
    obtain rfl := ht
    obtain rfl := Except.ok.inj he
    exact Dropout.enclosesRow_backward hd (hδ.trans hshape.symm) hε

theorem Fits.exists_slopes (ht : t.Fits shape out) (hx : x.shape = shape) :
    ∃ slope, t.Slopes x slope := by
  cases t with
  | dense t =>
    obtain ⟨rfl,hinputs,-⟩ := ht
    exact ⟨_,DenseTransform.hasSlopes (by rw [hx,hinputs])⟩
  | convolution t =>
    exact ⟨_,(ConvolutionTransform.hasCellSlopes ht.1 (hx.trans ht.2.1.symm)).hasSlopes⟩
  | pooling t =>
    rcases hmode : t.layer.mode with _ | _ <;> simp only [Slopes,hmode]
    · exact t.exists_maxSlopes x
    · exact ⟨_,(PoolingTransform.hasCellSlopes ht.1 (hx.trans ht.2.1.symm) hmode).hasSlopes⟩
  | responseNorm t =>
    exact ⟨_,(ResponseNormTransform.hasCellSlopes ht.1 (hx.trans ht.2.1.symm)).hasSlopes⟩
  | relu =>
    refine ⟨fun i k => if i = k then if 0 < x.read i then 1 else 0 else 0,
      fun i _ => ⟨_,?_,fun k => rfl⟩⟩
    split
    next h => exact ⟨fun _ => rfl,fun h' => absurd h' h.not_gt,zero_le_one,le_rfl⟩
    next h => exact ⟨fun h' => absurd h' h,fun _ => rfl,le_rfl,zero_le_one⟩
  | softmax => exact ⟨fun i k => if i = k then 1 else 0,fun i _ k => rfl⟩
  | dropout keep => exact ⟨_,Dropout.hasSlopes keep x⟩

theorem Fits.exists_reverses (ht : t.Fits shape out) (hx : x.shape = shape) (δ : Tensor ℝ) :
    ∃ ε, t.Reverses x δ ε := by
  obtain ⟨slope,hslope⟩ := ht.exists_slopes hx
  refine ⟨Tensor.ofFn x.shape fun k => ∑ i ∈ Finset.range δ.shape.prod, δ.read i * slope i k,
    rfl,slope,hslope,fun k hk => ?_⟩
  exact Tensor.read_ofFn _ _ hk

end Transform

theorem Window.eq_number_of_count {extent window stride padding n : ℕ}
    (h : (count extent window stride padding : Except (Error ℝ) ℕ) = .ok n)
    (hwords : InWords extent window stride padding) : n = number extent window stride padding := by
  obtain ⟨hfits,rfl⟩ := count_eq_ok_iff.mp h
  rw [padded_of_inWords hwords] at hfits ⊢
  exact Nat.mod_eq_of_lt (hwords.number hfits)

/-- As long as extents stay in words, an operation is resolved to the layer that it stands for. -/
theorem Transform.Resolves.eq_onShape {op : Operation ℝ} {t : Transform ℝ} {shape out : List ℕ}
    (h : Resolves op shape t out) (hwords : t.InWords) : t = op.onShape shape := by
  cases h with
  | dense => rfl
  | @convolution t ht =>
    obtain ⟨layer,input,channels,height,width⟩ := t
    obtain rfl : channels = layer.outputs := ht.output_channels
    obtain rfl : height = Window.number input.height layer.height layer.stride layer.padding :=
      Window.eq_number_of_count ht.output_height hwords.1
    obtain rfl : width = Window.number input.width layer.width layer.stride layer.padding :=
      Window.eq_number_of_count ht.output_width hwords.2
    rfl
  | @pooling t ht =>
    obtain ⟨layer,input,channels,height,width⟩ := t
    obtain rfl : channels = input.channels := ht.output_channels
    obtain rfl : height = Window.number input.height layer.size layer.stride layer.padding :=
      Window.eq_number_of_count ht.output_height hwords.1.1
    obtain rfl : width = Window.number input.width layer.size layer.stride layer.padding :=
      Window.eq_number_of_count ht.output_width hwords.1.2
    rfl
  | responseNorm => rfl
  | relu => rfl
  | softmax => rfl
  | dropout => rfl

end Sensitivity
