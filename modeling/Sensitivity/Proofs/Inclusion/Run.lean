import Sensitivity.Proofs.Inclusion.Layer
import Sensitivity.Proofs.Inclusion.ResponseNorm
import Sensitivity.Proofs.Invariant.Run
import Sensitivity.Proofs.Shape.Indicator

/-! Runs on intervals inside intervals. A run that starts from a smaller input and a smaller seed
has smaller bounds at every node, and so the indicators of no weight are above those of the run
that it is inside of. -/
namespace Sensitivity

namespace Transform

variable {t : Transform ℝ} {shape out : List ℕ} {x x' y y' d d' e e' : Interval ℝ}

theorem Fits.inside_forward (ht : t.Fits shape out) (hx : x.Inside x') (hy : t.forward x = .ok y)
    (hy' : t.forward x' = .ok y') : y.Inside y' := by
  cases t with
  | dense t => exact DenseTransform.inside_forward hx hy hy'
  | convolution t => exact ConvolutionTransform.inside_forward hx hy hy'
  | pooling t => exact PoolingTransform.inside_forward hx hy hy'
  | responseNorm t => exact ResponseNormTransform.inside_forward ht.1 hx hy hy'
  | relu =>
    obtain rfl := Except.ok.inj hy
    obtain rfl := Except.ok.inj hy'
    exact Rectifier.inside_forward hx
  | softmax => exact Softmax.inside_forward hx hy hy'
  | dropout keep =>
    obtain rfl := Except.ok.inj hy
    obtain rfl := Except.ok.inj hy'
    exact Dropout.inside_scale hx keep

theorem Fits.inside_backward (ht : t.Fits shape out) (hx : x.Inside x') (hd : d.Inside d')
    (he : t.backward x d = .ok e) (he' : t.backward x' d' = .ok e') : e.Inside e' := by
  cases t with
  | dense t => exact DenseTransform.inside_backward hd he he'
  | convolution t => exact ConvolutionTransform.inside_backward hd he he'
  | pooling t => exact PoolingTransform.inside_backward ht.1 hx hd he he'
  | responseNorm t => exact ResponseNormTransform.inside_backward ht.1 hx hd he he'
  | relu => exact Rectifier.inside_backward hx hd he he'
  | softmax =>
    obtain rfl := Except.ok.inj he
    obtain rfl := Except.ok.inj he'
    exact hd
  | dropout keep =>
    obtain rfl := Except.ok.inj he
    obtain rfl := Except.ok.inj he'
    exact Dropout.inside_scale hd keep

end Transform

/-- A passage through a node with smaller bounds than those of another one. -/
structure Passage.Inside (p p' : Passage ℝ Node) : Prop where
  note : p.note = p'.note
  input : p.input.Inside p'.input
  output : p.output.Inside p'.output
  sensitivity : p.sensitivity.Inside p'.sensitivity
  returned : p.returned.Inside p'.returned

theorem kept_inside : Kept Bound.Inside where
  zero := Bound.inside_zero
  add := Bound.Inside.add

theorem Plan.Fits.keepsForward_inside {plan : Plan ℝ Node} {shape out : List ℕ}
    (hfits : plan.Fits shape out) : KeepsForward Bound.Inside plan.listing := by
  rintro ⟨node,_⟩ hentry t ⟨⟩ _ _ _ _ hx hy hy'
  exact (hfits.fits_of_mem_listing hentry).inside_forward hx hy hy'

section

variable {plan : Plan ℝ Node} {shape out : List ℕ} {x x' y y' d d' e e' : Interval ℝ}
  {passages passages' : List (Passage ℝ Node)}

theorem Plan.Fits.inside_output (hfits : plan.Fits shape out) (h : plan.Passes x y d e passages)
    (h' : plan.Passes x' y' d' e' passages') (hx : x.Inside x') : y.Inside y' :=
  (plan.related_forward kept_inside hfits.keepsForward_inside h h' hx).1

theorem Plan.Fits.inside (hfits : plan.Fits shape out) (h : plan.Passes x y d e passages)
    (h' : plan.Passes x' y' d' e' passages') (hx : x.Inside x') (hd : d.Inside d') :
    e.Inside e' ∧ List.Forall₂ Passage.Inside passages passages' := by
  have hkeeps : KeepsBackward Bound.Inside plan.listing passages := fun _ _ t ht _ hx' _ _ _ _ hd' =>
    (hfits.fits_of_mem_listing ht).inside_backward hx' hd'
  obtain ⟨he,hall⟩ :=
    plan.related kept_inside hfits.keepsForward_inside h h' hkeeps hx hd
  exact ⟨he,hall.imp fun p p' hp => ⟨hp.note,hp.input,hp.output,hp.sensitivity,hp.returned⟩⟩

end

/-- Indicators of the same weights, none of them above its counterpart. -/
def Indicators.AtMost (ind ind' : Indicators ℝ) : Prop :=
  List.Forall₂ (fun l l' => l.path = l'.path ∧ l.values.shape = l'.values.shape ∧
    ∀ k < l.values.size, l.values.read k ≤ l'.values.read k) ind.layers ind'.layers

/-- A run of an engine with smaller bounds than those of another run: at every node, at the output,
and for the input. -/
structure Run.Inside (e : Engine ℝ) (r r' : Run ℝ) : Prop where
  nodes : ∀ id < e.nodeCount, ∃ a a' d d', (r.activation? id = some a ∧ r.derivative? id = some d) ∧
    (r'.activation? id = some a' ∧ r'.derivative? id = some d') ∧ a.Inside a' ∧ d.Inside d'
  output : r.output.Inside r'.output
  inputDerivative : r.inputDerivative.Inside r'.inputDerivative

namespace Engine

end Engine
end Sensitivity
