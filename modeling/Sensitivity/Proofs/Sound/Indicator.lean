import Sensitivity.Proofs.Indicator
import Sensitivity.Proofs.Sound.Run
import Sensitivity.Proofs.Sound.Weight

/-! Soundness of indicators. A weight times the derivative of the network output by it stays
below its indicator, whichever input and seed inside their bounds the derivative is taken at. -/
namespace Sensitivity

namespace Visit

def weights? (v : Visit) : Option (Tensor ℝ) := v.kind.weights?

/-- The derivative of the network output by weight `k` of the layer: over the outputs of the
layer, the sensitivity to the output times its derivative by the weight. -/
def WeightDerivative (v : Visit) (k : ℕ) (g : ℝ) : Prop :=
  ∃ op w, v.kind = .single op ∧ op.weights? = some w ∧ ∃ slope : ℕ → ℝ,
    (∀ p < v.sensitivity.shape.prod,
      HasDerivAt (fun u => ((op.setWeight k u).eval v.input).read p) (slope p) (w.read k)) ∧
    g = ∑ p ∈ Finset.range v.sensitivity.shape.prod, v.sensitivity.read p * slope p

variable {v : Visit} {k : ℕ} {g g' : ℝ}

theorem weights?_eq_bind (v : Visit) : v.weights? = v.transform.bind Transform.weights? := by
  obtain ⟨kind,x,δ⟩ := v
  cases kind with
  | single op => cases op <;> rfl
  | block branches => rfl

theorem WeightDerivative.unique (h : v.WeightDerivative k g) (h' : v.WeightDerivative k g') :
    g = g' := by
  obtain ⟨op,w,hop,hw,slope,hslope,rfl⟩ := h
  obtain ⟨op',w',hop',hw',slope',hslope',rfl⟩ := h'
  obtain rfl := LayerKind.single.inj (hop.symm.trans hop')
  obtain rfl := Option.some.inj (hw.symm.trans hw')
  refine Finset.sum_congr rfl fun p hp => ?_
  rw [Finset.mem_range] at hp
  rw [(hslope p hp).unique (hslope' p hp)]

theorem kind_of_dense {t : DenseTransform ℝ} (ht : v.transform = some (.dense t)) :
    v.kind = .single (.dense t.layer) ∧ ∀ k w,
      ((Operation.dense t.layer).setWeight k w).eval v.input = (t.setWeight k w).eval v.input := by
  unfold transform at ht
  split at ht
  next op hop =>
    cases op with
    | dense layer =>
      cases ht
      exact ⟨hop,fun _ _ => rfl⟩
    | _ => cases ht
  next => cases ht

theorem kind_of_convolution {t : ConvolutionTransform ℝ}
    (ht : v.transform = some (.convolution t)) :
    v.kind = .single (.convolution t.layer) ∧ ∀ k w,
      ((Operation.convolution t.layer).setWeight k w).eval v.input =
        (t.setWeight k w).eval v.input := by
  unfold transform at ht
  split at ht
  next op hop =>
    cases op with
    | convolution layer =>
      cases ht
      exact ⟨hop,fun _ _ => rfl⟩
    | _ => cases ht
  next => cases ht

theorem weightDerivative_dense {t : DenseTransform ℝ} (ht : v.transform = some (.dense t))
    (hshape : v.sensitivity.shape = [t.layer.outputs]) {i j : ℕ} (hi : i < t.layer.inputs)
    (hj : j < t.layer.outputs) : v.WeightDerivative (i * t.layer.outputs + j)
      (v.input.read i * v.sensitivity.read j) := by
  obtain ⟨hkind,heval⟩ := kind_of_dense ht
  refine ⟨_,_,hkind,rfl,fun p => if p = j then v.input.read i else 0,fun p hp => ?_,?_⟩
  · have hp : p < t.layer.outputs := by simpa [hshape] using hp
    simp only [heval]
    exact DenseTransform.hasDerivAt_setWeight v.input hi hj hp _
  · have hj' : j < v.sensitivity.shape.prod := by simpa [hshape] using hj
    simp [hj',mul_comm]

theorem weightDerivative_convolution {t : ConvolutionTransform ℝ} (hresolved : t.Resolved)
    (ht : v.transform = some (.convolution t)) (hshape : v.sensitivity.shape = t.output.toList)
    {o ci di dj : ℕ} (ho : o < t.layer.outputs) (hci : ci < t.layer.groupInputs)
    (hdi : di < t.layer.height) (hdj : dj < t.layer.width) :
    v.WeightDerivative (t.weightPosition o ci di dj)
      (∑ i ∈ Finset.range t.output.height, ∑ j ∈ Finset.range t.output.width,
        t.readAt v.input o i j ci di dj * v.sensitivity.pixel t.output o i j) := by
  let slopeAt (o' i j : ℕ) : ℝ := if o' = o then t.readAt v.input o' i j ci di dj else 0
  let slope (p : ℕ) : ℝ := slopeAt (p / t.output.width / t.output.height)
    (p / t.output.width % t.output.height) (p % t.output.width)
  have hslope : ∀ o' i j, i < t.output.height → j < t.output.width →
      slope (t.output.position o' i j) = slopeAt o' i j := by
    intro o' i j hi hj
    simp only [slope,ImageShape.position_channel hi hj,ImageShape.position_row hi hj,
      ImageShape.position_column hj]
  obtain ⟨hkind,heval⟩ := kind_of_convolution ht
  refine ⟨_,_,hkind,rfl,slope,fun p hp => ?_,?_⟩
  · rw [hshape] at hp
    obtain ⟨o',ho',i,hi,j,hj,rfl⟩ := ImageShape.exists_position hp
    rw [hslope o' i j hi hj]
    simp only [heval]
    exact ConvolutionTransform.hasDerivAt_setWeight v.input hci hdi hdj ho' hi hj hresolved _
  · have hmem : o ∈ Finset.range t.output.channels := by
      rw [hresolved.output_channels]
      exact Finset.mem_range.mpr ho
    rw [hshape,ImageShape.sum_positions]
    refine Eq.symm ((Finset.sum_eq_single_of_mem o hmem fun o' _ hne => ?_).trans ?_)
    · refine Finset.sum_eq_zero fun i hi => Finset.sum_eq_zero fun j hj => ?_
      rw [hslope o' i j (Finset.mem_range.mp hi) (Finset.mem_range.mp hj)]
      simp only [slopeAt,if_neg hne,mul_zero]
    · refine Finset.sum_congr rfl fun i hi => Finset.sum_congr rfl fun j hj => ?_
      rw [hslope o i j (Finset.mem_range.mp hi) (Finset.mem_range.mp hj),mul_comm]
      simp only [slopeAt,if_true]
      rfl

end Visit

/-- Indicators of the weights of a visited layer. Every weight times its derivative stays below
its indicator; the derivative by a filter weight is a sum over the positions that read a cell
through it. -/
structure LayerIndicators.Bounds (l : LayerIndicators ℝ) (w : String × Tensor ℝ) (v : Visit) :
    Prop where
  path : l.path = w.1
  shape : l.values.shape = w.2.shape
  weights : v.weights? = some w.2
  derivative : ∀ k < w.2.shape.prod, ∃ g, v.WeightDerivative k g
  bound : ∀ k < w.2.shape.prod, ∀ g, v.WeightDerivative k g → |w.2.read k * g| ≤ l.values.read k
  filter : ∀ t, v.transform = some (.convolution t) → ∀ o < t.layer.outputs,
    ∀ ci < t.layer.groupInputs, ∀ di < t.layer.height, ∀ dj < t.layer.width,
      v.WeightDerivative (t.weightPosition o ci di dj)
        (∑ i ∈ Finset.range t.output.height, ∑ j ∈ Finset.range t.output.width,
          t.readAt v.input o i j ci di dj * v.sensitivity.pixel t.output o i j)

namespace LayerIndicators

variable {l : LayerIndicators ℝ} {v : Visit} {X D : Interval ℝ} {row : ℕ} {path : String}
  {values : Tensor ℝ}

theorem bounds_dense {t : DenseTransform ℝ} (ht : v.transform = some (.dense t))
    (hfits : (Transform.dense t).Fits v.input.shape v.sensitivity.shape)
    (hvalues : Indicator.dense Score.maxAbs.apply t X D = .ok values)
    (hx : X.Encloses v.input) (hd : D.EnclosesRow row v.sensitivity) :
    (LayerIndicators.mk path values).Bounds (path,t.layer.weights) v := by
  obtain ⟨-,hinputs,hshape⟩ := hfits
  have hcell : ∀ k < t.layer.weights.shape.prod, ∃ i < t.layer.inputs, ∃ j < t.layer.outputs,
      k = i * t.layer.outputs + j := by
    intro k hk
    rw [t.layer.shape_weights] at hk
    have hk : k < t.layer.inputs * t.layer.outputs := by simpa using hk
    have hpos : 0 < t.layer.outputs := Nat.pos_of_ne_zero fun h0 => by simp [h0] at hk
    exact ⟨k / t.layer.outputs,(Nat.div_lt_iff_lt_mul hpos).mpr hk,k % t.layer.outputs,
      Nat.mod_lt _ hpos,(Nat.div_add_mod' _ _).symm⟩
  refine ⟨rfl,Indicator.shape_dense hvalues,?_,?_,?_,?_⟩
  · rw [Visit.weights?,(Visit.kind_of_dense ht).1]
    rfl
  · intro k hk
    obtain ⟨i,hi,j,hj,rfl⟩ := hcell k hk
    exact ⟨_,Visit.weightDerivative_dense ht hshape hi hj⟩
  · intro k hk g hg
    obtain ⟨i,hi,j,hj,rfl⟩ := hcell k hk
    rw [hg.unique (Visit.weightDerivative_dense ht hshape hi hj)]
    exact DenseTransform.abs_le_indicator hvalues hx hinputs hd hshape hi hj
  · intro t' ht'
    rw [ht] at ht'
    cases ht'

theorem bounds_convolution {t : ConvolutionTransform ℝ} (ht : v.transform = some (.convolution t))
    (hfits : (Transform.convolution t).Fits v.input.shape v.sensitivity.shape)
    (hvalues : Indicator.convolution Score.maxAbs.apply t X D = .ok values)
    (hx : X.Encloses v.input) (hd : D.EnclosesRow row v.sensitivity) :
    (LayerIndicators.mk path values).Bounds (path,t.layer.weights) v := by
  obtain ⟨hresolved,hinput,hshape⟩ := hfits
  refine ⟨rfl,Indicator.shape_convolution hvalues,?_,?_,?_,?_⟩
  · rw [Visit.weights?,(Visit.kind_of_convolution ht).1]
    rfl
  · intro k hk
    obtain ⟨o,ho,ci,hci,di,hdi,dj,hdj,rfl⟩ := ConvolutionTransform.exists_weightPosition hk
    exact ⟨_,Visit.weightDerivative_convolution hresolved ht hshape.symm ho hci hdi hdj⟩
  · intro k hk g hg
    obtain ⟨o,ho,ci,hci,di,hdi,dj,hdj,rfl⟩ := ConvolutionTransform.exists_weightPosition hk
    rw [hg.unique (Visit.weightDerivative_convolution hresolved ht hshape.symm ho hci hdi hdj)]
    exact ConvolutionTransform.abs_le_indicator hresolved hvalues hx hinput.symm hd hshape.symm ho
      hci hdi hdj
  · intro t' ht' o ho ci hci di hdi dj hdj
    obtain rfl : t = t' := by
      rw [ht] at ht'
      cases ht'
      rfl
    exact Visit.weightDerivative_convolution hresolved ht hshape.symm ho hci hdi hdj

end LayerIndicators

namespace Indicator

variable {r : Run ℝ} {activations log : List (Node × Interval ℝ)} {row : ℕ}

theorem exists_values {node : Node} {X D : Interval ℝ} (hX : r.activation? node.id = some X)
    (hD : r.derivative? node.id = some D) {f : Interval ℝ → Interval ℝ → Except (Error ℝ) (Tensor ℝ)}
    {l : LayerIndicators ℝ} (h : (Error.within node.id node.path do
      let (x,d) ← stored r node
      return ⟨node.path,← f x d⟩) = .ok l) :
    ∃ values, f X D = .ok values ∧ l = ⟨node.path,values⟩ := by
  have hstored : stored r node = .ok (X,D) := by
    unfold stored
    rw [hX,hD]
  rw [Error.within_eq_ok_iff,hstored] at h
  obtain ⟨pair,hpair,h⟩ := Error.bind_eq_ok_iff.mp h
  obtain rfl := Except.ok.inj hpair
  obtain ⟨values,hvalues,hl⟩ := Error.bind_eq_ok_iff.mp h
  exact ⟨values,hvalues,(Error.pure_eq_ok_iff.mp hl).symm⟩

theorem exists_ofNode (hactivation : ∀ w ∈ activations, r.activation? w.1.id = some w.2)
    (hderivative : ∀ w ∈ log, r.derivative? w.1.id = some w.2)
    {entry : Node × Option (Transform ℝ)} {v : Visit} (hv : v.Within activations log row entry)
    {w : String × Tensor ℝ} (hw : Node.weights? entry = some w) :
    ∃ c, ofNode Score.maxAbs.apply r entry.1 entry.2 = some c ∧ ∀ l, c = .ok l → l.Bounds w v := by
  obtain ⟨node,t⟩ := entry
  obtain ⟨A,hA,hinput⟩ := hv.input
  obtain ⟨D,hD,hsensitivity⟩ := hv.sensitivity
  have hX : r.activation? node.id = some A := hactivation _ hA
  have hY : r.derivative? node.id = some D := hderivative _ hD
  have ht : t = v.transform := hv.transform
  cases t with
  | none => cases hw
  | some t =>
    have hfits := hv.fits t ht.symm
    cases t with
    | dense t =>
      obtain rfl := Option.some.inj hw
      refine ⟨_,rfl,fun l hl => ?_⟩
      obtain ⟨values,hvalues,rfl⟩ := exists_values hX hY hl
      exact LayerIndicators.bounds_dense ht.symm hfits hvalues hinput hsensitivity
    | convolution t =>
      obtain rfl := Option.some.inj hw
      refine ⟨_,rfl,fun l hl => ?_⟩
      obtain ⟨values,hvalues,rfl⟩ := exists_values hX hY hl
      exact LayerIndicators.bounds_convolution ht.symm hfits hvalues hinput hsensitivity
    | pooling t => cases hw
    | responseNorm t => cases hw
    | relu => cases hw
    | softmax => cases hw
    | dropout keep => cases hw

theorem isSome_weights?_iff {entry : Node × Option (Transform ℝ)} {v : Visit}
    (hv : v.Within activations log row entry) :
    v.weights?.isSome = (Node.weights? entry).isSome := by
  rw [Visit.weights?_eq_bind,← hv.transform,Node.weights?,Option.isSome_map]

/-- Weights, visits and indicators of weighted layers are in one order. -/
theorem exists_bounds (hactivation : ∀ w ∈ activations, r.activation? w.1.id = some w.2)
    (hderivative : ∀ w ∈ log, r.derivative? w.1.id = some w.2)
    {entries : List (Node × Option (Transform ℝ))} {visits : List Visit}
    (hcovered : Covered activations log row entries visits) {layers : List (LayerIndicators ℝ)}
    (hlayers : List.Forall₂ (fun c l => c = .ok l)
      (entries.filterMap fun entry => ofNode Score.maxAbs.apply r entry.1 entry.2) layers)
    {k : ℕ} {w : String × Tensor ℝ} (hw : (entries.filterMap Node.weights?)[k]? = some w) :
    ∃ v l, (visits.filter (·.weights?.isSome))[k]? = some v ∧ layers[k]? = some l ∧ l.Bounds w v := by
  induction hcovered generalizing layers k with
  | nil => cases hw
  | @cons entry v entries visits hv _ ih =>
    have hrel := rel_ofNode Score.maxAbs.apply r entry
    have hsome := isSome_weights?_iff hv
    rcases hweights : Node.weights? entry with _ | first
    · rw [hweights] at hrel hsome
      have hnone : ofNode Score.maxAbs.apply r entry.1 entry.2 = none := by
        rcases hnode : ofNode Score.maxAbs.apply r entry.1 entry.2 with _ | c
        · rfl
        · rw [hnode] at hrel
          cases hrel
      simp only [List.filterMap_cons,hnone] at hlayers
      rw [List.filterMap_cons_none hweights] at hw
      rw [List.filter_cons_of_neg (by simp [hsome])]
      exact ih hlayers hw
    · obtain ⟨c,hc,hbounds⟩ := exists_ofNode hactivation hderivative hv hweights
      rw [hweights] at hsome
      simp only [List.filterMap_cons,hc] at hlayers
      obtain ⟨l,layers',hl,hrest,rfl⟩ := List.forall₂_cons_left_iff.mp hlayers
      rw [List.filterMap_cons_some hweights] at hw
      rw [List.filter_cons_of_pos (by simp [hsome])]
      cases k with
      | zero =>
        obtain rfl := Option.some.inj hw
        exact ⟨v,l,rfl,rfl,hbounds l hl⟩
      | succ k => exact ih hrest hw

end Indicator

/-- The indicators of a run bound the importance of every weight. For every input and every seed
row inside the bounds of the run, and for every run of the network from them, the `k`-th weighted
layer of the network is the `k`-th weighted layer visited, and has the `k`-th indicators. -/
theorem Indicators.bounds_of_compute {net : Network ℝ} {e : Engine ℝ} {X S : Interval ℝ} {r : Run ℝ}
    {ind : Indicators ℝ} {x δ : Tensor ℝ} {row : ℕ} (he : Engine.compile net = .ok e)
    (hwords : e.InWords) (hr : e.propagate X S = .ok r)
    (hind : Indicators.compute Score.maxAbs.apply e r = .ok ind) (hx : X.Encloses x)
    (hδ : S.EnclosesRow row δ) :
    ind.layers.length = net.weighted.length ∧ (∃ y ε visits, net.layers.Runs x y δ ε visits) ∧
      ∀ y ε visits, net.layers.Runs x y δ ε visits →
        ∀ (k : ℕ) w, net.weighted[k]? = some w → ∃ v l,
          (visits.filter (·.weights?.isSome))[k]? = some v ∧ ind.layers[k]? = some l ∧
            l.Bounds w v := by
  refine ⟨(Indicators.match_of_compute he hind).length_eq.symm,Engine.exists_runs he hwords hr hx hδ,
    fun y ε visits hrun k w hw => ?_⟩
  obtain ⟨-,-,activations,log,hcovered,hactivation,hderivative⟩ :=
    Engine.exists_covered he hwords hr hx hδ hrun
  rw [← Engine.weights_listing he] at hw
  exact Indicator.exists_bounds hactivation hderivative hcovered
    (Indicators.compute_eq_ok_iff.mp hind) hw

/-- A convolution with one filter weight, inside a block. -/
theorem Indicators.bounds_of_compute_block : ∃ (net : Network ℝ) (e : Engine ℝ) (r : Run ℝ)
    (ind : Indicators ℝ), Engine.compile net = .ok e ∧ e.InWords ∧
      e.propagate (Tensor.fill [1,1,2] ⟨-1,1⟩) (Tensor.fill [1,1,1,2] ⟨0,1⟩) = .ok r ∧
      Indicators.compute Score.maxAbs.apply e r = .ok ind ∧
      net.weighted[0]? = some ("b/c/w",Tensor.fill [1,1,1,1] 2) ∧
      ∃ y ε visits, net.layers.Runs (Tensor.fill [1,1,2] 1) y (Tensor.fill [1,1,2] 1) ε visits ∧
        ∃ v l, (visits.filter (·.weights?.isSome))[0]? = some v ∧ ind.layers[0]? = some l ∧
          l.Bounds ("b/c/w",Tensor.fill [1,1,1,1] 2) v := by
  let net : Network ℝ := ⟨"n",[1,1,2],.block "b" (.cons "c" (.single "w" (.convolution
    ⟨1,1,1,1,Tensor.fill [1,1,1,1] 2,rfl,#[0],1,0,1⟩) .nil) .nil) .nil⟩
  obtain ⟨ind,h⟩ : ∃ ind, (Engine.compile net >>= fun e =>
      e.propagate (Tensor.fill [1,1,2] ⟨-1,1⟩) (Tensor.fill [1,1,1,2] ⟨0,1⟩) >>= fun r =>
        Indicators.compute Score.maxAbs.apply e r) = .ok ind :=
    Error.exists_of_isOk (by decide +kernel)
  obtain ⟨_,he',h⟩ := Error.bind_eq_ok_iff.mp h
  obtain ⟨r,hr,hind⟩ := Error.bind_eq_ok_iff.mp h
  obtain ⟨e,he,hwords⟩ : ∃ e, Engine.compile net = .ok e ∧ e.InWords :=
    Engine.exists_compile (by decide +kernel)
  obtain rfl := Except.ok.inj (he.symm.trans he')
  have hw : net.weighted[0]? = some ("b/c/w",Tensor.fill [1,1,1,1] 2) := rfl
  have hx : Interval.Encloses (Tensor.fill [1,1,2] ⟨-1,1⟩) (Tensor.fill [1,1,2] 1) :=
    Interval.encloses_fill _ ⟨by norm_num,le_rfl⟩
  have hδ : Interval.EnclosesRow (Tensor.fill [1,1,1,2] ⟨0,1⟩) 0 (Tensor.fill [1,1,2] 1) :=
    Interval.enclosesRow_fill _ Nat.one_pos ⟨zero_le_one,le_rfl⟩
  obtain ⟨-,⟨y,ε,visits,hrun⟩,hall⟩ := bounds_of_compute he hwords hr hind hx hδ
  exact ⟨net,e,r,ind,he,hwords,hr,hind,hw,y,ε,visits,hrun,hall y ε visits hrun 0 _ hw⟩

end Sensitivity
