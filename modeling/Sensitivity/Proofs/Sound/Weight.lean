import Sensitivity.Indicator
import Sensitivity.Proofs.Sound.Convolution
import Sensitivity.Proofs.Sound.Dense

/-! Weights of single layers. The output of a layer is linear in its weights: a weight of a fully
connected layer moves one output with one input, and a weight of a filter moves all positions of
one channel, each with the cell that it reads there. -/
namespace Sensitivity

variable {X D : Interval ℝ} {x δ : Tensor ℝ} {row : ℕ}

/-- A layer with one weight replaced. -/
def Dense.setWeight (layer : Dense ℝ) (k : ℕ) (w : ℝ) : Dense ℝ :=
  { layer with weights := layer.weights.update k w, shape_weights := layer.shape_weights }

def Convolution.setWeight (layer : Convolution ℝ) (k : ℕ) (w : ℝ) : Convolution ℝ :=
  { layer with weights := layer.weights.update k w, shape_weights := layer.shape_weights }

def Operation.setWeight (op : Operation ℝ) (k : ℕ) (w : ℝ) : Operation ℝ :=
  match op with
  | .dense layer => .dense (layer.setWeight k w)
  | .convolution layer => .convolution (layer.setWeight k w)
  | op => op

namespace Indicator

variable {score : Bound ℝ → ℝ} {rows : ℕ} {contribution : ℕ → Bound ℝ} {v : ℝ}

theorem best_succ : best score (rows+1) contribution =
    max (best score rows contribution) (score (contribution rows)) := by
  simp only [best,List.range_succ,List.foldl_append,List.foldl_cons,List.foldl_nil]

theorem best_le_iff :
    best score rows contribution ≤ v ↔ 0 ≤ v ∧ ∀ b < rows, score (contribution b) ≤ v := by
  induction rows with
  | zero => simp [best]
  | succ n ih => rw [best_succ,max_le_iff,ih,and_assoc,Nat.forall_lt_succ_right]

theorem le_best (contribution : ℕ → Bound ℝ) (hrow : row < rows) :
    score (contribution row) ≤ best score rows contribution :=
  (best_le_iff.mp le_rfl).2 row hrow

end Indicator

namespace DenseTransform

variable {t : DenseTransform ℝ} {v : Tensor ℝ} {i j j' : ℕ}

def setWeight (t : DenseTransform ℝ) (k : ℕ) (w : ℝ) : DenseTransform ℝ :=
  { t with layer := t.layer.setWeight k w }

theorem hasDerivAt_setWeight (x : Tensor ℝ) (hi : i < t.layer.inputs) (hj : j < t.layer.outputs)
    (hj' : j' < t.layer.outputs) (w : ℝ) :
    HasDerivAt (fun w => ((t.setWeight (i * t.layer.outputs + j) w).eval x).read j')
      (if j' = j then x.read i else 0) w := by
  have hread : ∀ w, ((t.setWeight (i * t.layer.outputs + j) w).eval x).read j' =
      (∑ l ∈ Finset.range t.layer.inputs, x.read l *
        (t.layer.weights.update (i * t.layer.outputs + j) w).read (l * t.layer.outputs + j')) +
          t.layer.bias.getD j' 0 := fun w => read_eval x hj'
  have hterm : ∀ l ∈ Finset.range t.layer.inputs, HasDerivAt
      (fun w => x.read l *
        (t.layer.weights.update (i * t.layer.outputs + j) w).read (l * t.layer.outputs + j'))
      (x.read l * if l = i ∧ j' = j then 1 else 0) w := by
    intro l hl
    have hlt : l * t.layer.outputs + j' < t.layer.weights.shape.prod := by
      rw [t.layer.shape_weights]
      simpa using Interval.row_position_lt (Finset.mem_range.mp hl) hj'
    refine ((Tensor.hasDerivAt_read_update (i * t.layer.outputs + j) w hlt).const_mul _).congr_deriv ?_
    simp only [ImageShape.mul_add_inj hj' hj]
  simp only [hread]
  refine ((HasDerivAt.fun_sum hterm).add_const _).congr_deriv ?_
  by_cases h : j' = j
  · simp [h,hi]
  · simp [h]

/-- The indicator of a weight bounds the weight times its derivative: an input times the
sensitivity to an output. -/
theorem abs_le_indicator (hv : Indicator.dense Score.maxAbs.apply t X D = .ok v)
    (hx : X.Encloses x) (hinputs : x.shape.prod = t.layer.inputs) (hd : D.EnclosesRow row δ)
    (hδ : δ.shape = [t.layer.outputs]) (hi : i < t.layer.inputs) (hj : j < t.layer.outputs) :
    |t.layer.weights.read (i * t.layer.outputs + j) * (x.read i * δ.read j)| ≤
      v.read (i * t.layer.outputs + j) := by
  simp only [Indicator.dense,Error.bind_eq_ok_iff,Interval.rowCount_eq_ok_iff] at hv
  obtain ⟨rows,hrows,hv⟩ := hv
  split at hv
  · cases hv
  obtain rfl := Error.pure_eq_ok_iff.mp hv
  have hlt : i * t.layer.outputs + j < [t.layer.inputs,t.layer.outputs].prod := by
    simpa using Interval.row_position_lt hi hj
  rw [Tensor.read_ofFn _ _ hlt,ImageShape.mul_add_div_of_lt hj,Nat.mul_add_mod_of_lt hj]
  have hrow := hd.row_lt hrows
  obtain ⟨-,-,-,hcells⟩ := hd
  have hcell := hcells j (by simpa [hδ] using hj)
  have hprod : δ.shape.prod = t.layer.outputs := by simp [hδ]
  rw [hprod] at hcell
  have hcontribution : (Indicator.denseContribution t X D i j row).Contains
      (x.read i * δ.read j * t.layer.weights.read (i * t.layer.outputs + j)) :=
    Bound.contains_scale (Bound.contains_mul (hx.2 i (hinputs ▸ hi)) hcell) _
  rw [mul_comm]
  have hbest : Score.maxAbs.apply (Indicator.denseContribution t X D i j row) ≤
      Indicator.best Score.maxAbs.apply rows (Indicator.denseContribution t X D i j) :=
    Indicator.le_best _ hrow
  exact (Bound.abs_le_maxAbs hcontribution).trans hbest

end DenseTransform

namespace ConvolutionTransform

variable {t : ConvolutionTransform ℝ} {v : Tensor ℝ} {o o' i j ci ci' di di' dj dj' : ℕ}

def setWeight (t : ConvolutionTransform ℝ) (k : ℕ) (w : ℝ) : ConvolutionTransform ℝ :=
  { t with layer := t.layer.setWeight k w }

def filters (t : ConvolutionTransform ℝ) : ImageShape :=
  ⟨t.layer.outputs * t.layer.groupInputs,t.layer.height,t.layer.width⟩

/-- The position of a filter cell among the weights. -/
def weightPosition (t : ConvolutionTransform ℝ) (o ci di dj : ℕ) : ℕ :=
  t.filters.position (o * t.layer.groupInputs + ci) di dj

theorem prod_weights (t : ConvolutionTransform ℝ) :
    t.layer.weights.shape.prod = t.filters.toList.prod := by
  rw [t.layer.shape_weights]
  simp [filters,ImageShape.toList,mul_assoc]

theorem weightPosition_lt (ho : o < t.layer.outputs) (hci : ci < t.layer.groupInputs)
    (hdi : di < t.layer.height) (hdj : dj < t.layer.width) :
    t.weightPosition o ci di dj < t.layer.weights.shape.prod := by
  rw [prod_weights]
  exact ImageShape.position_lt (Interval.row_position_lt ho hci) hdi hdj

theorem weightPosition_inj (hci : ci < t.layer.groupInputs) (hdi : di < t.layer.height)
    (hdj : dj < t.layer.width) (hci' : ci' < t.layer.groupInputs) (hdi' : di' < t.layer.height)
    (hdj' : dj' < t.layer.width) :
    t.weightPosition o' ci' di' dj' = t.weightPosition o ci di dj ↔
      o' = o ∧ ci' = ci ∧ di' = di ∧ dj' = dj := by
  have hposition : ∀ a a', t.filters.position a' di' dj' = t.filters.position a di dj ↔
      a' = a ∧ di' = di ∧ dj' = dj := fun _ _ => ImageShape.position_inj hdi' hdj' hdi hdj
  rw [weightPosition,weightPosition,hposition,ImageShape.mul_add_inj hci' hci,and_assoc]

theorem weightPosition_coordinates (hci : ci < t.layer.groupInputs) (hdi : di < t.layer.height)
    (hdj : dj < t.layer.width) :
    t.weightPosition o ci di dj / t.layer.width / t.layer.height / t.layer.groupInputs = o ∧
      t.weightPosition o ci di dj / t.layer.width / t.layer.height % t.layer.groupInputs = ci ∧
        t.weightPosition o ci di dj / t.layer.width % t.layer.height = di ∧
          t.weightPosition o ci di dj % t.layer.width = dj := by
  have hrow : t.weightPosition o ci di dj / t.layer.width =
      (o * t.layer.groupInputs + ci) * t.layer.height + di := ImageShape.mul_add_div_of_lt hdj
  have hcolumn : t.weightPosition o ci di dj % t.layer.width = dj := Nat.mul_add_mod_of_lt hdj
  rw [hrow,ImageShape.mul_add_div_of_lt hdi]
  exact ⟨ImageShape.mul_add_div_of_lt hci,Nat.mul_add_mod_of_lt hci,Nat.mul_add_mod_of_lt hdi,hcolumn⟩

theorem exists_weightPosition {k : ℕ} (hk : k < t.layer.weights.shape.prod) :
    ∃ o < t.layer.outputs, ∃ ci < t.layer.groupInputs, ∃ di < t.layer.height,
      ∃ dj < t.layer.width, k = t.weightPosition o ci di dj := by
  rw [prod_weights] at hk
  obtain ⟨c,hc,di,hdi,dj,hdj,rfl⟩ := ImageShape.exists_position hk
  have hc : c < t.layer.outputs * t.layer.groupInputs := hc
  have hpos : 0 < t.layer.groupInputs := Nat.pos_of_ne_zero fun h0 => by simp [h0] at hc
  refine ⟨c / t.layer.groupInputs,(Nat.div_lt_iff_lt_mul hpos).mpr hc,c % t.layer.groupInputs,
    Nat.mod_lt _ hpos,di,hdi,dj,hdj,?_⟩
  rw [weightPosition,Nat.div_add_mod']

theorem hasDerivAt_setWeight (x : Tensor ℝ) (hci : ci < t.layer.groupInputs)
    (hdi : di < t.layer.height) (hdj : dj < t.layer.width) (ho' : o' < t.output.channels)
    (hi : i < t.output.height) (hj : j < t.output.width) (ht : t.Resolved) (w : ℝ) :
    HasDerivAt (fun w => ((t.setWeight (t.weightPosition o ci di dj) w).eval x).pixel t.output o' i j)
      (if o' = o then t.readAt x o' i j ci di dj else 0) w := by
  have hpixel : ∀ w, ((t.setWeight (t.weightPosition o ci di dj) w).eval x).pixel t.output o' i j =
      t.layer.bias.getD o' 0 + ∑ a ∈ Finset.range t.layer.groupInputs,
        ∑ b ∈ Finset.range t.layer.height, ∑ c ∈ Finset.range t.layer.width,
          (t.layer.weights.update (t.weightPosition o ci di dj) w).read (t.weightPosition o' a b c) *
            t.readAt x o' i j a b c := fun w => Tensor.pixel_ofImage _ ho' hi hj
  simp only [hpixel]
  rw [ht.output_channels] at ho'
  have hterm : ∀ a ∈ Finset.range t.layer.groupInputs, ∀ b ∈ Finset.range t.layer.height,
      ∀ c ∈ Finset.range t.layer.width, HasDerivAt
        (fun w => (t.layer.weights.update (t.weightPosition o ci di dj) w).read
          (t.weightPosition o' a b c) * t.readAt x o' i j a b c)
        ((if o' = o ∧ a = ci ∧ b = di ∧ c = dj then 1 else 0) * t.readAt x o' i j a b c) w := by
    intro a ha b hb c hc
    rw [Finset.mem_range] at ha hb hc
    have h := Tensor.hasDerivAt_read_update (t.weightPosition o ci di dj) w
      (weightPosition_lt ho' ha hb hc)
    simp only [weightPosition_inj hci hdi hdj ha hb hc] at h
    exact h.mul_const _
  refine ((HasDerivAt.fun_sum fun a ha => HasDerivAt.fun_sum fun b hb => HasDerivAt.fun_sum
    fun c hc => hterm a ha b hb c hc).const_add _).congr_deriv ?_
  by_cases h : o' = o
  · simp [h,ite_and,hci,hdi,hdj]
  · simp [h]

theorem contains_convolutionTerm (ht : t.Resolved) (hx : X.Encloses x) (hd : D.EnclosesRow row δ)
    (hδ : δ.shape = t.output.toList) (ho : o < t.layer.outputs) (hi : i < t.output.height)
    (hj : j < t.output.width) {acc : Bound ℝ} {u : ℝ} (hacc : acc.Contains u) :
    (Indicator.convolutionTerm t t.input X D o ci di dj row acc (i,j)).Contains
      (u + t.readAt x o i j ci di dj * δ.pixel t.output o i j) := by
  simp only [Indicator.convolutionTerm,readAt_eq,source?]
  rcases hy : t.layer.source? i di t.input.height with _ | y
  · simpa using hacc
  rcases hz : t.layer.source? j dj t.input.width with _ | z
  · simpa using hacc
  exact Bound.contains_add hacc (Bound.contains_mul (hx.contains_pixel _ y z)
    (hd.contains_pixel hδ (ht.output_channels ▸ ho) hi hj))

/-- The indicator of a filter weight bounds the weight times its derivative: over all positions,
the cell that is read there times the sensitivity to the output there. -/
theorem abs_le_indicator (ht : t.Resolved)
    (hv : Indicator.convolution Score.maxAbs.apply t X D = .ok v) (hx : X.Encloses x)
    (hshape : x.shape = t.input.toList) (hd : D.EnclosesRow row δ) (hδ : δ.shape = t.output.toList)
    (ho : o < t.layer.outputs) (hci : ci < t.layer.groupInputs) (hdi : di < t.layer.height)
    (hdj : dj < t.layer.width) :
    |t.layer.weight o ci di dj * ∑ i ∈ Finset.range t.output.height,
        ∑ j ∈ Finset.range t.output.width,
          t.readAt x o i j ci di dj * δ.pixel t.output o i j| ≤
      v.read (t.weightPosition o ci di dj) := by
  simp only [Indicator.convolution,Error.bind_eq_ok_iff,Interval.rowCount_eq_ok_iff,hx.1,hshape,
    ImageShape.toList] at hv
  obtain ⟨rows,hrows,hv⟩ := hv
  split at hv
  next =>
    obtain rfl := Error.pure_eq_ok_iff.mp hv
    have hlt := weightPosition_lt ho hci hdi hdj
    rw [t.layer.shape_weights] at hlt
    obtain ⟨houtput,hchannel,hheight,hwidth⟩ :=
      weightPosition_coordinates (t := t) (o := o) hci hdi hdj
    rw [Tensor.read_ofFn _ _ hlt,houtput,hchannel,hheight,hwidth]
    have hfold : ((grid2 t.output.height t.output.width).foldl
        (Indicator.convolutionTerm t t.input X D o ci di dj row) 0).Contains
          ((grid2 t.output.height t.output.width).map fun p =>
            t.readAt x o p.1 p.2 ci di dj * δ.pixel t.output o p.1 p.2).sum :=
      Bound.contains_foldl_zero fun p hp acc u hacc => contains_convolutionTerm ht hx hd hδ ho
        (mem_grid2.mp hp).1 (mem_grid2.mp hp).2 hacc
    rw [sum_map_grid2] at hfold
    have hcontribution := Bound.contains_scale hfold (t.layer.weight o ci di dj)
    rw [mul_comm]
    have hbest : Score.maxAbs.apply
        (Indicator.convolutionContribution t t.input X D o ci di dj row) ≤
          Indicator.best Score.maxAbs.apply rows
            (Indicator.convolutionContribution t t.input X D o ci di dj) :=
      Indicator.le_best _ (hd.row_lt hrows)
    exact (Bound.abs_le_maxAbs hcontribution).trans hbest
  next => cases hv

end ConvolutionTransform
end Sensitivity
