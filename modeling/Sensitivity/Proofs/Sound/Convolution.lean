import Sensitivity.Proofs.Shape.Layer
import Sensitivity.Proofs.Sound.Enclosure

/-! Convolutions. On the way forward each output cell adds up the cells that its filter reads; on
the way back each input cell adds up the outputs that read it, through one filter cell each. -/
namespace Sensitivity

theorem Window.source?_eq_some_iff {stride padding i d extent length y : ℕ} (hd : d < length)
    (hy : y < extent) :
    source? stride padding i d extent = some y ↔ offset? stride padding i y length = some d := by
  unfold source? offset?
  split <;> split <;> simp only [Option.some.injEq,reduceCtorEq,iff_self,false_iff,iff_false] <;>
    omega

/-- The weight that the code reads for a filter cell is the one of the four axes. -/
theorem Convolution.weight_eq (layer : Convolution ℝ) (o ci di dj : ℕ) : layer.weight o ci di dj =
    layer.weights.at4 layer.groupInputs layer.height layer.width o ci di dj := rfl

/-- The input channels of a group stand side by side. -/
theorem Convolution.inputChannel_eq (layer : Convolution ℝ) (o ci : ℕ) : layer.inputChannel o ci =
    o / (layer.outputs / layer.groups) * layer.groupInputs + ci := rfl

theorem Convolution.filterChannel?_eq_some_iff {layer : Convolution ℝ} {o c ci : ℕ} :
    layer.filterChannel? o c = some ci ↔ ci < layer.groupInputs ∧ layer.inputChannel o ci = c := by
  unfold filterChannel? inputChannel
  split <;> simp only [Option.some.injEq,reduceCtorEq,false_iff] <;> omega

theorem sum_mul_ite_some {a b c : ℕ} {A B C : Option ℕ} (f : ℕ → ℕ → ℕ → ℝ)
    (hA : ∀ i, A = some i → i < a) (hB : ∀ i, B = some i → i < b) (hC : ∀ i, C = some i → i < c) :
    ∑ i ∈ Finset.range a, ∑ j ∈ Finset.range b, ∑ k ∈ Finset.range c,
        f i j k * (if A = some i ∧ B = some j ∧ C = some k then 1 else 0) =
      A.elim 0 fun i => B.elim 0 fun j => C.elim 0 fun k => f i j k := by
  cases A with
  | none => simp
  | some i =>
  cases B with
  | none => simp
  | some j =>
  cases C with
  | none => simp
  | some k => simp [ite_and,hA i rfl,hB j rfl,hC k rfl]

namespace ConvolutionTransform

variable {t : ConvolutionTransform ℝ} {X Y D E : Interval ℝ} {x δ ε : Tensor ℝ} {row : ℕ}
  {o i j ci di dj : ℕ}

/-- The position that output position `(i, j)` of channel `o` reads at one cell of its filter,
unless it is padding. -/
def source? (t : ConvolutionTransform ℝ) (o i j ci di dj : ℕ) : Option ℕ :=
  match t.layer.source? i di t.input.height, t.layer.source? j dj t.input.width with
  | some y, some z => some (t.input.position (t.layer.inputChannel o ci) y z)
  | _, _ => none

theorem readAt_eq (x : Tensor ℝ) (o i j ci di dj : ℕ) :
    t.readAt x o i j ci di dj = (t.source? o i j ci di dj).elim 0 x.read := by
  unfold readAt Tensor.padded source? Convolution.source? Window.source?
  rw [← Convolution.inputChannel_eq]
  by_cases hy : t.layer.padding ≤ i * t.layer.stride + di ∧
      i * t.layer.stride + di - t.layer.padding < t.input.height
  · by_cases hz : t.layer.padding ≤ j * t.layer.stride + dj ∧
        j * t.layer.stride + dj - t.layer.padding < t.input.width
    · rw [if_pos hy,if_pos hz,if_pos (by omega)]
      simp only [Option.elim_some,Tensor.pixel_eq_read]
      congr 2 <;> omega
    · rw [if_pos hy,if_neg hz,if_neg (by omega)]
      rfl
  · rw [if_neg hy,if_neg (by omega)]
    rfl

theorem source?_lt (ht : t.Resolved) (ho : o < t.layer.outputs) (hci : ci < t.layer.groupInputs)
    {p : ℕ} (hp : t.source? o i j ci di dj = some p) : p < t.input.toList.prod := by
  unfold source? at hp
  split at hp
  next y z hy hz =>
    rw [← Option.some.inj hp]
    exact ImageShape.position_lt (inputChannel_lt ht ho hci) (Window.lt_of_source? hy)
      (Window.lt_of_source? hz)
  next => cases hp

/-- An output reads an input cell through the filter cell that the way back looks up for it. -/
theorem source?_eq_some_iff {c y z : ℕ} (hci : ci < t.layer.groupInputs) (hdi : di < t.layer.height)
    (hdj : dj < t.layer.width) (hy : y < t.input.height) (hz : z < t.input.width) :
    t.source? o i j ci di dj = some (t.input.position c y z) ↔
      t.layer.filterChannel? o c = some ci ∧
        Window.offset? t.layer.stride t.layer.padding i y t.layer.height = some di ∧
        Window.offset? t.layer.stride t.layer.padding j z t.layer.width = some dj := by
  rw [Convolution.filterChannel?_eq_some_iff,← Window.source?_eq_some_iff hdi hy,
    ← Window.source?_eq_some_iff hdj hz]
  unfold source? Convolution.source?
  split
  next y' z' hy' hz' =>
    rw [hy',hz',Option.some.injEq,Option.some.injEq,Option.some.injEq,
      ImageShape.position_inj (Window.lt_of_source? hy') (Window.lt_of_source? hz') hy hz]
    simp [hci]
  next h =>
    simp only [reduceCtorEq,false_iff]
    rintro ⟨-,hy',hz'⟩
    exact h _ _ hy' hz'

theorem contains_forwardTap (hx : X.Encloses x) {acc : Bound ℝ} {u : ℝ} (hacc : acc.Contains u) :
    (t.forwardTap X o i j acc (ci,di,dj)).Contains
      (u + t.layer.weight o ci di dj * t.readAt x o i j ci di dj) := by
  simp only [forwardTap,readAt_eq,source?]
  split
  next hw =>
    have hzero : t.layer.weight o ci di dj = 0 := le_antisymm hw.1 hw.2
    rw [hzero,zero_mul,add_zero]
    exact hacc
  next =>
  rcases hy : t.layer.source? i di t.input.height with _ | y
  · simpa using hacc
  rcases hz : t.layer.source? j dj t.input.width with _ | z
  · simpa using hacc
  exact Bound.contains_add hacc (Bound.contains_weighted (hx.contains_pixel _ y z) _)

theorem encloses_forward (hx : X.Encloses x) (hy : t.forward X = .ok Y) : Y.Encloses (t.eval x) := by
  obtain ⟨-,rfl⟩ := forward_eq_ok_iff.mp hy
  have hcells : (Interval.ofImage t.output (t.forwardCell X)).Encloses (t.eval x) := by
    refine Interval.encloses_ofImage fun o _ i _ j _ => ?_
    have hfold : (t.forwardCell X o i j).Contains (t.layer.bias.getD o 0 +
        (t.layer.taps.map fun tap => t.layer.weight o tap.1 tap.2.1 tap.2.2 *
          t.readAt x o i j tap.1 tap.2.1 tap.2.2).sum) := by
      refine Bound.contains_foldl (fun tap _ acc u hacc => ?_)
        (Bound.contains_point (t.layer.bias.getD o 0))
      exact contains_forwardTap hx hacc
    rw [Convolution.taps,sum_map_grid3] at hfold
    simp only [Convolution.weight_eq] at hfold
    exact hfold
  refine ⟨hcells.1,fun p hp => ?_⟩
  have hp' : p < (Interval.ofImage t.output (t.forwardCell X)).shape.prod := hp
  rw [Interval.ordered,Tensor.read_map _ _ hp']
  exact Bound.contains_ordered (hcells.2 p hp)

/-- How an output cell moves with a cell of the input: the weights through which it reads it. -/
noncomputable def slopeAt (t : ConvolutionTransform ℝ) (o i j k : ℕ) : ℝ :=
  ∑ ci ∈ Finset.range t.layer.groupInputs, ∑ di ∈ Finset.range t.layer.height,
    ∑ dj ∈ Finset.range t.layer.width,
      t.layer.weight o ci di dj * (if t.source? o i j ci di dj = some k then 1 else 0)

theorem hasDerivAt_readAt (ht : t.Resolved) (hshape : x.shape = t.input.toList)
    (ho : o < t.layer.outputs) (hci : ci < t.layer.groupInputs) (k : ℕ) :
    HasDerivAt (fun v => t.readAt (x.update k v) o i j ci di dj)
      (if t.source? o i j ci di dj = some k then 1 else 0) (x.read k) := by
  simp only [readAt_eq]
  rcases hp : t.source? o i j ci di dj with _ | p
  · exact hasDerivAt_const _ _
  · have hlt : p < x.shape.prod := hshape ▸ source?_lt ht ho hci hp
    simpa using Tensor.hasDerivAt_read_update k (x.read k) hlt

theorem hasCellSlopes (ht : t.Resolved) (hshape : x.shape = t.input.toList) :
    (Transform.convolution t).HasCellSlopes x t.output t.slopeAt := by
  refine ⟨rfl,fun o ho i hi j hj k hk => ?_⟩
  simp only [Transform.eval,eval,Tensor.pixel_ofImage _ ho hi hj]
  rw [ht.output_channels] at ho
  refine HasDerivAt.const_add _ (HasDerivAt.fun_sum fun ci hci => HasDerivAt.fun_sum fun di _ =>
    HasDerivAt.fun_sum fun dj _ => HasDerivAt.const_mul _ ?_)
  exact hasDerivAt_readAt ht hshape ho (Finset.mem_range.mp hci) k

theorem slopeAt_position {c y z : ℕ} (hy : y < t.input.height) (hz : z < t.input.width) :
    t.slopeAt o i j (t.input.position c y z) =
      (t.layer.filterChannel? o c).elim 0 fun ci =>
        (Window.offset? t.layer.stride t.layer.padding i y t.layer.height).elim 0 fun di =>
          (Window.offset? t.layer.stride t.layer.padding j z t.layer.width).elim 0 fun dj =>
            t.layer.weight o ci di dj := by
  rw [← sum_mul_ite_some (t.layer.weight o)
    (fun ci h => (Convolution.filterChannel?_eq_some_iff.mp h).1) (fun di => Window.lt_of_offset?)
    (fun dj => Window.lt_of_offset?),slopeAt]
  refine Finset.sum_congr rfl fun ci hci => Finset.sum_congr rfl fun di hdi =>
    Finset.sum_congr rfl fun dj hdj => ?_
  rw [Finset.mem_range] at hci hdi hdj
  simp only [source?_eq_some_iff hci hdi hdj hy hz]

theorem contains_backwardTerm {c y z : ℕ} (hd : D.EnclosesRow row δ)
    (hδ : δ.shape = t.output.toList) (ho : o < t.output.channels) (hi : i < t.output.height)
    (hj : j < t.output.width) (hy : y < t.input.height) (hz : z < t.input.width) {acc : Bound ℝ}
    {u : ℝ} (hacc : acc.Contains u) : (t.backwardTerm D row c y z acc (o,i,j)).Contains
      (u + δ.pixel t.output o i j * t.slopeAt o i j (t.input.position c y z)) := by
  have hcell := hd.contains_pixel hδ ho hi hj
  simp only [backwardTerm]
  split
  next hzero =>
    rw [Bound.eq_zero_of_isZero hcell hzero,zero_mul,add_zero]
    exact hacc
  next =>
  rw [slopeAt_position hy hz]
  rcases t.layer.filterChannel? o c with _ | ci
  · simpa using hacc
  rcases Window.offset? t.layer.stride t.layer.padding i y t.layer.height with _ | di
  · simpa using hacc
  rcases Window.offset? t.layer.stride t.layer.padding j z t.layer.width with _ | dj
  · simpa using hacc
  rw [mul_comm]
  exact Bound.contains_add hacc (Bound.contains_weighted hcell _)

theorem enclosesRow_backward (ht : t.Resolved) (hd : D.EnclosesRow row δ)
    (hδ : δ.shape = t.output.toList) (hshape : x.shape = t.input.toList)
    (he : t.backward D = .ok E) (hε : (Transform.convolution t).Reverses x δ ε) :
    E.EnclosesRow row ε := by
  obtain ⟨hε,slope,hslope,hread⟩ := hε
  obtain ⟨rows,hrows,he⟩ := backward_eq_ok_iff.mp he
  refine Interval.enclosesRow_ofRows he (hd.row_lt hrows) (hε.trans hshape) fun c hc y hy z hz => ?_
  have hk : t.input.position c y z < x.shape.prod := hshape ▸ ImageShape.position_lt hc hy hz
  rw [Tensor.pixel_eq_read,hread _ hk,hδ,(hasCellSlopes ht hshape).sum_eq hslope hk]
  have hfold : (t.backwardCell D row c y z).Contains
      ((grid3 t.output.channels t.output.height t.output.width).map fun out =>
        δ.pixel t.output out.1 out.2.1 out.2.2 *
          t.slopeAt out.1 out.2.1 out.2.2 (t.input.position c y z)).sum := by
    refine Bound.contains_foldl_zero fun out hout acc u hacc => ?_
    obtain ⟨ho,hi,hj⟩ := mem_grid3.mp hout
    exact contains_backwardTerm hd hδ ho hi hj hy hz hacc
  rw [sum_map_grid3] at hfold
  exact hfold

end ConvolutionTransform
end Sensitivity
