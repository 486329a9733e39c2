import Sensitivity.Proofs.Exact.Sum
import Sensitivity.Proofs.Inclusion.Layer
import Sensitivity.Proofs.Invariant.Point
import Sensitivity.Proofs.Sound.Convolution

/-! The bounds of a convolution are exact. No cell of the input is read twice for one output, and no
output reads a cell twice, so both directions evaluate linear forms in independent cells. The way
back has the transposed coefficients of the way forward. -/
namespace Sensitivity

theorem sum_comm_last (n a b c : ℕ) (f : ℕ → ℕ → ℕ → ℕ → ℝ) :
    ∑ k ∈ Finset.range n, ∑ o ∈ Finset.range a, ∑ i ∈ Finset.range b, ∑ j ∈ Finset.range c,
        f k o i j =
      ∑ o ∈ Finset.range a, ∑ i ∈ Finset.range b, ∑ j ∈ Finset.range c, ∑ k ∈ Finset.range n,
        f k o i j := by
  rw [Finset.sum_comm]
  refine Finset.sum_congr rfl fun o _ => ?_
  rw [Finset.sum_comm]
  exact Finset.sum_congr rfl fun i _ => Finset.sum_comm

namespace ConvolutionTransform

variable {t : ConvolutionTransform ℝ} {X Y D E : Interval ℝ} {x : Tensor ℝ} {rows b : ℕ}
  {o i j ci di dj c y z : ℕ}

/-- The coefficient of an input cell in an output: the weights of the filter cells that lie on it
when the filter stands at the output. -/
noncomputable def coefficient (t : ConvolutionTransform ℝ) (o i j c y z : ℕ) : ℝ :=
  ∑ ci ∈ Finset.range t.layer.groupInputs, ∑ di ∈ Finset.range t.layer.height,
    ∑ dj ∈ Finset.range t.layer.width,
      if o / (t.layer.outputs / t.layer.groups) * t.layer.groupInputs + ci = c ∧
          i * t.layer.stride + di = y + t.layer.padding ∧
          j * t.layer.stride + dj = z + t.layer.padding
        then t.layer.weights.at4 t.layer.groupInputs t.layer.height t.layer.width o ci di dj else 0

theorem source?_eq_some_position (hy : y < t.input.height) (hz : z < t.input.width) :
    t.source? o i j ci di dj = some (t.input.position c y z) ↔
      t.layer.inputChannel o ci = c ∧ i * t.layer.stride + di = y + t.layer.padding ∧
        j * t.layer.stride + dj = z + t.layer.padding := by
  unfold source? Convolution.source? Window.source?
  by_cases hrow : t.layer.padding ≤ i * t.layer.stride + di ∧
      i * t.layer.stride + di - t.layer.padding < t.input.height
  · by_cases hcolumn : t.layer.padding ≤ j * t.layer.stride + dj ∧
        j * t.layer.stride + dj - t.layer.padding < t.input.width
    · rw [if_pos hrow,if_pos hcolumn]
      simp only [Option.some.injEq,ImageShape.position_inj hrow.2 hcolumn.2 hy hz]
      omega
    · rw [if_pos hrow,if_neg hcolumn]
      simp only [reduceCtorEq,false_iff]
      omega
  · rw [if_neg hrow]
    simp only [reduceCtorEq,false_iff]
    omega

theorem slopeAt_eq_coefficient (hy : y < t.input.height) (hz : z < t.input.width) :
    t.slopeAt o i j (t.input.position c y z) = t.coefficient o i j c y z := by
  simp only [slopeAt,coefficient,source?_eq_some_position hy hz,Convolution.inputChannel_eq,
    Convolution.weight_eq,mul_ite,mul_one,mul_zero]

theorem pixel_eval_slopeAt (ht : t.Resolved) (x : Tensor ℝ) (ho : o < t.output.channels)
    (hi : i < t.output.height) (hj : j < t.output.width) : (t.eval x).pixel t.output o i j =
      t.layer.bias.getD o 0 +
        ∑ k ∈ Finset.range t.input.toList.prod, t.slopeAt o i j k * x.read k := by
  have hread : ∀ ci ∈ Finset.range t.layer.groupInputs, ∀ di dj,
      t.readAt x o i j ci di dj = ∑ k ∈ Finset.range t.input.toList.prod,
        (if t.source? o i j ci di dj = some k then 1 else 0) * x.read k := by
    intro ci hci di dj
    rw [readAt_eq]
    cases hsource : t.source? o i j ci di dj with
    | none => simp
    | some p =>
      have hp := source?_lt ht (ht.output_channels ▸ ho) (Finset.mem_range.mp hci) hsource
      simp [hp]
  rw [eval,Tensor.pixel_ofImage _ ho hi hj]
  refine congrArg (t.layer.bias.getD o 0 + ·) ?_
  simp only [slopeAt,Finset.sum_mul]
  rw [sum_comm_last]
  refine Finset.sum_congr rfl fun ci hci => Finset.sum_congr rfl fun di _ =>
    Finset.sum_congr rfl fun dj _ => ?_
  rw [hread ci hci,Finset.mul_sum]
  simp only [Convolution.weight_eq,mul_assoc]

/-- An output is a linear form of the input with its coefficients, after the bias. -/
theorem pixel_eval (ht : t.Resolved) (x : Tensor ℝ) (ho : o < t.output.channels)
    (hi : i < t.output.height) (hj : j < t.output.width) : (t.eval x).pixel t.output o i j =
      t.layer.bias.getD o 0 + ∑ c ∈ Finset.range t.input.channels,
        ∑ y ∈ Finset.range t.input.height, ∑ z ∈ Finset.range t.input.width,
          t.coefficient o i j c y z * x.pixel t.input c y z := by
  rw [pixel_eval_slopeAt ht x ho hi hj,ImageShape.sum_positions]
  refine congrArg (t.layer.bias.getD o 0 + ·) ?_
  refine Finset.sum_congr rfl fun c _ => Finset.sum_congr rfl fun y hy =>
    Finset.sum_congr rfl fun z hz => ?_
  rw [slopeAt_eq_coefficient (Finset.mem_range.mp hy) (Finset.mem_range.mp hz),
    Tensor.pixel_eq_read]

section Forward

theorem readsApart_taps (ht : t.Resolved) (ho : o < t.layer.outputs) (i j : ℕ) :
    Interval.ReadsApart t.layer.taps (fun tap => t.source? o i j tap.1 tap.2.1 tap.2.2)
      t.input.toList := by
  constructor
  · rintro ⟨ci,di,dj⟩ hmem ⟨ci',di',dj'⟩ hmem' k h h'
    obtain ⟨hci,-,-⟩ := mem_grid3.mp hmem
    obtain ⟨c,hc,y,hy,z,hz,rfl⟩ := ImageShape.exists_position (source?_lt ht ho hci h)
    obtain ⟨hchannel,hrow,hcolumn⟩ := (source?_eq_some_position hy hz).mp h
    obtain ⟨hchannel',hrow',hcolumn'⟩ := (source?_eq_some_position hy hz).mp h'
    simp only [Convolution.inputChannel_eq] at hchannel hrow hcolumn hchannel' hrow' hcolumn'
    simp only [Prod.mk.injEq]
    omega
  · rintro ⟨ci,di,dj⟩ hmem k h
    exact source?_lt ht ho (mem_grid3.mp hmem).1 h

theorem forwardTap_eq (X : Interval ℝ) (o i j : ℕ) (acc : Bound ℝ) (tap : ℕ × ℕ × ℕ) :
    t.forwardTap X o i j acc tap =
      acc.add (((t.source? o i j tap.1 tap.2.1 tap.2.2).elim 0 X.read).weighted
        (t.layer.weight o tap.1 tap.2.1 tap.2.2)) := by
  obtain ⟨ci,di,dj⟩ := tap
  simp only [forwardTap,source?]
  by_cases hw : Scalar.Same (t.layer.weight o ci di dj) 0
  · have hweight : t.layer.weight o ci di dj = 0 := le_antisymm hw.1 hw.2
    rw [if_pos hw,hweight,Bound.weighted_zero,Bound.add_zero]
  · rw [if_neg hw]
    rcases t.layer.source? i di t.input.height with _ | y
    · simp
    rcases t.layer.source? j dj t.input.width with _ | z
    · simp
    rfl

/-- The values of an output over the inputs inside a bound. -/
def outputValues (t : ConvolutionTransform ℝ) (X : Interval ℝ) (o i j : ℕ) : Set ℝ :=
  (fun x => (t.eval x).pixel t.output o i j) '' {x | X.Encloses x}

theorem isRange_forwardCell (ht : t.Resolved) (hX : X.shape = t.input.toList)
    (hord : X.All Bound.InOrder) (ho : o < t.output.channels) (hi : i < t.output.height)
    (hj : j < t.output.width) : (t.forwardCell X o i j).IsRange (t.outputValues X o i j) := by
  have hsum := ((hX ▸ readsApart_taps ht (ht.output_channels ▸ ho) i j).isRange_linear hord
    fun tap => t.layer.weight o tap.1 tap.2.1 tap.2.2).addConst (t.layer.bias.getD o 0)
  rw [Set.image_image] at hsum
  have hvalue : ∀ x, (t.eval x).pixel t.output o i j = t.layer.bias.getD o 0 +
      (t.layer.taps.map fun tap => t.layer.weight o tap.1 tap.2.1 tap.2.2 *
        (t.source? o i j tap.1 tap.2.1 tap.2.2).elim 0 x.read).sum := by
    intro x
    rw [eval,Tensor.pixel_ofImage _ ho hi hj,Convolution.taps,sum_map_grid3]
    simp only [readAt_eq,Convolution.weight_eq]
  simp only [outputValues,hvalue]
  rw [forwardCell,Bound.foldl_eq_add_total fun tap _ acc => forwardTap_eq X o i j acc tap]
  exact hsum

theorem isRange_forward (ht : t.Resolved) (hX : X.shape = t.input.toList)
    (hord : X.All Bound.InOrder) : ∃ Y, t.forward X = .ok Y ∧ Y.shape = t.output.toList ∧
      ∀ o < t.output.channels, ∀ i < t.output.height, ∀ j < t.output.width,
        (Y.at3 t.output.height t.output.width o i j).IsRange (t.outputValues X o i j) := by
  refine ⟨_,forward_eq_ok_iff.mpr ⟨hX,rfl⟩,rfl,fun o ho i hi j hj => ?_⟩
  have hcell := isRange_forwardCell ht hX hord ho hi hj
  have hposition :
      t.output.position o i j < (Interval.ofImage t.output (t.forwardCell X)).shape.prod :=
    ImageShape.position_lt ho hi hj
  have hat : (Interval.ofImage t.output (t.forwardCell X)).ordered.at3 t.output.height t.output.width
      o i j = ((Interval.ofImage t.output (t.forwardCell X)).at3 t.output.height t.output.width
        o i j).ordered := Tensor.read_map _ _ hposition
  rw [hat,Interval.at3_ofImage _ ho hi hj,Bound.ordered_of_contains ⟨le_rfl,hcell.inOrder⟩]
  exact hcell

end Forward

section Backward

theorem readsApart_outputs (t : ConvolutionTransform ℝ) (hb : b < rows) :
    Interval.ReadsApart (grid3 t.output.channels t.output.height t.output.width)
      (fun out => some (b * t.output.toList.prod + t.output.position out.1 out.2.1 out.2.2))
      (rows :: t.output.toList) := by
  constructor
  · rintro ⟨o,i,j⟩ hmem ⟨o',i',j'⟩ hmem' k h h'
    obtain ⟨-,hi,hj⟩ := mem_grid3.mp hmem
    obtain ⟨-,hi',hj'⟩ := mem_grid3.mp hmem'
    have hposition := Nat.add_left_cancel (Option.some.inj (h.trans h'.symm))
    obtain ⟨rfl,rfl,rfl⟩ := (ImageShape.position_inj hi hj hi' hj').mp hposition
    rfl
  · rintro ⟨o,i,j⟩ hmem k h
    obtain ⟨ho,hi,hj⟩ := mem_grid3.mp hmem
    obtain rfl := Option.some.inj h
    exact Interval.row_position_lt hb (ImageShape.position_lt ho hi hj)

theorem backwardTerm_eq_weighted (hy : y < t.input.height) (hz : z < t.input.width) (D : Interval ℝ)
    (b : ℕ) (acc : Bound ℝ) (out : ℕ × ℕ × ℕ) : t.backwardTerm D b c y z acc out =
      acc.add ((D.at4 t.output.channels t.output.height t.output.width b out.1 out.2.1
        out.2.2).weighted (t.coefficient out.1 out.2.1 out.2.2 c y z)) := by
  obtain ⟨o,i,j⟩ := out
  rw [backwardTerm_eq,← slopeAt_eq_coefficient hy hz,slopeAt_position hy hz]
  rcases t.layer.filterChannel? o c with _ | ci
  · simp
  rcases Window.offset? t.layer.stride t.layer.padding i y t.layer.height with _ | di
  · simp
  rcases Window.offset? t.layer.stride t.layer.padding j z t.layer.width with _ | dj
  · simp
  rfl

/-- What one row of sensitivities passes back to an input cell. -/
noncomputable def returned (t : ConvolutionTransform ℝ) (d : Tensor ℝ) (b c y z : ℕ) : ℝ :=
  ∑ o ∈ Finset.range t.output.channels, ∑ i ∈ Finset.range t.output.height,
    ∑ j ∈ Finset.range t.output.width,
      d.at4 t.output.channels t.output.height t.output.width b o i j * t.coefficient o i j c y z

theorem isRange_backwardCell (hD : D.shape = rows :: t.output.toList) (hord : D.All Bound.InOrder)
    (hb : b < rows) (hy : y < t.input.height) (hz : z < t.input.width) :
    (t.backwardCell D b c y z).IsRange ((t.returned · b c y z) '' {d | D.Encloses d}) := by
  have hsum := (hD ▸ t.readsApart_outputs hb).isRange_linear hord
    fun out => t.coefficient out.1 out.2.1 out.2.2 c y z
  have hvalue : ∀ d : Tensor ℝ, t.returned d b c y z =
      ((grid3 t.output.channels t.output.height t.output.width).map fun out =>
        t.coefficient out.1 out.2.1 out.2.2 c y z *
          d.read (b * t.output.toList.prod + t.output.position out.1 out.2.1 out.2.2)).sum := by
    intro d
    rw [returned,sum_map_grid3]
    refine Finset.sum_congr rfl fun o _ => Finset.sum_congr rfl fun i _ =>
      Finset.sum_congr rfl fun j _ => ?_
    rw [Tensor.at4_eq_read,mul_comm]
  simp only [hvalue]
  rw [backwardCell,Bound.foldl_zero_eq_total fun out _ acc =>
    backwardTerm_eq_weighted hy hz D b acc out]
  simp only [Tensor.at4_eq_read]
  exact hsum

theorem isRange_backward (hD : D.shape = rows :: t.output.toList) (hord : D.All Bound.InOrder) :
    ((∃ E, t.backward D = .ok E) ↔ rows ≠ 0 ∧ Tensor.Addressable (rows :: t.input.toList)) ∧
      ∀ E, t.backward D = .ok E → E.shape = rows :: t.input.toList ∧
        ∀ b < rows, ∀ c < t.input.channels, ∀ y < t.input.height, ∀ z < t.input.width,
          (E.at4 t.input.channels t.input.height t.input.width b c y z).IsRange
            ((t.returned · b c y z) '' {d | D.Encloses d}) := by
  simp only [backward_eq_ok_iff,Interval.exists_rows_iff hD]
  refine ⟨Interval.exists_ofRows_iff,fun E hE => ?_⟩
  refine ⟨Interval.shape_of_ofRows hE,fun b hb c hc y hy z hz => ?_⟩
  rw [Interval.at4_ofRows hE hb hc hy hz]
  exact isRange_backwardCell hD hord hb hy hz

end Backward

section Pairing

variable {δ : Tensor ℝ}

theorem forward_concrete (hx : x.shape = t.input.toList) :
    t.forward (Interval.concrete x) = .ok (Interval.concrete (t.eval x)) := by
  have hshape : (Interval.concrete x).shape = t.input.toList := hx
  have hforward := forward_eq_ok_iff.mpr ⟨hshape,rfl⟩
  have hpoint := Bound.stable_isPoint.convolution_forward (Interval.all_isPoint_concrete x) hforward
  rw [hforward,(encloses_forward (Interval.encloses_concrete x) hforward).eq_concrete hpoint]

theorem backward_concrete (hδ : δ.shape = rows :: t.output.toList)
    (hE : t.backward (Interval.concrete δ) = .ok E) : ∃ ε, E = Interval.concrete ε ∧
      ∀ b < rows, ∀ c < t.input.channels, ∀ y < t.input.height, ∀ z < t.input.width,
        ε.at4 t.input.channels t.input.height t.input.width b c y z = t.returned δ b c y z := by
  have hD : (Interval.concrete δ).shape = rows :: t.output.toList := hδ
  have hpoint := Interval.all_isPoint_concrete δ
  have hE' := Bound.stable_isPoint.convolution_backward hpoint hE
  have hord : (Interval.concrete δ).All Bound.InOrder := fun k hk => (hpoint k hk).le
  obtain ⟨hshape,hrange⟩ := (isRange_backward hD hord).2 E hE
  refine ⟨E.lower,?_,fun b hb c hc y hy z hz => ?_⟩
  · refine Interval.Encloses.eq_concrete ⟨rfl,fun k hk => ?_⟩ hE'
    have hk : k < E.shape.prod := hk
    rw [Interval.lower,Tensor.read_map _ _ hk]
    exact ⟨le_rfl,(hE' k hk).le⟩
  · have hcell := (hrange b hb c hc y hy z hz).contains ⟨δ,Interval.encloses_concrete δ,rfl⟩
    have hposition : b * t.input.toList.prod + t.input.position c y z < E.shape.prod := by
      rw [hshape]
      exact Interval.row_position_lt hb (ImageShape.position_lt hc hy hz)
    rw [Tensor.at4_eq_read] at hcell ⊢
    rw [Interval.lower,Tensor.read_map _ _ hposition]
    exact ((hE' _ hposition).eq_of_contains hcell).symm

theorem sum_returned (ht : t.Resolved) (x δ : Tensor ℝ) (b : ℕ) :
    ∑ o ∈ Finset.range t.output.channels, ∑ i ∈ Finset.range t.output.height,
        ∑ j ∈ Finset.range t.output.width,
          δ.at4 t.output.channels t.output.height t.output.width b o i j *
            ((t.eval x).pixel t.output o i j -
              (t.eval (Tensor.fill t.input.toList 0)).pixel t.output o i j) =
      ∑ c ∈ Finset.range t.input.channels, ∑ y ∈ Finset.range t.input.height,
        ∑ z ∈ Finset.range t.input.width, t.returned δ b c y z * x.pixel t.input c y z := by
  have hcells : ∑ c ∈ Finset.range t.input.channels, ∑ y ∈ Finset.range t.input.height,
      ∑ z ∈ Finset.range t.input.width, t.returned δ b c y z * x.pixel t.input c y z =
        ∑ k ∈ Finset.range t.input.toList.prod, ∑ o ∈ Finset.range t.output.channels,
          ∑ i ∈ Finset.range t.output.height, ∑ j ∈ Finset.range t.output.width,
            δ.at4 t.output.channels t.output.height t.output.width b o i j *
              t.slopeAt o i j k * x.read k := by
    rw [ImageShape.sum_positions]
    refine Finset.sum_congr rfl fun c _ => Finset.sum_congr rfl fun y hy =>
      Finset.sum_congr rfl fun z hz => ?_
    rw [Finset.mem_range] at hy hz
    simp only [returned,slopeAt_eq_coefficient hy hz,Finset.sum_mul,Tensor.pixel_eq_read]
  have hchange : ∀ o < t.output.channels, ∀ i < t.output.height, ∀ j < t.output.width,
      (t.eval x).pixel t.output o i j -
          (t.eval (Tensor.fill t.input.toList 0)).pixel t.output o i j =
        ∑ k ∈ Finset.range t.input.toList.prod, t.slopeAt o i j k * x.read k := by
    intro o ho i hi j hj
    have hzero : ∑ k ∈ Finset.range t.input.toList.prod,
        t.slopeAt o i j k * (Tensor.fill t.input.toList (0 : ℝ)).read k = 0 :=
      Finset.sum_eq_zero fun k hk => by
        rw [Tensor.read_fill _ _ (Finset.mem_range.mp hk),mul_zero]
    rw [pixel_eval_slopeAt ht x ho hi hj,pixel_eval_slopeAt ht _ ho hi hj,hzero]
    ring
  rw [hcells,sum_comm_last]
  refine Finset.sum_congr rfl fun o ho => Finset.sum_congr rfl fun i hi =>
    Finset.sum_congr rfl fun j hj => ?_
  rw [Finset.mem_range] at ho hi hj
  rw [hchange o ho i hi j hj,Finset.mul_sum]
  simp only [mul_assoc]

end Pairing

/-- In both directions the bounds are the ranges of linear forms, which share one coefficient for
each pair of an output and an input cell. Single values are kept, and pair alike on both sides. -/
structure Exact (t : ConvolutionTransform ℝ) : Prop where
  linear : ∀ x, ∀ o < t.output.channels, ∀ i < t.output.height, ∀ j < t.output.width,
    (t.eval x).pixel t.output o i j = t.layer.bias.getD o 0 +
      ∑ c ∈ Finset.range t.input.channels, ∑ y ∈ Finset.range t.input.height,
        ∑ z ∈ Finset.range t.input.width, t.coefficient o i j c y z * x.pixel t.input c y z
  forward : ∀ X : Interval ℝ, X.shape = t.input.toList → X.All Bound.InOrder →
    ∃ Y, t.forward X = .ok Y ∧ Y.shape = t.output.toList ∧
      ∀ o < t.output.channels, ∀ i < t.output.height, ∀ j < t.output.width,
        (Y.at3 t.output.height t.output.width o i j).IsRange (t.outputValues X o i j)
  backward : ∀ (rows : ℕ) (D : Interval ℝ), D.shape = rows :: t.output.toList →
    D.All Bound.InOrder →
      ((∃ E, t.backward D = .ok E) ↔ rows ≠ 0 ∧ Tensor.Addressable (rows :: t.input.toList)) ∧
        ∀ E, t.backward D = .ok E → E.shape = rows :: t.input.toList ∧
          ∀ b < rows, ∀ c < t.input.channels, ∀ y < t.input.height, ∀ z < t.input.width,
            (E.at4 t.input.channels t.input.height t.input.width b c y z).IsRange
              ((t.returned · b c y z) '' {d | D.Encloses d})
  point : ∀ x, x.shape = t.input.toList →
    t.forward (Interval.concrete x) = .ok (Interval.concrete (t.eval x))
  paired : ∀ (rows : ℕ) (δ : Tensor ℝ) (E : Interval ℝ), δ.shape = rows :: t.output.toList →
    t.backward (Interval.concrete δ) = .ok E → ∃ ε, E = Interval.concrete ε ∧
      ∀ x, x.shape = t.input.toList → ∀ b < rows,
        ∑ o ∈ Finset.range t.output.channels, ∑ i ∈ Finset.range t.output.height,
            ∑ j ∈ Finset.range t.output.width,
              δ.at4 t.output.channels t.output.height t.output.width b o i j *
                ((t.eval x).pixel t.output o i j -
                  (t.eval (Tensor.fill t.input.toList 0)).pixel t.output o i j) =
          ∑ c ∈ Finset.range t.input.channels, ∑ y ∈ Finset.range t.input.height,
            ∑ z ∈ Finset.range t.input.width,
              ε.at4 t.input.channels t.input.height t.input.width b c y z * x.pixel t.input c y z

/-- Every convolution that fits its input has exact bounds. -/
theorem exact_of_build {layer : Convolution ℝ} {shape : List ℕ} (h : build layer shape = .ok t) :
    t.layer = layer ∧ t.input.toList = shape ∧ t.Exact := by
  obtain ⟨hlayer,ht,hshape⟩ := build_eq_ok h
  refine ⟨hlayer,hshape,?_⟩
  constructor
  · exact fun x o ho i hi j hj => pixel_eval ht x ho hi hj
  · exact fun X hX hord => isRange_forward ht hX hord
  · exact fun rows D hD hord => isRange_backward hD hord
  · exact fun x hx => forward_concrete hx
  · intro rows δ E hδ hE
    obtain ⟨ε,hε,hreturned⟩ := backward_concrete hδ hE
    refine ⟨ε,hε,fun x _ b hb => (sum_returned ht x δ b).trans ?_⟩
    refine Finset.sum_congr rfl fun c hc => Finset.sum_congr rfl fun y hy =>
      Finset.sum_congr rfl fun z hz => ?_
    rw [hreturned b hb c (Finset.mem_range.mp hc) y (Finset.mem_range.mp hy) z
      (Finset.mem_range.mp hz)]

/-- Two groups, padding, and a cell that two outputs read. -/
theorem exact_of_build_strided : ∃ (t : ConvolutionTransform ℝ) (Y E : Interval ℝ),
    build ⟨2,1,3,1,⟨[2,1,3,1],#[1,-2,0,3,1,-1],rfl⟩,rfl,#[1,0],2,1,2⟩ [2,3,2] = .ok t ∧
      t.output = ⟨2,2,2⟩ ∧ t.Exact ∧
      t.forward (Tensor.fill [2,3,2] ⟨-1,2⟩) = .ok Y ∧
      (Y.at3 2 2 1 1 1).IsRange (t.outputValues (Tensor.fill [2,3,2] ⟨-1,2⟩) 1 1 1) ∧
      t.backward (Tensor.fill [2,2,2,2] ⟨-1,0⟩) = .ok E ∧
      (E.at4 2 3 2 1 0 1 1).IsRange
        ((t.returned · 1 0 1 1) '' {d | Interval.Encloses (Tensor.fill [2,2,2,2] ⟨-1,0⟩) d}) := by
  obtain ⟨t,ht,hinput,houtput⟩ : ∃ t : ConvolutionTransform ℝ,
      build ⟨2,1,3,1,⟨[2,1,3,1],#[1,-2,0,3,1,-1],rfl⟩,rfl,#[1,0],2,1,2⟩ [2,3,2] = .ok t ∧
        t.input = ⟨2,3,2⟩ ∧ t.output = ⟨2,2,2⟩ := ⟨_,rfl,rfl,rfl⟩
  obtain ⟨-,-,hexact⟩ := exact_of_build ht
  have hX : Interval.All Bound.InOrder (Tensor.fill [2,3,2] (⟨-1,2⟩ : Bound ℝ)) :=
    Interval.all_fill _ (by norm_num [Bound.InOrder])
  have hD : Interval.All Bound.InOrder (Tensor.fill [2,2,2,2] (⟨-1,0⟩ : Bound ℝ)) :=
    Interval.all_fill _ (by norm_num [Bound.InOrder])
  obtain ⟨Y,hY,-,hforward⟩ := hexact.forward _ (by rw [hinput]; rfl) hX
  obtain ⟨hok,hbackward⟩ := hexact.backward 2 _ (by rw [houtput]; rfl) hD
  obtain ⟨E,hE⟩ := hok.mpr ⟨two_ne_zero,by rw [hinput]; decide⟩
  have hcells := (hbackward E hE).2
  rw [houtput] at hforward
  rw [hinput] at hcells
  exact ⟨t,Y,E,ht,houtput,hexact,hY,hforward 1 (by decide) 1 (by decide) 1 (by decide),hE,
    hcells 1 (by decide) 0 (by decide) 1 (by decide) 1 (by decide)⟩

end ConvolutionTransform
end Sensitivity
