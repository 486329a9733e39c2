import Sensitivity.Proofs.Exact.Convolution
import Sensitivity.Proofs.Shape.Indicator
import Sensitivity.Proofs.Sound.Weight

/-! Indicators as exact extrema. The contribution of a weight is bounded by the range of the weight
times its derivative over the stored bounds, so its indicator is the score of these values. -/
namespace Sensitivity

namespace Score

variable {b : Bound ℝ} {s : Set ℝ}

/-- The score of a set of values. -/
noncomputable def ofSet : Score → Set ℝ → ℝ
  | .maxAbs, s => sSup ((|·|) '' s)
  | .upper, s => sSup s
  | .width, s => sSup s - sInf s

/-- The largest score of several sets; contributions that are all negative count as zero. -/
noncomputable def ofRows (score : Score) (rows : ℕ) (values : ℕ → Set ℝ) : ℝ :=
  match score with
  | .upper => max 0 (⨆ row : Fin rows, ofSet .upper (values row))
  | score => ⨆ row : Fin rows, ofSet score (values row)

theorem apply_eq_ofSet (score : Score) (h : b.IsRange s) : score.apply b = score.ofSet s := by
  cases score with
  | maxAbs =>
    have hlower : |b.lower| ∈ (|·|) '' s := ⟨_,h.least.1,rfl⟩
    have hupper : |b.upper| ∈ (|·|) '' s := ⟨_,h.greatest.1,rfl⟩
    have hgreatest : IsGreatest ((|·|) '' s) b.maxAbs := by
      refine ⟨max_rec' (· ∈ _) hlower hupper,?_⟩
      rintro _ ⟨v,hv,rfl⟩
      exact Bound.abs_le_maxAbs (h.contains hv)
    exact hgreatest.csSup_eq.symm
  | upper => exact h.greatest.csSup_eq.symm
  | width => exact congrArg₂ (· - ·) h.greatest.csSup_eq.symm h.least.csInf_eq.symm

end Score

namespace Indicator

variable {rows : ℕ}

theorem best_eq_max_iSup (score : Bound ℝ → ℝ) (contribution : ℕ → Bound ℝ) :
    best score rows contribution = max 0 (⨆ row : Fin rows, score (contribution row)) := by
  have hbounded : BddAbove (Set.range fun row : Fin rows => score (contribution row)) :=
    (Set.finite_range _).bddAbove
  refine le_antisymm (best_le_iff.mpr ⟨le_max_left _ _,fun row hrow => ?_⟩) (max_le ?_ ?_)
  · exact (le_ciSup hbounded ⟨row,hrow⟩).trans (le_max_right _ _)
  · exact (best_le_iff.mp le_rfl).1
  · exact Real.iSup_le (fun row => le_best contribution row.isLt) (best_le_iff.mp le_rfl).1

theorem best_eq_ofRows (score : Score) {contribution : ℕ → Bound ℝ} {values : ℕ → Set ℝ}
    (h : ∀ row < rows, (contribution row).IsRange (values row)) :
    best score.apply rows contribution = score.ofRows rows values := by
  have hscore : ∀ row : Fin rows, score.apply (contribution row) = score.ofSet (values row) :=
    fun row => score.apply_eq_ofSet (h row row.isLt)
  rw [best_eq_max_iSup]
  cases score with
  | maxAbs =>
    simp only [Score.ofRows,← hscore]
    exact max_eq_right (Real.iSup_nonneg fun row => (abs_nonneg _).trans (le_max_left _ _))
  | upper => simp only [Score.ofRows,hscore]
  | width =>
    simp only [Score.ofRows,← hscore]
    exact max_eq_right (Real.iSup_nonneg fun row => sub_nonneg.mpr (h row row.isLt).inOrder)

end Indicator

variable {X D : Interval ℝ} {rows row : ℕ}

namespace DenseTransform

variable {u : DenseTransform ℝ} {i j : ℕ}

/-- A weight times an input and a sensitivity, for all of them inside two bounds. -/
def contributions (u : DenseTransform ℝ) (X D : Interval ℝ) (i j row : ℕ) : Set ℝ :=
  Set.image2 (fun x d : Tensor ℝ => u.layer.weights.read (i * u.layer.outputs + j) *
    (x.read i * d.read (row * u.layer.outputs + j))) {x | X.Encloses x} {d | D.Encloses d}

theorem isRange_denseContribution (hX : X.shape.prod = u.layer.inputs)
    (hD : D.shape = [rows,u.layer.outputs]) (hordX : X.All Bound.InOrder)
    (hordD : D.All Bound.InOrder) (hi : i < u.layer.inputs) (hj : j < u.layer.outputs)
    (hrow : row < rows) :
    (Indicator.denseContribution u X D i j row).IsRange (u.contributions X D i j row) := by
  have hposition : row * u.layer.outputs + j < D.shape.prod := by
    rw [hD]
    simpa using Interval.row_position_lt hrow hj
  have hrange := (hordX.isRange_mul_read hordD (hX ▸ hi) hposition).scale
    (u.layer.weights.read (i * u.layer.outputs + j))
  rw [Set.image_image2] at hrange
  simpa only [contributions,Indicator.denseContribution,mul_comm] using hrange

theorem indicator_eq_ofRows (score : Score) (hX : X.shape.prod = u.layer.inputs)
    (hD : D.shape = [rows,u.layer.outputs]) (hordX : X.All Bound.InOrder)
    (hordD : D.All Bound.InOrder) : ∃ v, Indicator.dense score.apply u X D = .ok v ∧
      v.shape = u.layer.weights.shape ∧ ∀ i < u.layer.inputs, ∀ j < u.layer.outputs,
        v.read (i * u.layer.outputs + j) = score.ofRows rows (u.contributions X D i j) := by
  refine ⟨_,Indicator.dense_eq_ok score.apply ((Tensor.size_eq X).trans hX) hD,rfl,
    fun i hi j hj => ?_⟩
  have hposition : i * u.layer.outputs + j < u.layer.weights.shape.prod := by
    rw [u.layer.shape_weights]
    simpa using Interval.row_position_lt hi hj
  rw [Tensor.read_ofFn _ _ hposition]
  refine Indicator.best_eq_ofRows score fun row hrow => ?_
  rw [Transform.contribution,ImageShape.mul_add_div_of_lt hj,Nat.mul_add_mod_of_lt hj]
  exact isRange_denseContribution hX hD hordX hordD hi hj hrow

end DenseTransform

namespace ConvolutionTransform

variable {t : ConvolutionTransform ℝ} {o ci di dj : ℕ}

/-- A filter weight times its derivative, the sum over all output positions of the cell that it
reads there and the sensitivity, for all inputs and sensitivities inside two bounds. -/
def contributions (t : ConvolutionTransform ℝ) (X D : Interval ℝ) (o ci di dj row : ℕ) : Set ℝ :=
  Set.image2 (fun x d : Tensor ℝ =>
    t.layer.weights.at4 t.layer.groupInputs t.layer.height t.layer.width o ci di dj *
      ∑ i ∈ Finset.range t.output.height, ∑ j ∈ Finset.range t.output.width,
        t.readAt x o i j ci di dj *
          d.at4 t.output.channels t.output.height t.output.width row o i j)
    {x | X.Encloses x} {d | D.Encloses d}

theorem readsApart_positions (ht : t.Resolved) (ho : o < t.layer.outputs)
    (hci : ci < t.layer.groupInputs) (di dj : ℕ) :
    Interval.ReadsApart (grid2 t.output.height t.output.width)
      (fun p => t.source? o p.1 p.2 ci di dj) t.input.toList := by
  constructor
  · rintro ⟨i,j⟩ - ⟨i',j'⟩ - k h h'
    obtain ⟨c,hc,y,hy,z,hz,rfl⟩ := ImageShape.exists_position (source?_lt ht ho hci h)
    obtain ⟨-,hrow,hcolumn⟩ := (source?_eq_some_position hy hz).mp h
    obtain ⟨-,hrow',hcolumn'⟩ := (source?_eq_some_position hy hz).mp h'
    have hstride := Nat.pos_of_ne_zero ht.stride_ne_zero
    have hi : i = i' := Nat.eq_of_mul_eq_mul_right hstride
      (Nat.add_right_cancel (hrow.trans hrow'.symm))
    have hj : j = j' := Nat.eq_of_mul_eq_mul_right hstride
      (Nat.add_right_cancel (hcolumn.trans hcolumn'.symm))
    rw [hi,hj]
  · exact fun p _ k h => source?_lt ht ho hci h

theorem convolutionTerm_eq (X D : Interval ℝ) (o ci di dj row : ℕ) (acc : Bound ℝ) (p : ℕ × ℕ) :
    Indicator.convolutionTerm t t.input X D o ci di dj row acc p =
      acc.add (((t.source? o p.1 p.2 ci di dj).elim 0 X.read).mul
        (D.at4 t.output.channels t.output.height t.output.width row o p.1 p.2)) := by
  obtain ⟨i,j⟩ := p
  simp only [Indicator.convolutionTerm,source?]
  rcases t.layer.source? i di t.input.height with _ | y
  · simp
  rcases t.layer.source? j dj t.input.width with _ | z
  · simp
  rfl

theorem isRange_convolutionContribution (ht : t.Resolved) (hX : X.shape = t.input.toList)
    (hD : D.shape = rows :: t.output.toList) (hordX : X.All Bound.InOrder)
    (hordD : D.All Bound.InOrder) (ho : o < t.layer.outputs) (hci : ci < t.layer.groupInputs)
    (di dj : ℕ) (hrow : row < rows) :
    (Indicator.convolutionContribution t t.input X D o ci di dj row).IsRange
      (t.contributions X D o ci di dj row) := by
  have houtputs := (t.readsApart_outputs hrow).comp (g := fun p : ℕ × ℕ => (o,p.1,p.2))
    (m := grid2 t.output.height t.output.width) (fun p p' h => (Prod.mk.inj h).2) fun p hp =>
      mem_grid3.mpr ⟨ht.output_channels ▸ ho,mem_grid2.mp hp⟩
  have hsum := ((hX ▸ readsApart_positions ht ho hci di dj).isRange_bilinear (hD ▸ houtputs)
    hordX hordD).scale (t.layer.weight o ci di dj)
  rw [Set.image_image2] at hsum
  rw [Indicator.convolutionContribution,Bound.foldl_zero_eq_total fun p _ acc =>
    convolutionTerm_eq X D o ci di dj row acc p]
  simpa only [contributions,readAt_eq,Tensor.at4_eq_read,sum_map_grid2,Function.comp_apply,
    Option.elim_some,mul_comm,Convolution.weight_eq] using hsum

theorem indicator_eq_ofRows (score : Score) (ht : t.Resolved) (hX : X.shape = t.input.toList)
    (hD : D.shape = rows :: t.output.toList) (hordX : X.All Bound.InOrder)
    (hordD : D.All Bound.InOrder) : ∃ v, Indicator.convolution score.apply t X D = .ok v ∧
      v.shape = t.layer.weights.shape ∧ ∀ o < t.layer.outputs, ∀ ci < t.layer.groupInputs,
        ∀ di < t.layer.height, ∀ dj < t.layer.width,
          v.at4 t.layer.groupInputs t.layer.height t.layer.width o ci di dj =
            score.ofRows rows (t.contributions X D o ci di dj) := by
  refine ⟨_,Indicator.convolution_eq_ok score.apply ht hX hD,rfl,
    fun o ho ci hci di hdi dj hdj => ?_⟩
  obtain ⟨houtput,hchannel,hheight,hwidth⟩ :=
    weightPosition_coordinates (t := t) (o := o) hci hdi hdj
  refine (Tensor.read_ofFn _ _ (weightPosition_lt ho hci hdi hdj)).trans ?_
  refine Indicator.best_eq_ofRows score fun row hrow => ?_
  rw [Transform.contribution,houtput,hchannel,hheight,hwidth]
  exact isRange_convolutionContribution ht hX hD hordX hordD ho hci di dj hrow

end ConvolutionTransform

namespace Indicator

/-- The indicators of a convolution and of a fully connected layer are the scores of what each
weight contributes over the stored bounds, whose extremes are taken. -/
theorem values_eq_ofRows {layer : Convolution ℝ} {shape : List ℕ} {t : ConvolutionTransform ℝ}
    (ht : ConvolutionTransform.build layer shape = .ok t) (u : DenseTransform ℝ) (score : Score) :
    (∀ (rows : ℕ) (X D : Interval ℝ), X.shape = shape → D.shape = rows :: t.output.toList →
      X.All Bound.InOrder → D.All Bound.InOrder →
        ∃ v, convolution score.apply t X D = .ok v ∧ v.shape = layer.weights.shape ∧
          ∀ o < layer.outputs, ∀ ci < layer.groupInputs, ∀ di < layer.height, ∀ dj < layer.width,
            (∀ row < rows, ∃ b : Bound ℝ, b.IsRange (t.contributions X D o ci di dj row)) ∧
              v.at4 layer.groupInputs layer.height layer.width o ci di dj =
                score.ofRows rows (t.contributions X D o ci di dj)) ∧
      ∀ (rows : ℕ) (X D : Interval ℝ), X.shape.prod = u.layer.inputs →
        D.shape = [rows,u.layer.outputs] → X.All Bound.InOrder → D.All Bound.InOrder →
          ∃ v, dense score.apply u X D = .ok v ∧ v.shape = u.layer.weights.shape ∧
            ∀ i < u.layer.inputs, ∀ j < u.layer.outputs,
              (∀ row < rows, ∃ b : Bound ℝ, b.IsRange (u.contributions X D i j row)) ∧
                v.read (i * u.layer.outputs + j) =
                  score.ofRows rows (u.contributions X D i j) := by
  obtain ⟨rfl,hresolved,rfl⟩ := ConvolutionTransform.build_eq_ok ht
  constructor
  · intro rows X D hX hD hordX hordD
    obtain ⟨v,hv,hshape,hcells⟩ := t.indicator_eq_ofRows score hresolved hX hD hordX hordD
    refine ⟨v,hv,hshape,fun o ho ci hci di hdi dj hdj =>
      ⟨fun row hrow => ?_,hcells o ho ci hci di hdi dj hdj⟩⟩
    exact ⟨_,t.isRange_convolutionContribution hresolved hX hD hordX hordD ho hci di dj hrow⟩
  · intro rows X D hX hD hordX hordD
    obtain ⟨v,hv,hshape,hcells⟩ := u.indicator_eq_ofRows score hX hD hordX hordD
    refine ⟨v,hv,hshape,fun i hi j hj => ⟨fun row hrow => ?_,hcells i hi j hj⟩⟩
    exact ⟨_,u.isRange_denseContribution hX hD hordX hordD hi hj hrow⟩

/-- A filter cell that lies on padding at some of the positions, under negative sensitivities. -/
theorem values_eq_ofRows_padded : ∃ (t : ConvolutionTransform ℝ) (u : DenseTransform ℝ)
    (v w : Tensor ℝ),
    ConvolutionTransform.build ⟨1,1,2,1,⟨[1,1,2,1],#[2,-3],rfl⟩,rfl,#[0],2,1,1⟩ [1,3,1] = .ok t ∧
      t.output = ⟨1,2,2⟩ ∧ u = ⟨⟨3,1,⟨[3,1],#[1,-2,0],rfl⟩,rfl,#[0]⟩,[3]⟩ ∧
      convolution Score.upper.apply t (Tensor.fill [1,3,1] ⟨1,2⟩) (Tensor.fill [2,1,2,2] ⟨-1,0⟩) =
        .ok v ∧
      v.at4 1 2 1 0 0 1 0 = Score.upper.ofRows 2
        (t.contributions (Tensor.fill [1,3,1] ⟨1,2⟩) (Tensor.fill [2,1,2,2] ⟨-1,0⟩) 0 0 1 0) ∧
      dense Score.upper.apply u (Tensor.fill [3] ⟨-1,2⟩) (Tensor.fill [2,1] ⟨-1,0⟩) = .ok w ∧
      w.read 1 = Score.upper.ofRows 2
        (u.contributions (Tensor.fill [3] ⟨-1,2⟩) (Tensor.fill [2,1] ⟨-1,0⟩) 1 0) := by
  obtain ⟨t,ht,houtput⟩ : ∃ t : ConvolutionTransform ℝ,
      ConvolutionTransform.build ⟨1,1,2,1,⟨[1,1,2,1],#[2,-3],rfl⟩,rfl,#[0],2,1,1⟩ [1,3,1] = .ok t ∧
        t.output = ⟨1,2,2⟩ := ⟨_,rfl,rfl⟩
  let u : DenseTransform ℝ := ⟨⟨3,1,⟨[3,1],#[1,-2,0],rfl⟩,rfl,#[0]⟩,[3]⟩
  obtain ⟨hconvolution,hdense⟩ := values_eq_ofRows ht u .upper
  have hinput : ∀ shape, Interval.All Bound.InOrder (Tensor.fill shape (⟨1,2⟩ : Bound ℝ)) :=
    fun _ => Interval.all_fill _ one_le_two
  have hstraddling : ∀ shape, Interval.All Bound.InOrder (Tensor.fill shape (⟨-1,2⟩ : Bound ℝ)) :=
    fun _ => Interval.all_fill _ (by norm_num [Bound.InOrder])
  have hnegative : ∀ shape, Interval.All Bound.InOrder (Tensor.fill shape (⟨-1,0⟩ : Bound ℝ)) :=
    fun _ => Interval.all_fill _ (by norm_num [Bound.InOrder])
  obtain ⟨v,hv,-,hcells⟩ := hconvolution 2 (Tensor.fill [1,3,1] ⟨1,2⟩)
    (Tensor.fill [2,1,2,2] ⟨-1,0⟩) rfl (by rw [houtput]; rfl) (hinput _) (hnegative _)
  obtain ⟨w,hw,-,hcells'⟩ := hdense 2 (Tensor.fill [3] ⟨-1,2⟩) (Tensor.fill [2,1] ⟨-1,0⟩) rfl rfl
    (hstraddling _) (hnegative _)
  exact ⟨t,u,v,w,ht,houtput,rfl,hv,
    (hcells 0 Nat.one_pos 0 Nat.one_pos 1 Nat.one_lt_two 0 Nat.one_pos).2,hw,
    (hcells' 1 (by decide) 0 Nat.one_pos).2⟩

end Indicator
end Sensitivity
