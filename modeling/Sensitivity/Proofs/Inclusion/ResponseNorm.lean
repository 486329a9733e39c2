import Sensitivity.Proofs.Exact.ResponseNorm
import Sensitivity.Proofs.Inclusion.Interval
import Sensitivity.Proofs.Sound.ResponseNorm

/-! Response norms keep intervals inside intervals. Which candidates are met changes with the box,
but each of them is a value at a point of the box. A larger box has that point too, and its own
bound holds the values at all of its points. -/
namespace Sensitivity

namespace ResponseNorm

variable {alpha beta : ℝ} {x x' xj xj' xc xc' cs cs' : Bound ℝ}

theorem inside_output (hα : 0 ≤ alpha) (hβ : 0 ≤ beta) (hcs : 0 < cs'.lower) (hx : x.Inside x')
    (hc : cs.Inside cs') : (output x cs alpha beta).Inside (output x' cs' alpha beta) := by
  refine Bound.inside_of_push (contains_output hα hβ hcs hx.lower_mem hc.lower_mem) fun w hw => ?_
  obtain ⟨v,c,hv,hv',rfl⟩ := exists_outputAt_of_mem hx.ordered hc.ordered hw
  exact contains_output hα hβ hcs (hx.contains hv) (hc.contains hv')

theorem inside_selfDerivative (hα : 0 ≤ alpha) (hβ : 0 ≤ beta) (hcs : 0 < cs'.lower)
    (hx : x.Inside x') (hc : cs.Inside cs') :
    (selfDerivative x cs alpha beta).Inside (selfDerivative x' cs' alpha beta) := by
  have hsquare := hx.square
  refine Bound.inside_of_push
    (contains_selfDerivative hα hβ hcs hsquare.lower_mem hc.lower_mem) fun w hw => ?_
  obtain ⟨u,c,hu,hv,rfl⟩ := exists_selfAt_of_mem hsquare.ordered hc.ordered hw
  exact contains_selfDerivative hα hβ hcs (hsquare.contains hu) (hc.contains hv)

theorem inside_neighborDerivative (hα : 0 ≤ alpha) (hβ : 0 ≤ beta) (hcs : 0 < cs'.lower)
    (hj : xj.Inside xj') (hc : xc.Inside xc') (hs : cs.Inside cs') :
    (neighborDerivative xj xc cs alpha beta).Inside (neighborDerivative xj' xc' cs' alpha beta) := by
  rw [neighborDerivative.eq_def xj xc]
  split
  next hsame =>
    rw [neighborDerivative,if_pos hsame]
    exact Bound.inside_zero
  next =>
    refine Bound.inside_of_push (contains_neighborDerivative hα hβ hcs hj.lower_mem hc.lower_mem
      hs.lower_mem) fun w hw => ?_
    obtain ⟨p,q,c,hp,hq,hv,rfl⟩ := exists_neighborAt_of_mem hj.ordered hc.ordered hs.ordered hw
    exact contains_neighborDerivative hα hβ hcs (hj.contains hp) (hc.contains hq) (hs.contains hv)

end ResponseNorm

namespace ResponseNormTransform

variable {t : ResponseNormTransform ℝ} {X X' Y Y' D D' E E' : Interval ℝ}
  {column column' : Array (Bound ℝ)} {c j y z : ℕ}

/-- Columns of one size, each bound of the first one inside that of the second one. -/
structure ColumnInside (column column' : Array (Bound ℝ)) : Prop where
  size : column.size = column'.size
  cells : ∀ c, (column.getD c 0).Inside (column'.getD c 0)

theorem columnInside_column (t : ResponseNormTransform ℝ) (h : X.Inside X') (p : ℕ) :
    ColumnInside (t.column X p) (t.column X' p) := by
  refine ⟨by simp only [column,Array.size_ofFn],fun c => ?_⟩
  by_cases hc : c < t.image.channels
  · simp only [column,Array.getD_eq_getD_getElem?,Array.getElem?_ofFn,hc,dif_pos,Option.getD_some]
    exact h.cell _
  · simp only [column,Array.getD_eq_getD_getElem?,Array.getElem?_ofFn,hc,dif_neg,Option.getD_none,
      not_false_eq_true]
    exact Bound.inside_zero

namespace ColumnInside

theorem squares (h : ColumnInside column column') (j : ℕ) :
    ((column.map Bound.square).getD j 0).Inside ((column'.map Bound.square).getD j 0) := by
  by_cases hj : j < column.size
  · have hj' : j < column'.size := h.size ▸ hj
    have hcell := (h.cells j).square
    simpa [Array.getD_eq_getD_getElem?,hj,hj'] using hcell
  · have hj' : ¬ j < column'.size := h.size ▸ hj
    simpa [Array.getD_eq_getD_getElem?,hj,hj'] using Bound.inside_zero

theorem denominator (ht : t.layer.Defined) (h : ColumnInside column column') (c : ℕ)
    (skipped : List ℕ) : (t.layer.denominator (column.map Bound.square) c skipped).Inside
      (t.layer.denominator (column'.map Bound.square) c skipped) := by
  have hsum : ((span (t.layer.window c column.size)).foldl (fun (s : Bound ℝ) j =>
      if j ∈ skipped then s else s.add ((column.map Bound.square).getD j 0)) 0).Inside
        ((span (t.layer.window c column.size)).foldl (fun (s : Bound ℝ) j =>
          if j ∈ skipped then s else s.add ((column'.map Bound.square).getD j 0)) 0) := by
    refine Bound.inside_zero.foldl fun j _ acc acc' hacc => ?_
    split
    · exact hacc
    · exact hacc.add (h.squares j)
  have hα := ht.alpha_nonneg
  simp only [ResponseNorm.denominator,Array.size_map,← h.size]
  exact ⟨add_le_add_right (mul_le_mul_of_nonneg_left hsum.lower hα) _,
    add_le_add_right (mul_le_mul_of_nonneg_left hsum.ordered hα) _,
    add_le_add_right (mul_le_mul_of_nonneg_left hsum.upper hα) _⟩

theorem output (ht : t.layer.Defined) (h : ColumnInside column column') (hc : c < column.size) :
    ((t.layer.outputs column).getD c 0).Inside ((t.layer.outputs column').getD c 0) := by
  rw [getD_outputs t.layer hc,getD_outputs t.layer (h.size ▸ hc)]
  exact ResponseNorm.inside_output ht.alpha_nonneg ht.beta_nonneg
    (denominator_squares_pos ht column' c [c]) (h.cells c) (h.denominator ht c [c])

theorem derivative (ht : t.layer.Defined) (h : ColumnInside column column') (c j : ℕ) :
    (t.layer.derivative column (column.map Bound.square) c j).Inside
      (t.layer.derivative column' (column'.map Bound.square) c j) := by
  unfold ResponseNorm.derivative
  split
  · exact ResponseNorm.inside_selfDerivative ht.alpha_nonneg ht.beta_nonneg
      (denominator_squares_pos ht column' c [c]) (h.cells c) (h.denominator ht c [c])
  · exact ResponseNorm.inside_neighborDerivative ht.alpha_nonneg ht.beta_nonneg
      (denominator_squares_pos ht column' c [c,j]) (h.cells j) (h.cells c)
      (h.denominator ht c [c,j])

end ColumnInside

theorem inside_forward (ht : t.layer.Defined) (hx : X.Inside X') (hy : t.forward X = .ok Y)
    (hy' : t.forward X' = .ok Y') : Y.Inside Y' := by
  obtain ⟨-,rfl⟩ := forward_eq_ok_iff.mp hy
  obtain ⟨-,rfl⟩ := forward_eq_ok_iff.mp hy'
  refine Interval.rel_ofImage fun c hc y hy z hz => ?_
  have harea := ImageShape.row_lt_area hy hz
  rw [getD_outputTable X harea,getD_outputTable X' harea]
  exact (columnInside_column t hx _).output ht (by simpa [column] using hc)

theorem backwardTerm_eq (D : Interval ℝ) (table : Array (Array (Array (Bound ℝ)))) (row : ℕ)
    (acc : Bound ℝ) (c : ℕ) : t.backwardTerm table D row j y z acc c =
      if (t.layer.window c t.image.channels).1 ≤ j ∧ j < (t.layer.window c t.image.channels).2 then
        acc.add ((D.at4 t.image.channels t.image.height t.image.width row c y z).mul
          (((table.getD (y * t.image.width + z) #[]).getD c #[]).getD
            (j - (t.layer.window c t.image.channels).1) 0))
      else acc := by
  simp only [backwardTerm]
  split
  next hzero => rw [Bound.add_mul_of_isZero acc hzero,ite_self]
  next => rfl

theorem inside_backwardTerm (ht : t.layer.Defined) (hx : X.Inside X') (hd : D.Inside D')
    (hc : c < t.image.channels) (hy : y < t.image.height) (hz : z < t.image.width) {row : ℕ}
    {acc acc' : Bound ℝ} (hacc : acc.Inside acc') :
    (t.backwardTerm (t.jacobianTable X) D row j y z acc c).Inside
      (t.backwardTerm (t.jacobianTable X') D' row j y z acc' c) := by
  have harea := ImageShape.row_lt_area hy hz
  have hsize : ∀ X p, (t.column X p).size = t.image.channels := fun _ _ => Array.size_ofFn
  rw [backwardTerm_eq,backwardTerm_eq]
  split
  next hj =>
    rw [getD_jacobianTable X harea,getD_jacobianTable X' harea,
      getD_jacobian t.layer (hsize X _) hc hj,getD_jacobian t.layer (hsize X' _) hc hj]
    exact hacc.add ((hd.cell _).mul ((columnInside_column t hx _).derivative ht c j))
  next => exact hacc

theorem inside_backward (ht : t.layer.Defined) (hx : X.Inside X') (hd : D.Inside D')
    (he : t.backward X D = .ok E) (he' : t.backward X' D' = .ok E') : E.Inside E' := by
  obtain ⟨-,rows,hrows,he⟩ := backward_eq_ok_iff.mp he
  obtain ⟨-,rows',hrows',he'⟩ := backward_eq_ok_iff.mp he'
  obtain rfl := List.head_eq_of_cons_eq (hrows.symm.trans (hd.shape.trans hrows'))
  refine Interval.rel_ofRows he he' fun row _ j _ y hy z hz => ?_
  exact Bound.inside_zero.foldl fun c hc _ _ hacc =>
    inside_backwardTerm ht hx hd (List.mem_range.mp hc) hy hz hacc

end ResponseNormTransform
end Sensitivity
