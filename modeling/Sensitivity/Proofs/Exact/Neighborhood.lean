import Sensitivity.Proofs.Exact.Sum
import Sensitivity.Proofs.Inclusion.ResponseNorm

/-! Neighborhoods of channels. In both directions a response norm combines the channels nearby, no
others and none of them twice: the bounds on its outputs and derivatives are those of one channel
with the squares around it, and what comes back to a channel is the sum over its neighbors. -/
namespace Sensitivity
namespace ResponseNormTransform

variable {t : ResponseNormTransform ℝ} {X D : Interval ℝ} {rows b c j y z : ℕ}

/-- The offset and `α` times the squares of the channels nearby, some of them left out. -/
noncomputable def offsetBound (t : ResponseNormTransform ℝ) (X : Interval ℝ) (c y z : ℕ)
    (skipped : Finset ℕ) : Bound ℝ :=
  let square (j : ℕ) : Bound ℝ := (X.at3 t.image.height t.image.width j y z).square
  ⟨t.layer.offset + t.layer.alpha * ∑ j ∈ t.nearby c \ skipped, (square j).lower,
    t.layer.offset + t.layer.alpha * ∑ j ∈ t.nearby c \ skipped, (square j).upper⟩

/-- The bound on an output channel, whose own square is not part of the offset. -/
noncomputable def outputBound (t : ResponseNormTransform ℝ) (X : Interval ℝ) (c y z : ℕ) : Bound ℝ :=
  ResponseNorm.output (X.at3 t.image.height t.image.width c y z) (t.offsetBound X c y z {c})
    t.layer.alpha t.layer.beta

/-- The bound on the derivative of output channel `c` by input channel `j`; the squares of both are
not part of the offset. -/
noncomputable def slopeBound (t : ResponseNormTransform ℝ) (X : Interval ℝ) (c j y z : ℕ) :
    Bound ℝ :=
  if j = c then
    ResponseNorm.selfDerivative (X.at3 t.image.height t.image.width c y z)
      (t.offsetBound X c y z {c}) t.layer.alpha t.layer.beta
  else
    ResponseNorm.neighborDerivative (X.at3 t.image.height t.image.width j y z)
      (X.at3 t.image.height t.image.width c y z) (t.offsetBound X c y z {c,j}) t.layer.alpha
      t.layer.beta

theorem mem_nearby_comm (hc : c < t.image.channels) (hj : j < t.image.channels) :
    j ∈ t.nearby c ↔ c ∈ t.nearby j := by
  rw [mem_nearby,mem_nearby]
  tauto

theorem sum_window_skipped (f : ℕ → ℝ) (skipped : List ℕ) :
    ((span (t.layer.window c t.image.channels)).map fun j => if j ∈ skipped then 0 else f j).sum =
      ∑ j ∈ t.nearby c \ skipped.toFinset, f j := by
  rw [sum_window,Finset.sdiff_eq_filter,Finset.sum_filter]
  refine Finset.sum_congr rfl fun j _ => ?_
  by_cases hj : j ∈ skipped
  · simp [hj]
  · simp [hj]

theorem denominator_eq {squares : Array (Bound ℝ)} (hsize : squares.size = t.image.channels) (c : ℕ)
    (skipped : List ℕ) : t.layer.denominator squares c skipped =
      ⟨t.layer.offset + t.layer.alpha *
          ∑ j ∈ t.nearby c \ skipped.toFinset, (squares.getD j 0).lower,
        t.layer.offset + t.layer.alpha *
          ∑ j ∈ t.nearby c \ skipped.toFinset, (squares.getD j 0).upper⟩ := by
  have hstep : ∀ j ∈ span (t.layer.window c t.image.channels), ∀ acc : Bound ℝ,
      (if j ∈ skipped then acc else acc.add (squares.getD j 0)) =
        acc.add (if j ∈ skipped then 0 else squares.getD j 0) := by
    intro j _ acc
    by_cases hj : j ∈ skipped
    · rw [if_pos hj,if_pos hj,Bound.add_zero]
    · rw [if_neg hj,if_neg hj]
  rw [ResponseNorm.denominator,hsize,Bound.foldl_zero_eq_total hstep]
  simp only [Bound.total,apply_ite Bound.lower,apply_ite Bound.upper,Bound.lower_zero,
    Bound.upper_zero,sum_window_skipped]

theorem denominator_column (X : Interval ℝ) (c y z : ℕ) (skipped : List ℕ) :
    t.layer.denominator ((t.column X (y * t.image.width + z)).map Bound.square) c skipped =
      t.offsetBound X c y z skipped.toFinset := by
  have hsize : (t.column X (y * t.image.width + z)).size = t.image.channels := Array.size_ofFn
  have hsquare : ∀ j ∈ t.nearby c \ skipped.toFinset,
      ((t.column X (y * t.image.width + z)).map Bound.square).getD j 0 =
        (X.at3 t.image.height t.image.width j y z).square := by
    intro j hj
    have hj := (mem_nearby.mp (Finset.mem_sdiff.mp hj).1).1
    rw [← getD_column X hj]
    simp [Array.getD_eq_getD_getElem?,hsize,hj]
  rw [denominator_eq (by rw [Array.size_map,hsize]),offsetBound,
    Finset.sum_congr rfl fun j hj => congrArg Bound.lower (hsquare j hj),
    Finset.sum_congr rfl fun j hj => congrArg Bound.upper (hsquare j hj)]

theorem getD_outputs_column (X : Interval ℝ) (hc : c < t.image.channels) (y z : ℕ) :
    (t.layer.outputs (t.column X (y * t.image.width + z))).getD c 0 = t.outputBound X c y z := by
  have hsize : c < (t.column X (y * t.image.width + z)).size := by
    rwa [column,Array.size_ofFn]
  rw [getD_outputs t.layer hsize,getD_column X hc,denominator_column]
  rfl

theorem derivative_column (X : Interval ℝ) (hc : c < t.image.channels) (hj : j < t.image.channels)
    (y z : ℕ) : t.layer.derivative (t.column X (y * t.image.width + z))
      ((t.column X (y * t.image.width + z)).map Bound.square) c j = t.slopeBound X c j y z := by
  rw [ResponseNorm.derivative,slopeBound,denominator_column,denominator_column,getD_column X hc,
    getD_column X hj]
  simp only [List.toFinset_cons,List.toFinset_nil,insert_empty_eq]

theorem backwardTerm_eq_mul (D : Interval ℝ) (hc : c < t.image.channels) (hj : j < t.image.channels)
    (hy : y < t.image.height) (hz : z < t.image.width) (acc : Bound ℝ) :
    t.backwardTerm (t.jacobianTable X) D b j y z acc c = acc.add (if c ∈ t.nearby j then
      (D.at4 t.image.channels t.image.height t.image.width b c y z).mul (t.slopeBound X c j y z)
        else 0) := by
  rw [backwardTerm_eq]
  simp only [mem_window_iff,mem_nearby_comm hc hj]
  by_cases h : c ∈ t.nearby j
  · have hsize : (t.column X (y * t.image.width + z)).size = t.image.channels := Array.size_ofFn
    rw [if_pos h,if_pos h,getD_jacobianTable X (ImageShape.row_lt_area hy hz),
      getD_jacobian t.layer hsize hc (mem_window_iff.mpr ((mem_nearby_comm hc hj).mpr h)),
      derivative_column X hc hj]
  · rw [if_neg h,if_neg h,Bound.add_zero]

/-- What the channels nearby pass back to a channel. -/
noncomputable def returnedBound (t : ResponseNormTransform ℝ) (X D : Interval ℝ) (b j y z : ℕ) :
    Bound ℝ :=
  let term (c : ℕ) : Bound ℝ :=
    (D.at4 t.image.channels t.image.height t.image.width b c y z).mul (t.slopeBound X c j y z)
  ⟨∑ c ∈ t.nearby j, (term c).lower,∑ c ∈ t.nearby j, (term c).upper⟩

theorem backwardCell_eq (X D : Interval ℝ) (b : ℕ) (hj : j < t.image.channels)
    (hy : y < t.image.height) (hz : z < t.image.width) :
    (List.range t.image.channels).foldl (t.backwardTerm (t.jacobianTable X) D b j y z) 0 =
      t.returnedBound X D b j y z := by
  have hsum : ∀ f : ℕ → ℝ, ((List.range t.image.channels).map fun c =>
      if c ∈ t.nearby j then f c else 0).sum = ∑ c ∈ t.nearby j, f c := by
    intro f
    have hsub : t.nearby j ⊆ Finset.range t.image.channels := Finset.filter_subset _ _
    rw [sum_map_range,Finset.sum_ite_mem,Finset.inter_eq_right.mpr hsub]
  rw [Bound.foldl_zero_eq_total fun c hc acc =>
    backwardTerm_eq_mul D (List.mem_range.mp hc) hj hy hz acc]
  simp only [Bound.total,apply_ite Bound.lower,apply_ite Bound.upper,Bound.lower_zero,
    Bound.upper_zero,hsum,returnedBound]

/-- A response norm bounds each output with the squares of its neighborhood, and passes back to each
channel what the channels in its neighborhood return. -/
theorem combines_nearby (t : ResponseNormTransform ℝ) (hX : X.shape = t.image.toList)
    (hD : D.shape = rows :: t.image.toList) :
    (∃ Y, t.forward X = .ok Y ∧ Y.shape = t.image.toList ∧ ∀ c < t.image.channels,
      ∀ y < t.image.height, ∀ z < t.image.width,
        Y.at3 t.image.height t.image.width c y z = t.outputBound X c y z) ∧
      ((∃ E, t.backward X D = .ok E) ↔ rows ≠ 0 ∧ Tensor.Addressable (rows :: t.image.toList)) ∧
        ∀ E, t.backward X D = .ok E → E.shape = rows :: t.image.toList ∧ ∀ b < rows,
          ∀ j < t.image.channels, ∀ y < t.image.height, ∀ z < t.image.width,
            E.at4 t.image.channels t.image.height t.image.width b j y z =
              t.returnedBound X D b j y z := by
  constructor
  · refine ⟨_,forward_eq_ok_iff.mpr ⟨hX,rfl⟩,rfl,fun c hc y hy z hz => ?_⟩
    rw [Interval.at3_ofImage _ hc hy hz,getD_outputTable X (ImageShape.row_lt_area hy hz)]
    exact getD_outputs_column X hc y z
  · simp only [backward_eq_ok_iff,hX,true_and,Interval.exists_rows_iff hD]
    refine ⟨Interval.exists_ofRows_iff,fun E hE => ⟨Interval.shape_of_ofRows hE,?_⟩⟩
    intro b hb j hj y hy z hz
    rw [Interval.at4_ofRows hE hb hj hy hz]
    exact backwardCell_eq X D b hj hy hz

/-- The last of three channels, which has one neighbor. -/
theorem combines_nearby_last : ∃ (t : ResponseNormTransform ℝ) (Y E : Interval ℝ),
    build ⟨2,1,1,2⟩ [3,1,2] = .ok t ∧ t.nearby 2 = {1,2} ∧
      t.forward (Tensor.fill [3,1,2] ⟨-1,2⟩) = .ok Y ∧
      Y.at3 1 2 2 0 1 = t.outputBound (Tensor.fill [3,1,2] ⟨-1,2⟩) 2 0 1 ∧
      t.backward (Tensor.fill [3,1,2] ⟨-1,2⟩) (Tensor.fill [2,3,1,2] ⟨0,1⟩) = .ok E ∧
      E.at4 3 1 2 1 2 0 1 =
        t.returnedBound (Tensor.fill [3,1,2] ⟨-1,2⟩) (Tensor.fill [2,3,1,2] ⟨0,1⟩) 1 2 0 1 := by
  let t : ResponseNormTransform ℝ := ⟨⟨2,1,1,2⟩,⟨3,1,2⟩⟩
  have hcheck : ResponseNorm.check (⟨2,1,1,2⟩ : ResponseNorm ℝ) = .ok ⟨2,1,1,2⟩ := by
    simp [ResponseNorm.check]
  have ht : build ⟨2,1,1,2⟩ [3,1,2] = .ok t := by
    rw [build,hcheck]
    rfl
  have hnearby : t.nearby 2 = {1,2} := by decide
  obtain ⟨⟨Y,hY,-,hforward⟩,hok,hbackward⟩ := t.combines_nearby (X := Tensor.fill [3,1,2] ⟨-1,2⟩)
    (D := Tensor.fill [2,3,1,2] ⟨0,1⟩) rfl rfl
  obtain ⟨E,hE⟩ := hok.mpr ⟨two_ne_zero,by decide⟩
  exact ⟨t,Y,E,ht,hnearby,hY,hforward 2 (by decide) 0 (by decide) 1 (by decide),hE,
    (hbackward E hE).2 1 (by decide) 2 (by decide) 0 (by decide) 1 (by decide)⟩

end ResponseNormTransform
end Sensitivity
