import Sensitivity.Proofs.Exact.Sum
import Sensitivity.Proofs.Sound.Pooling

/-! Values of pooling windows. Maxima and averages grow with every cell that they read, and what an
average passes back grows with every sensitivity. So both ends of their bounds are values, at the
two ends of the interval that they start from. -/
namespace Sensitivity

namespace Interval

variable {X : Interval ℝ}

theorem read_lower (X : Interval ℝ) (k : ℕ) : X.lower.read k = (X.read k).lower := by
  by_cases hk : k < X.shape.prod
  · exact Tensor.read_map _ _ hk
  · rw [Tensor.read_of_le X (not_lt.mp hk),Tensor.read_of_le X.lower (not_lt.mp hk)]
    rfl

theorem read_upper (X : Interval ℝ) (k : ℕ) : X.upper.read k = (X.read k).upper := by
  by_cases hk : k < X.shape.prod
  · exact Tensor.read_map _ _ hk
  · rw [Tensor.read_of_le X (not_lt.mp hk),Tensor.read_of_le X.upper (not_lt.mp hk)]
    rfl

theorem encloses_lower (hX : X.All Bound.InOrder) : X.Encloses X.lower := by
  refine ⟨rfl,fun k hk => ?_⟩
  rw [read_lower]
  exact ⟨le_rfl,hX k hk⟩

theorem encloses_upper (hX : X.All Bound.InOrder) : X.Encloses X.upper := by
  refine ⟨rfl,fun k hk => ?_⟩
  rw [read_upper]
  exact ⟨hX k hk,le_rfl⟩

theorem isRange_of_monotone {V : Tensor ℝ → ℝ → Prop} {b : Bound ℝ}
    (hV : ∀ {x y v w}, (∀ k, x.read k ≤ y.read k) → V x v → V y w → v ≤ w)
    (hX : X.All Bound.InOrder) (hlower : V X.lower b.lower) (hupper : V X.upper b.upper) :
    b.IsRange {v | ∃ x, X.Encloses x ∧ V x v} := by
  refine Bound.isRange_of_contains ⟨_,encloses_lower hX,hlower⟩ ⟨_,encloses_upper hX,hupper⟩ ?_
  rintro v ⟨x,hx,hv⟩
  have hcell := hx.contains_read
  exact ⟨hV (fun k => (X.read_lower k).trans_le (hcell k).1) hlower hv,
    hV (fun k => (hcell k).2.trans_eq (X.read_upper k).symm) hv hupper⟩

end Interval

namespace PoolingTransform

variable {t : PoolingTransform} {X Y D E : Interval ℝ} {x y d : Tensor ℝ} {c i j : ℕ} {v w : ℝ}

/-- The largest value of a channel under a window. -/
def IsMaximum (t : PoolingTransform) (c i j : ℕ) (x : Tensor ℝ) (v : ℝ) : Prop :=
  IsGreatest ((fun p : ℕ × ℕ => x.at3 t.input.height t.input.width c p.1 p.2) '' t.under i j) v

/-- The values of a channel under a window, over the area of a full window. -/
noncomputable def average (t : PoolingTransform) (c i j : ℕ) (x : Tensor ℝ) : ℝ :=
  (∑ p ∈ t.under i j, x.at3 t.input.height t.input.width c p.1 p.2) / t.area

/-- What the windows over a cell pass back to it, each of them an equal share to all its cells. -/
noncomputable def shared (t : PoolingTransform) (b c y z : ℕ) (d : Tensor ℝ) : ℝ :=
  ∑ i ∈ Finset.range t.output.height, ∑ j ∈ Finset.range t.output.width,
    if (y,z) ∈ t.under i j
      then d.at4 t.output.channels t.output.height t.output.width b c i j / t.area else 0

/-- The area of a window is its number of cells, unless that is no word. -/
theorem area_eq_sq_iff (t : PoolingTransform) :
    t.area = t.layer.size ^ 2 ↔ t.layer.size < 2 ^ (32 : ℕ) := by
  have hword : Window.wordCount = 2 ^ (32 : ℕ) * 2 ^ (32 : ℕ) := rfl
  rw [area,pow_two,Nat.mod_eq_iff_lt (by decide),hword,Nat.mul_self_lt_mul_self_iff]

example : area ⟨⟨.avg,4294967296,4294967296,2147483648⟩,⟨1,1,1⟩,⟨1,1,1⟩⟩ = 0 := rfl

section Monotone

theorem IsMaximum.le (hxy : ∀ k, x.read k ≤ y.read k) (hv : t.IsMaximum c i j x v)
    (hw : t.IsMaximum c i j y w) : v ≤ w := by
  obtain ⟨p,hp,rfl⟩ := hv.1
  exact (hxy _).trans (hw.2 ⟨p,hp,rfl⟩)

theorem average_le (hxy : ∀ k, x.read k ≤ y.read k) : t.average c i j x ≤ t.average c i j y :=
  div_le_div_of_nonneg_right (Finset.sum_le_sum fun _ _ => hxy _) (Nat.cast_nonneg _)

theorem shared_le {b z : ℕ} {d δ : Tensor ℝ} (h : ∀ k, d.read k ≤ δ.read k) :
    t.shared b c i z d ≤ t.shared b c i z δ := by
  refine Finset.sum_le_sum fun i _ => Finset.sum_le_sum fun j _ => ?_
  split
  · exact div_le_div_of_nonneg_right (h _) (Nat.cast_nonneg _)
  · exact le_rfl

end Monotone

section Forward

theorem isGreatest_greatest (ht : t.Resolved ℝ) (hne : (t.under i j).Nonempty)
    (f : Bound ℝ → ℝ) : IsGreatest
      ((fun p : ℕ × ℕ => f (X.at3 t.input.height t.input.width c p.1 p.2)) '' t.under i j)
      (Scalar.greatest ((t.windowBounds X c i j).map f)) := by
  have hends : (t.windowBounds X c i j).map f =
      (t.window i j).map fun p => f (X.at3 t.input.height t.input.width c p.1 p.2) := by
    rw [windowBounds,List.map_map]
    rfl
  obtain ⟨p,hp⟩ := hne
  obtain ⟨hmem,hmax⟩ := Scalar.greatest_spec
    (hends ▸ List.ne_nil_of_mem (List.mem_map_of_mem ((mem_window_iff ht).mpr hp)))
    fun _ _ => le_rfl
  rw [hends] at hmem hmax ⊢
  obtain ⟨q,hq,hbest⟩ := List.mem_map.mp hmem
  refine ⟨⟨q,(mem_window_iff ht).mp hq,hbest⟩,?_⟩
  rintro _ ⟨q,hq,rfl⟩
  exact hmax _ (List.mem_map_of_mem ((mem_window_iff ht).mpr hq))

theorem isRange_maximum (ht : t.Resolved ℝ) (hmode : t.layer.mode = .max)
    (hX : X.All Bound.InOrder) (hne : (t.under i j).Nonempty) :
    (t.forwardCell X c i j).IsRange {v | ∃ x, X.Encloses x ∧ t.IsMaximum c i j x v} := by
  have hlower := isGreatest_greatest (X := X) (c := c) ht hne Bound.lower
  have hupper := isGreatest_greatest (X := X) (c := c) ht hne Bound.upper
  simp only [Tensor.at3,← Interval.read_lower] at hlower
  simp only [Tensor.at3,← Interval.read_upper] at hupper
  simp only [forwardCell,hmode]
  exact Interval.isRange_of_monotone IsMaximum.le hX hlower hupper

theorem isRange_average (ht : t.Resolved ℝ) (hmode : t.layer.mode = .avg)
    (hX : X.All Bound.InOrder) :
    (t.forwardCell X c i j).IsRange {v | ∃ x, X.Encloses x ∧ t.average c i j x = v} := by
  have hsum : (t.windowBounds X c i j).foldl Bound.add 0 = Bound.total (t.window i j)
      fun p => X.at3 t.input.height t.input.width c p.1 p.2 := by
    rw [windowBounds,List.foldl_map]
    exact Bound.foldl_zero_eq_total fun _ _ _ => rfl
  simp only [forwardCell,hmode,hsum,Bound.total,sum_window ht]
  refine Interval.isRange_of_monotone (V := fun x v => t.average c i j x = v) ?_ hX ?_ ?_
  · rintro x y _ _ hxy rfl rfl
    exact average_le hxy
  · simp only [average,Tensor.at3,Interval.read_lower]
  · simp only [average,Tensor.at3,Interval.read_upper]

end Forward

section Backward

variable {rows b z : ℕ}

theorem scale_div {a : ℝ} {b : Bound ℝ} (hb : b.InOrder) (ha : 0 ≤ a) :
    b.scale (1 / a) = ⟨b.lower / a,b.upper / a⟩ := by
  have hends : b.lower / a ≤ b.upper / a := div_le_div_of_nonneg_right hb ha
  simp only [Bound.scale,mul_one_div,min_eq_left hends,max_eq_right hends]

theorem avgTerm_eq_add (ht : t.Resolved ℝ) (hD : D.All Bound.InOrder) (b c y z : ℕ)
    (acc : Bound ℝ) (out : ℕ × ℕ) : t.avgTerm D b c y z acc out =
      acc.add (if (y,z) ∈ t.under out.1 out.2 then
        ⟨(D.at4 t.output.channels t.output.height t.output.width b c out.1 out.2).lower /
          t.area,
        (D.at4 t.output.channels t.output.height t.output.width b c out.1 out.2).upper /
          t.area⟩ else 0) := by
  have hcell : (D.at4 t.output.channels t.output.height t.output.width b c out.1 out.2).InOrder :=
    hD.cell (le_refl 0) _
  simp only [avgTerm,mem_window_iff ht]
  split
  · rw [scale_div hcell (Nat.cast_nonneg _)]
  · rw [Bound.add_zero]

theorem isRange_shared (ht : t.Resolved ℝ) (hmode : t.layer.mode = .avg) (hD : D.All Bound.InOrder)
    (X : Interval ℝ) (b c y z : ℕ) :
    (t.backwardCell X D b c y z).IsRange {v | ∃ d, D.Encloses d ∧ t.shared b c y z d = v} := by
  simp only [backwardCell,hmode]
  rw [Bound.foldl_zero_eq_total fun out _ acc => avgTerm_eq_add ht hD b c y z acc out]
  simp only [Bound.total,sum_map_grid2,apply_ite Bound.lower,apply_ite Bound.upper,
    Bound.lower_zero,Bound.upper_zero]
  refine Interval.isRange_of_monotone (V := fun d v => t.shared b c y z d = v) ?_ hD ?_ ?_
  · rintro d δ _ _ h rfl rfl
    exact shared_le h
  · simp only [shared,Tensor.at4,Interval.read_lower]
  · simp only [shared,Tensor.at4,Interval.read_upper]

end Backward

/-- Over an image with rows and columns, every window gives the exact range of its largest value or
of its average, and every cell gets the exact range of what averages pass back to it. An average is
over the number of cells of a full window exactly for windows of less than `2 ^ 32` rows; for larger
ones the number is no word, and what is left of it can be zero, over which there is no average. -/
theorem windows_exact {layer : Pooling} {channels height width : ℕ}
    (h : build layer [channels,height,width] = (.ok t : Except (Error ℝ) _)) (hheight : 0 < height)
    (hwidth : 0 < width) :
    t.layer = layer ∧ t.input = ⟨channels,height,width⟩ ∧ t.output.channels = channels ∧
    (t.area = layer.size ^ 2 ↔ layer.size < 2 ^ (32 : ℕ)) ∧
    (∀ X : Interval ℝ, X.shape = [channels,height,width] → X.All Bound.InOrder →
      ∃ Y, t.forward X = .ok Y ∧ Y.shape = t.output.toList ∧ ∀ c < channels,
        ∀ i < t.output.height, ∀ j < t.output.width,
          (layer.mode = .max → (Y.at3 t.output.height t.output.width c i j).IsRange
            {v | ∃ x, X.Encloses x ∧ t.IsMaximum c i j x v}) ∧
          (layer.mode = .avg → t.area ≠ 0 → (Y.at3 t.output.height t.output.width c i j).IsRange
            {v | ∃ x, X.Encloses x ∧ t.average c i j x = v})) ∧
    (layer.mode = .avg → t.area ≠ 0 → ∀ (rows : ℕ) (X D : Interval ℝ),
      X.shape = [channels,height,width] → D.shape = rows :: t.output.toList → D.All Bound.InOrder →
        ((∃ E, t.backward X D = .ok E) ↔
          rows ≠ 0 ∧ Tensor.Addressable [rows,channels,height,width]) ∧
        ∀ E, t.backward X D = .ok E → E.shape = [rows,channels,height,width] ∧
          ∀ b < rows, ∀ c < channels, ∀ y < height, ∀ z < width,
            (E.at4 channels height width b c y z).IsRange
              {v | ∃ d, D.Encloses d ∧ t.shared b c y z d = v}) := by
  obtain ⟨rfl,ht,hshape⟩ := build_eq_ok h
  have hinput : t.input = ⟨channels,height,width⟩ := ImageShape.toList_injective hshape
  have hchannels : t.output.channels = channels := ht.output_channels.trans (by rw [hinput])
  refine ⟨rfl,hinput,hchannels,t.area_eq_sq_iff,fun X hX hord => ?_,
    fun hmode _ rows X D hX hD hord => ?_⟩
  · refine ⟨_,forward_eq_ok_iff.mpr ⟨hX.trans hshape.symm,rfl⟩,rfl,fun c hc i hi j hj => ?_⟩
    have hne := under_nonempty ht (hinput ▸ hheight) (hinput ▸ hwidth) hi hj
    rw [Interval.at3_ofImage _ (hchannels ▸ hc) hi hj]
    exact ⟨fun hmode => isRange_maximum ht hmode hord hne,
      fun hmode _ => isRange_average ht hmode hord⟩
  · simp only [backward_eq_ok_iff,hX,hshape,true_and,Interval.exists_rows_iff hD]
    rw [← hshape]
    refine ⟨Interval.exists_ofRows_iff,fun E hE => ⟨Interval.shape_of_ofRows hE,?_⟩⟩
    intro b hb c hc y hy z hz
    have hcell := Interval.at4_ofRows hE hb (c := c) (y := y) (z := z)
    rw [hinput] at hcell
    rw [hcell hc hy hz]
    exact isRange_shared ht hmode hord X b c y z

/-- Overlapping windows of an average, and the windows of a maximum that the width cuts short. -/
theorem windows_exact_overlapping : ∃ (s t : PoolingTransform) (X Y Z E : Interval ℝ),
    build ⟨.avg,2,1,1⟩ [1,2,3] = (.ok s : Except (Error ℝ) _) ∧
      build ⟨.max,3,2,2⟩ [1,2,3] = (.ok t : Except (Error ℝ) _) ∧
      s.area = 4 ∧ X.shape = [1,2,3] ∧ X.All Bound.InOrder ∧
      s.forward X = .ok Y ∧ t.forward X = .ok Z ∧
      (Y.at3 3 4 0 1 1).IsRange {v | ∃ x, X.Encloses x ∧ s.average 0 1 1 x = v} ∧
      (Z.at3 2 3 0 1 2).IsRange {v | ∃ x, X.Encloses x ∧ t.IsMaximum 0 1 2 x v} ∧
      s.backward X (Tensor.fill [2,1,3,4] ⟨-1,3⟩) = .ok E ∧
      (E.at4 1 2 3 1 0 1 2).IsRange
        {v | ∃ d, Interval.Encloses (Tensor.fill [2,1,3,4] ⟨-1,3⟩) d ∧ s.shared 1 0 1 2 d = v} := by
  obtain ⟨s,hs,hsoutput⟩ : ∃ s : PoolingTransform,
      build ⟨.avg,2,1,1⟩ [1,2,3] = (.ok s : Except (Error ℝ) _) ∧ s.output = ⟨1,3,4⟩ := ⟨_,rfl,rfl⟩
  obtain ⟨t,ht,htoutput⟩ : ∃ t : PoolingTransform,
      build ⟨.max,3,2,2⟩ [1,2,3] = (.ok t : Except (Error ℝ) _) ∧ t.output = ⟨1,2,3⟩ := ⟨_,rfl,rfl⟩
  obtain ⟨-,-,-,harea,hsforward,hsbackward⟩ := windows_exact hs (by decide) (by decide)
  obtain ⟨-,-,-,-,htforward,-⟩ := windows_exact ht (by decide) (by decide)
  have harea : s.area = 4 := harea.mpr (by decide)
  have hne : s.area ≠ 0 := by rw [harea]; decide
  rw [hsoutput] at hsforward hsbackward
  rw [htoutput] at htforward
  let X : Interval ℝ := ⟨[1,2,3],#[⟨0,1⟩,⟨-1,2⟩,⟨3,3⟩,⟨0,4⟩,⟨-2,-1⟩,⟨1,5⟩],rfl⟩
  have hX : X.All Bound.InOrder := by
    intro i hi
    have hi : i < 6 := hi
    interval_cases i <;> norm_num [X,Tensor.read,Bound.InOrder]
  have hD : Interval.All Bound.InOrder (Tensor.fill [2,1,3,4] (⟨-1,3⟩ : Bound ℝ)) :=
    Interval.all_fill _ (by norm_num [Bound.InOrder])
  obtain ⟨Y,hY,-,haverage⟩ := hsforward X rfl hX
  obtain ⟨Z,hZ,-,hmaximum⟩ := htforward X rfl hX
  obtain ⟨hok,hshared⟩ := hsbackward rfl hne 2 X _ rfl rfl hD
  obtain ⟨E,hE⟩ := hok.mpr ⟨two_ne_zero,by decide⟩
  exact ⟨s,t,X,Y,Z,E,hs,ht,harea,rfl,hX,hY,hZ,
    (haverage 0 (by decide) 1 (by decide) 1 (by decide)).2 rfl hne,
    (hmaximum 0 (by decide) 1 (by decide) 2 (by decide)).1 rfl,hE,
    (hshared E hE).2 1 (by decide) 0 (by decide) 1 (by decide) 2 (by decide)⟩

end PoolingTransform
end Sensitivity
