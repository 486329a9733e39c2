import Sensitivity.Indicator
import Sensitivity.Proofs.Sound.Bound

/-! Bounds inside bounds. A rule that holds the results of all values, and whose ends are results
of values, takes bounds inside others to a result inside the other one. -/
namespace Sensitivity
namespace Bound

/-- A bound in order between the ends of another one. -/
structure Inside (a b : Bound ℝ) : Prop where
  lower : b.lower ≤ a.lower
  ordered : a.lower ≤ a.upper
  upper : a.upper ≤ b.upper

variable {a b c d : Bound ℝ} {v w : ℝ}

namespace Inside

theorem lower_mem (h : a.Inside b) : b.Contains a.lower := ⟨h.lower,h.ordered.trans h.upper⟩

theorem upper_mem (h : a.Inside b) : b.Contains a.upper := ⟨h.lower.trans h.ordered,h.upper⟩

theorem refl (h : a.lower ≤ a.upper) : a.Inside a := ⟨le_rfl,h,le_rfl⟩

theorem self (h : a.Inside b) : a.Inside a := .refl h.ordered

theorem contains (h : a.Inside b) (hv : a.Contains v) : b.Contains v :=
  ⟨h.lower.trans hv.1,hv.2.trans h.upper⟩

end Inside

theorem inside_point (v : ℝ) : (point v).Inside (point v) := .refl le_rfl

theorem inside_zero : (0 : Bound ℝ).Inside 0 := inside_point 0

theorem contains_min (hv : b.Contains v) (hw : b.Contains w) : b.Contains (min v w) :=
  ⟨le_min hv.1 hw.1,(min_le_left _ _).trans hv.2⟩

theorem contains_max (hv : b.Contains v) (hw : b.Contains w) : b.Contains (max v w) :=
  ⟨hv.1.trans (le_max_left _ _),max_le hv.2 hw.2⟩

theorem Inside.add (h : a.Inside b) (h' : c.Inside d) : (a.add c).Inside (b.add d) :=
  ⟨add_le_add h.lower h'.lower,add_le_add h.ordered h'.ordered,add_le_add h.upper h'.upper⟩

theorem Inside.scale (h : a.Inside b) (s : ℝ) : (a.scale s).Inside (b.scale s) := by
  have hlower := contains_scale h.lower_mem s
  have hupper := contains_scale h.upper_mem s
  exact ⟨(contains_min hlower hupper).1,min_le_max,(contains_max hlower hupper).2⟩

theorem Inside.mul (h : a.Inside b) (h' : c.Inside d) : (a.mul c).Inside (b.mul d) := by
  have hll := contains_mul h.lower_mem h'.lower_mem
  have hlu := contains_mul h.lower_mem h'.upper_mem
  have hul := contains_mul h.upper_mem h'.lower_mem
  have huu := contains_mul h.upper_mem h'.upper_mem
  refine ⟨(contains_min (contains_min hll hlu) (contains_min hul huu)).1,?_,
    (contains_max (contains_max hll hlu) (contains_max hul huu)).2⟩
  exact (min_le_left _ _).trans (min_le_max.trans (le_max_left _ _))

theorem Inside.weighted (h : a.Inside b) (w : ℝ) : (a.weighted w).Inside (b.weighted w) := by
  unfold Bound.weighted
  split
  next hw =>
    exact ⟨mul_le_mul_of_nonneg_left h.lower hw,mul_le_mul_of_nonneg_left h.ordered hw,
      mul_le_mul_of_nonneg_left h.upper hw⟩
  next hw =>
    have hw' : w ≤ 0 := (not_le.mp hw).le
    exact ⟨mul_le_mul_of_nonpos_left h.upper hw',mul_le_mul_of_nonpos_left h.ordered hw',
      mul_le_mul_of_nonpos_left h.lower hw'⟩

theorem Inside.square (h : a.Inside b) : a.square.Inside b.square := by
  have hlower := contains_square h.lower_mem
  have hupper := contains_square h.upper_mem
  unfold Bound.square at hlower hupper ⊢
  by_cases hzero : a.ContainsZero
  · have hzero' : b.ContainsZero := h.contains hzero
    rw [if_pos hzero'] at hlower hupper
    rw [if_pos hzero,if_pos hzero']
    exact ⟨le_rfl,(mul_self_nonneg _).trans (le_max_left _ _),(contains_max hlower hupper).2⟩
  · rw [if_neg hzero]
    exact ⟨(contains_min hlower hupper).1,min_le_max,(contains_max hlower hupper).2⟩

theorem Inside.hullWithZero (h : a.Inside b) : a.hullWithZero.Inside b.hullWithZero :=
  ⟨min_le_min_right 0 h.lower,(min_le_right _ _).trans (le_max_right _ _),max_le_max_right 0 h.upper⟩

theorem Inside.of_hull (h : a.Inside b) : a.Inside b.hullWithZero :=
  ⟨(min_le_left _ _).trans h.lower,h.ordered,h.upper.trans (le_max_left _ _)⟩

theorem zero_inside_hull (b : Bound ℝ) : Inside 0 b.hullWithZero :=
  ⟨min_le_right _ _,le_rfl,le_max_right _ _⟩

theorem Inside.swap (h : a.Inside b) : a.ordered.Inside b.ordered := by
  rw [ordered_of_contains h.self.lower_mem,ordered_of_contains h.lower_mem]
  exact h

theorem Inside.foldl {β : Type} {step step' : Bound ℝ → β → Bound ℝ} {l : List β}
    (h : ∀ e ∈ l, ∀ acc acc', acc.Inside acc' → (step acc e).Inside (step' acc' e))
    {acc acc' : Bound ℝ} (hacc : acc.Inside acc') :
    (l.foldl step acc).Inside (l.foldl step' acc') := by
  induction l generalizing acc acc' with
  | nil => exact hacc
  | cons e l ih =>
    obtain ⟨he,hl⟩ := List.forall_mem_cons.mp h
    exact ih hl (he acc acc' hacc)

theorem inside_of_push {l : List ℝ} (hv : b.Contains v) (hl : ∀ w ∈ l, b.Contains w) :
    (l.foldl push (point v)).Inside b := by
  have hfold : ∀ a : Bound ℝ, a.Inside b → (l.foldl push a).Inside b := by
    induction l with
    | nil => exact fun _ ha => ha
    | cons w l ih =>
      obtain ⟨hw,hl⟩ := List.forall_mem_cons.mp hl
      exact fun a ha => ih hl (a.push w) ⟨le_min ha.lower hw.1,
        (min_le_right _ _).trans (le_max_right _ _),max_le ha.upper hw.2⟩
  exact hfold (point v) ⟨hv.1,le_rfl,hv.2⟩

@[simp] theorem lower_zero : (0 : Bound ℝ).lower = 0 := rfl

@[simp] theorem upper_zero : (0 : Bound ℝ).upper = 0 := rfl

@[simp] protected theorem add_zero (a : Bound ℝ) : a.add 0 = a := by
  simp [add]

@[simp] protected theorem zero_weighted (w : ℝ) : (0 : Bound ℝ).weighted w = 0 := by
  have hends : (0 : Bound ℝ).weighted w = ⟨0,0⟩ := by simp [weighted]
  exact hends

@[simp] protected theorem weighted_zero (b : Bound ℝ) : b.weighted 0 = 0 := by
  have hends : b.weighted 0 = ⟨0,0⟩ := by simp [weighted]
  exact hends

@[simp] protected theorem zero_mul (b : Bound ℝ) : (0 : Bound ℝ).mul b = 0 := by
  have hends : (0 : Bound ℝ).mul b = ⟨0,0⟩ := by simp [mul,corners]
  exact hends

theorem eq_zero_of_ends (hz : b.IsZero) : b = 0 := by
  obtain ⟨⟨hl,hl'⟩,hu,hu'⟩ := hz
  exact congrArg₂ mk (le_antisymm hl hl') (le_antisymm hu hu')

theorem add_weighted_of_isZero (acc : Bound ℝ) (hz : b.IsZero) (w : ℝ) :
    acc.add (b.weighted w) = acc := by
  rw [eq_zero_of_ends hz,Bound.zero_weighted,Bound.add_zero]

theorem add_mul_of_isZero (acc : Bound ℝ) (hz : b.IsZero) (c : Bound ℝ) : acc.add (b.mul c) = acc := by
  rw [eq_zero_of_ends hz,Bound.zero_mul,Bound.add_zero]

end Bound

namespace Indicator

end Indicator
end Sensitivity
