import Sensitivity.Layer.Convolution
import Mathlib

/-! Bounds of real numbers. Every rule of arithmetic on bounds takes bounds around values to a
bound around the result. -/
namespace Sensitivity

/-- Exact arithmetic. The extremes of no numbers are never met by windows that hold a cell. -/
noncomputable instance : Scalar ℝ where
  toZero := Real.instZero
  toOne := Real.instOne
  toAdd := Real.instAdd
  toSub := Real.instSub
  toMul := Real.instMul
  toDiv := Real.instDivInvMonoid.toDiv
  toNeg := Real.instNeg
  toNatCast := Real.instNatCast
  toIntCast := Real.instIntCast
  toLE := Real.instLE
  toLT := Real.instLT
  toMin := Real.instMin
  toMax := Real.instMax
  decidableLE _ _ := Classical.propDecidable _
  decidableLT _ _ := Classical.propDecidable _
  magnitude x := |x|
  exp := Real.exp
  sqrt := Real.sqrt
  rpow x y := x ^ y
  truncate x := if 0 ≤ x then ⌊x⌋ else ⌈x⌉
  isFinite _ := true
  bottom := 0
  top := 0

/-- The one instance that derivatives of layers refer to, in whichever module they are taken. -/
instance continuousSMul_real : ContinuousSMul ℝ ℝ := inferInstance

namespace Bound

variable {a b : Bound ℝ} {u v s : ℝ}

theorem contains_point (v : ℝ) : (point v).Contains v := ⟨le_rfl,le_rfl⟩

theorem contains_zero : (0 : Bound ℝ).Contains 0 := contains_point 0

theorem contains_add (ha : a.Contains u) (hb : b.Contains v) : (a.add b).Contains (u + v) :=
  ⟨add_le_add ha.1 hb.1,add_le_add ha.2 hb.2⟩

theorem mul_mem_ends (hb : b.Contains v) (s : ℝ) :
    min (b.lower * s) (b.upper * s) ≤ v * s ∧ v * s ≤ max (b.lower * s) (b.upper * s) := by
  rw [min_le_iff,le_max_iff]
  rcases le_total 0 s with hs | hs
  · have hl : b.lower * s ≤ v * s := mul_le_mul_of_nonneg_right hb.1 hs
    have hu : v * s ≤ b.upper * s := mul_le_mul_of_nonneg_right hb.2 hs
    exact ⟨.inl hl,.inr hu⟩
  · have hl : b.upper * s ≤ v * s := mul_le_mul_of_nonpos_right hb.2 hs
    have hu : v * s ≤ b.lower * s := mul_le_mul_of_nonpos_right hb.1 hs
    exact ⟨.inr hl,.inl hu⟩

theorem contains_scale (hb : b.Contains v) (s : ℝ) : (b.scale s).Contains (v * s) :=
  mul_mem_ends hb s

theorem contains_mul (ha : a.Contains u) (hb : b.Contains v) : (a.mul b).Contains (u * v) := by
  have hu := mul_mem_ends ha v
  have hl := mul_mem_ends hb a.lower
  have hr := mul_mem_ends hb a.upper
  rw [mul_comm v,mul_comm b.lower,mul_comm b.upper] at hl hr
  constructor
  · exact (le_min ((min_le_left _ _).trans hl.1) ((min_le_right _ _).trans hr.1)).trans hu.1
  · exact hu.2.trans (max_le (hl.2.trans (le_max_left _ _)) (hr.2.trans (le_max_right _ _)))

theorem contains_weighted (hb : b.Contains v) (w : ℝ) : (b.weighted w).Contains (w * v) := by
  unfold weighted
  split
  next hw => exact ⟨mul_le_mul_of_nonneg_left hb.1 hw,mul_le_mul_of_nonneg_left hb.2 hw⟩
  next hw =>
    have hw' : w ≤ 0 := (not_le.mp hw).le
    exact ⟨mul_le_mul_of_nonpos_left hb.2 hw',mul_le_mul_of_nonpos_left hb.1 hw'⟩

theorem contains_hullWithZero (hb : b.Contains v) (hs : 0 ≤ s) (hs' : s ≤ 1) :
    b.hullWithZero.Contains (s * v) := by
  obtain ⟨hl,hu⟩ := hb
  constructor
  · change min b.lower 0 ≤ s * v
    rcases le_total 0 v with hv | hv
    · exact (min_le_right _ _).trans (mul_nonneg hs hv)
    · exact (min_le_left _ _).trans (hl.trans (by nlinarith))
  · change s * v ≤ max b.upper 0
    rcases le_total 0 v with hv | hv
    · exact (show s * v ≤ v by nlinarith).trans (hu.trans (le_max_left _ _))
    · exact (mul_nonpos_of_nonneg_of_nonpos hs hv).trans (le_max_right _ _)

theorem ordered_of_contains (hb : b.Contains v) : b.ordered = b := by
  unfold ordered
  exact if_neg (not_lt.mpr (hb.1.trans hb.2))

theorem contains_ordered (hb : b.Contains v) : b.ordered.Contains v := by
  rw [ordered_of_contains hb]
  exact hb

theorem contains_square (hb : b.Contains v) : b.square.Contains (v * v) := by
  obtain ⟨hl,hu⟩ := hb
  have hmax : v * v ≤ max (b.lower * b.lower) (b.upper * b.upper) := by
    rcases le_total 0 v with hv | hv
    · exact (mul_self_le_mul_self hv hu).trans (le_max_right _ _)
    · exact (by nlinarith : v * v ≤ b.lower * b.lower).trans (le_max_left _ _)
  unfold square
  split
  · exact ⟨mul_self_nonneg v,hmax⟩
  next hzero =>
    refine ⟨?_,hmax⟩
    rcases le_total 0 b.lower with hlow | hlow
    · exact (min_le_left _ _).trans (mul_self_le_mul_self hlow hl)
    · have hup : b.upper < 0 := by
        by_contra h
        exact hzero ⟨hlow,not_lt.mp h⟩
      exact (min_le_right _ _).trans (by nlinarith)

theorem abs_le_maxAbs (hb : b.Contains v) : |v| ≤ b.maxAbs :=
  abs_le_max_abs_abs hb.1 hb.2

theorem eq_zero_of_isZero (hb : b.Contains v) (hz : b.IsZero) : v = 0 := by
  obtain ⟨⟨hl,hl'⟩,hu,hu'⟩ := hz
  exact le_antisymm (hb.2.trans hu) (hl'.trans hb.1)

/-- A fold whose steps each add an enclosed term encloses the sum of the terms. -/
theorem contains_foldl {β : Type} {step : Bound ℝ → β → Bound ℝ} {f : β → ℝ} {l : List β}
    (h : ∀ e ∈ l, ∀ acc u, acc.Contains u → (step acc e).Contains (u + f e)) {acc : Bound ℝ}
    (hacc : acc.Contains u) : (l.foldl step acc).Contains (u + (l.map f).sum) := by
  induction l generalizing acc u with
  | nil => simpa using hacc
  | cons e l ih =>
    obtain ⟨he,hl⟩ := List.forall_mem_cons.mp h
    have hstep := ih hl (he acc u hacc)
    rwa [add_assoc,← List.sum_cons,← List.map_cons (f := f)] at hstep

theorem contains_foldl_zero {β : Type} {step : Bound ℝ → β → Bound ℝ} {f : β → ℝ} {l : List β}
    (h : ∀ e ∈ l, ∀ acc u, acc.Contains u → (step acc e).Contains (u + f e)) :
    (l.foldl step 0).Contains (l.map f).sum := by
  have hfold := contains_foldl h contains_zero
  rwa [zero_add] at hfold

theorem contains_push {l : List ℝ} {w : ℝ} (h : v ∈ w :: l) : (l.foldl push (point w)).Contains v := by
  have hfold : ∀ (l : List ℝ) (b : Bound ℝ), (b.Contains v ∨ v ∈ l) → (l.foldl push b).Contains v := by
    intro l
    induction l with
    | nil =>
      intro b hb
      simpa using hb
    | cons e l ih =>
      intro b hb
      refine ih _ ?_
      rcases hb with hb | hb
      · exact .inl ⟨(min_le_left _ _).trans hb.1,hb.2.trans (le_max_left _ _)⟩
      · rcases List.mem_cons.mp hb with rfl | hb
        · exact .inl ⟨min_le_right _ _,le_max_right _ _⟩
        · exact .inr hb
  rcases List.mem_cons.mp h with rfl | h
  · exact hfold l _ (.inl (contains_point v))
  · exact hfold l _ (.inr h)

end Bound
end Sensitivity
