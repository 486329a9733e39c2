import Sensitivity.Layer.ResponseNorm
import Sensitivity.Proofs.Sound.Extremum

/-! Values and derivatives of the response norm at a point lie in the bounds that are built from
candidates: outside the corners of a box they are extreme only where they are stationary. -/
namespace Sensitivity
namespace ResponseNorm

variable {alpha beta c u v p q : ℝ}

theorem two_eq : (two : ℝ) = 2 := by
  simp [two]

theorem selfAt_eq :
    selfAt alpha beta u c = (c + alpha * (1 - 2 * beta) * u) / (c + alpha * u) ^ (beta + 1) := by
  rw [← two_eq]
  rfl

theorem neighborAt_eq : neighborAt alpha beta p q c =
    -2 * alpha * beta * p * q / (c + alpha * p * p + alpha * q * q) ^ (beta + 1) := by
  rw [← two_eq]
  rfl

theorem hasDerivAt_div_rpow {f g : ℝ → ℝ} {f' g' x : ℝ} (hf : HasDerivAt f f' x)
    (hg : HasDerivAt g g' x) (hpos : 0 < g x) (e : ℝ) :
    HasDerivAt (fun y => f y / g y ^ e) ((f' * g x - e * f x * g') / g x ^ (e + 1)) x := by
  have hpow := hg.rpow_const (p := e) (.inl hpos.ne')
  have hquot := hf.div hpow (Real.rpow_pos_of_pos hpos e).ne'
  refine hquot.congr_deriv ?_
  have hP : (g x ^ e) ≠ 0 := (Real.rpow_pos_of_pos hpos e).ne'
  rw [Real.rpow_sub_one hpos.ne',Real.rpow_add_one hpos.ne']
  field_simp

theorem hasDerivAt_square (alpha c v : ℝ) :
    HasDerivAt (fun v => c + alpha * v * v) (2 * alpha * v) v := by
  have h := (((hasDerivAt_id' v).const_mul alpha).mul (hasDerivAt_id' v)).const_add c
  exact h.congr_deriv (by ring)

theorem hasDerivAt_outputAt (hpos : 0 < c + alpha * v * v) :
    HasDerivAt (fun v => outputAt alpha beta v c) (selfAt alpha beta (v * v) c) v := by
  have h := hasDerivAt_div_rpow (hasDerivAt_id' v) (hasDerivAt_square alpha c v) hpos beta
  refine h.congr_deriv ?_
  rw [selfAt_eq,mul_assoc alpha v v]
  congr 1
  ring

theorem denominator_pos (hα : 0 ≤ alpha) (hc : 0 < c) (hu : 0 ≤ u) : 0 < c + alpha * u :=
  add_pos_of_pos_of_nonneg hc (mul_nonneg hα hu)

theorem denominator_pos' (hα : 0 ≤ alpha) (hc : 0 < c) (v : ℝ) : 0 < c + alpha * v * v := by
  rw [mul_assoc]
  exact denominator_pos hα hc (mul_self_nonneg v)

/-- Values on the two edges of `c` enclose the values between them. -/
theorem contains_between {b : Bound ℝ} {lower upper : ℝ} {f : ℝ → ℝ}
    (hf : MonotoneOn f (Set.Icc lower upper) ∨ AntitoneOn f (Set.Icc lower upper))
    (hlower : b.Contains (f lower)) (hupper : b.Contains (f upper)) {w : ℝ} (hl : lower ≤ w)
    (hu : w ≤ upper) : b.Contains (f w) := by
  have hlower' : lower ∈ Set.Icc lower upper := ⟨le_rfl,hl.trans hu⟩
  have hupper' : upper ∈ Set.Icc lower upper := ⟨hl.trans hu,le_rfl⟩
  rcases hf with hf | hf
  · exact ⟨hlower.1.trans (hf hlower' ⟨hl,hu⟩ hl),(hf ⟨hl,hu⟩ hupper' hu).trans hupper.2⟩
  · exact ⟨hupper.1.trans (hf ⟨hl,hu⟩ hupper' hu),(hf hlower' ⟨hl,hu⟩ hl).trans hlower.2⟩

theorem monotone_div_rpow {g : ℝ → ℝ} {s : Set ℝ} (hg : MonotoneOn g s) (hpos : ∀ w ∈ s, 0 < g w)
    {e : ℝ} (he : 0 ≤ e) (v : ℝ) :
    MonotoneOn (fun w => v / g w ^ e) s ∨ AntitoneOn (fun w => v / g w ^ e) s := by
  have hpow : ∀ w ∈ s, ∀ w' ∈ s, w ≤ w' → g w ^ e ≤ g w' ^ e := by
    intro w hw w' hw' hle
    exact Real.rpow_le_rpow (hpos w hw).le (hg hw hw' hle) he
  rcases le_total 0 v with hv | hv
  · right
    intro w hw w' hw' hle
    exact div_le_div_of_nonneg_left hv (Real.rpow_pos_of_pos (hpos w hw) e) (hpow w hw w' hw' hle)
  · left
    intro w hw w' hw' hle
    have hneg := div_le_div_of_nonneg_left (neg_nonneg.mpr hv)
      (Real.rpow_pos_of_pos (hpos w hw) e) (hpow w hw w' hw' hle)
    rwa [neg_div,neg_div,neg_le_neg_iff] at hneg

theorem eq_sqrt_or_neg {v r : ℝ} (h : v * v = r) : v = Real.sqrt r ∨ v = -Real.sqrt r := by
  rw [← h,Real.sqrt_mul_self_eq_abs]
  rcases abs_choice v with hv | hv <;> rw [hv] <;> simp

section Output

variable {x : Bound ℝ}

theorem mem_outputCandidates_end (hv : v = x.lower ∨ v = x.upper) :
    outputAt alpha beta v c ∈ outputCandidates x alpha beta c := by
  unfold outputCandidates
  rcases hv with rfl | rfl <;> split <;> simp

/-- The output can only be stationary under a power above one half, which fixes the square of the
point. -/
theorem mem_outputCandidates_stationary (hα : 0 ≤ alpha) (hc : 0 < c) (hv : x.Contains v)
    (h : c + alpha * (1 - 2 * beta) * (v * v) = 0) :
    outputAt alpha beta v c ∈ outputCandidates x alpha beta c := by
  have hk : 0 < alpha * (2 * beta - 1) := by
    by_contra hk
    nlinarith [mul_self_nonneg v]
  have hα' : 0 < alpha := lt_of_le_of_ne hα (by rintro rfl; simp at hk)
  have hβ : 1 < two * beta := by
    rw [two_eq]
    nlinarith
  have hsquare : v * v = c / (alpha * (two * beta - 1)) := by
    rw [two_eq,eq_div_iff hk.ne']
    linarith
  unfold outputCandidates
  rw [if_pos ⟨hα',hβ⟩]
  have hmem : v ∈ [Scalar.sqrt (c / (alpha * (two * beta - 1))),
      -Scalar.sqrt (c / (alpha * (two * beta - 1)))].filter fun v => x.Contains v := by
    rw [List.mem_filter]
    refine ⟨?_,by simpa using hv⟩
    rcases eq_sqrt_or_neg hsquare with hr | hr <;> rw [hr] <;> simp [Scalar.sqrt]
  exact List.mem_append_right _ (List.mem_map_of_mem (f := (outputAt alpha beta · c)) hmem)

theorem contains_outputAt_edge {b : Bound ℝ} (hα : 0 ≤ alpha) (hc : 0 < c)
    (h : ∀ w ∈ outputCandidates x alpha beta c, b.Contains w) (hv : x.Contains v) :
    b.Contains (outputAt alpha beta v c) := by
  have hderiv : ∀ v, HasDerivAt (fun v => outputAt alpha beta v c) (selfAt alpha beta (v * v) c) v :=
    fun v => hasDerivAt_outputAt (denominator_pos' hα hc v)
  refine Bound.contains_of_extremal (f := fun v => outputAt alpha beta v c) ?_ ?_ hv
  · exact fun v _ => (hderiv v).continuousAt.continuousWithinAt
  intro v hv
  rcases hv.end_or_slope_eq_zero (hderiv v) with hend | hzero
  · exact h _ (mem_outputCandidates_end hend)
  · have hpow := Real.rpow_pos_of_pos (denominator_pos hα hc (mul_self_nonneg v)) (beta + 1)
    rw [selfAt_eq,div_eq_zero_iff,or_iff_left hpow.ne'] at hzero
    exact h _ (mem_outputCandidates_stationary hα hc hv.1 hzero)

/-- The bound on the output holds the outputs of all values of the two bounds. -/
theorem contains_output {cs : Bound ℝ} (hα : 0 ≤ alpha) (hβ : 0 ≤ beta) (hc : 0 < cs.lower)
    (hv : x.Contains v) (hw : cs.Contains c) :
    (output x cs alpha beta).Contains (outputAt alpha beta v c) := by
  have hcs : cs.lower ≤ cs.upper := hw.1.trans hw.2
  have hmem : ∀ w ∈ outputCandidates x alpha beta cs.lower ++ outputCandidates x alpha beta cs.upper,
      (output x cs alpha beta).Contains w := by
    intro w hw
    exact Bound.contains_push (List.mem_cons_of_mem _ hw)
  have hlower := contains_outputAt_edge hα hc (fun w hw => hmem w (List.mem_append_left _ hw)) hv
  have hupper := contains_outputAt_edge hα (hc.trans_le hcs)
    (fun w hw => hmem w (List.mem_append_right _ hw)) hv
  refine contains_between (f := fun c => outputAt alpha beta v c) ?_ hlower hupper hw.1 hw.2
  refine monotone_div_rpow (g := fun c => c + alpha * v * v) ?_ ?_ hβ v
  · exact fun w _ w' _ h => add_le_add_left h _
  · exact fun w hw => denominator_pos' hα (hc.trans_le hw.1) v

end Output

section SelfDerivative

theorem hasDerivAt_selfAt_square (hpos : 0 < c + alpha * u) :
    HasDerivAt (fun u => selfAt alpha beta u c)
      (-(alpha * beta) * (3 * c + alpha * (1 - 2 * beta) * u) / (c + alpha * u) ^ (beta + 1 + 1))
      u := by
  have hf := ((hasDerivAt_id' u).const_mul (alpha * (1 - 2 * beta))).const_add c
  have hg := ((hasDerivAt_id' u).const_mul alpha).const_add c
  have h := hasDerivAt_div_rpow hf hg hpos (beta + 1)
  simp only [selfAt_eq]
  refine h.congr_deriv ?_
  congr 1
  ring

theorem hasDerivAt_selfAt (hpos : 0 < c + alpha * u) :
    HasDerivAt (fun c => selfAt alpha beta u c)
      (beta * (alpha * (2 * beta + 1) * u - c) / (c + alpha * u) ^ (beta + 1 + 1)) c := by
  have hf := (hasDerivAt_id' c).add_const (alpha * (1 - 2 * beta) * u)
  have hg := (hasDerivAt_id' c).add_const (alpha * u)
  have h := hasDerivAt_div_rpow hf hg hpos (beta + 1)
  simp only [selfAt_eq]
  refine h.congr_deriv ?_
  congr 1
  ring

theorem continuousOn_selfAt {us cs : Bound ℝ} (hα : 0 ≤ alpha) (hu : 0 ≤ us.lower)
    (hc : 0 < cs.lower) :
    ContinuousOn (Function.uncurry fun u c => selfAt alpha beta u c) (us.toSet ×ˢ cs.toSet) := by
  simp only [selfAt_eq]
  unfold Function.uncurry
  refine ContinuousOn.div (by fun_prop) ?_ ?_
  · refine ContinuousOn.rpow_const (by fun_prop) ?_
    rintro ⟨u,c⟩ ⟨hu',hc'⟩
    exact .inl (denominator_pos hα (hc.trans_le hc'.1) (hu.trans hu'.1)).ne'
  · rintro ⟨u,c⟩ ⟨hu',hc'⟩
    exact (Real.rpow_pos_of_pos (denominator_pos hα (hc.trans_le hc'.1) (hu.trans hu'.1)) _).ne'

theorem square_lower_nonneg (x : Bound ℝ) : 0 ≤ x.square.lower := by
  unfold Bound.square
  split
  · exact le_rfl
  · exact le_min (mul_self_nonneg _) (mul_self_nonneg _)

theorem mem_selfCandidates_end {us : Bound ℝ} {e : ℝ} (hu : u = us.lower ∨ u = us.upper) :
    selfAt alpha beta u e ∈ selfCandidates us alpha beta e := by
  simp only [selfCandidates]
  rcases hu with rfl | rfl
  · split
    · split <;> simp
    · simp
  · split
    · split <;> simp
    · simp

theorem mem_selfCandidates_stationary {us : Bound ℝ} {e : ℝ} (hα : 0 < alpha)
    (hu : us.Contains u) (hupos : 0 ≤ u) (he : 0 < e) (h : 3 * e = alpha * (2 * beta - 1) * u) :
    selfAt alpha beta u e ∈ selfCandidates us alpha beta e := by
  have hk : 0 < alpha * (2 * beta - 1) := by
    by_contra hk
    nlinarith
  have hβ' : 1 < two * beta := by
    rw [two_eq]
    nlinarith
  have hpoint : ((3 : ℕ) : ℝ) * e / (alpha * (two * beta - 1)) = u := by
    rw [two_eq,div_eq_iff hk.ne',Nat.cast_ofNat]
    linarith
  simp only [selfCandidates]
  rw [if_pos ⟨hα,hβ'⟩,hpoint,if_pos hu]
  simp

theorem mem_selfEdgeCandidates {cs : Bound ℝ} (hc : cs.Contains c)
    (h : c = alpha * (2 * beta + 1) * u) :
    selfAt alpha beta u c ∈ selfEdgeCandidates cs alpha beta u := by
  simp only [selfEdgeCandidates]
  rw [two_eq,← h,if_pos hc]
  simp

theorem selfAt_power_zero (hpos : 0 < c + alpha * u) : selfAt alpha 0 u c = 1 := by
  simp [selfAt_eq,hpos.ne']

theorem selfAt_scale_zero (u v : ℝ) : selfAt 0 beta u c = selfAt 0 beta v c := by
  simp [selfAt_eq]

theorem end_or_stationary {us : Bound ℝ} (hα : 0 < alpha) (hβ : 0 < beta)
    (hpos : 0 < c + alpha * u) (h : us.Extremal (fun u => selfAt alpha beta u c) u) :
    (u = us.lower ∨ u = us.upper) ∨ 3 * c = alpha * (2 * beta - 1) * u := by
  refine (h.end_or_slope_eq_zero (hasDerivAt_selfAt_square hpos)).imp_right fun hzero => ?_
  have hpow := Real.rpow_pos_of_pos hpos (beta + 1 + 1)
  rw [div_eq_zero_iff,or_iff_left hpow.ne',mul_eq_zero,neg_eq_zero,
    or_iff_right (mul_pos hα hβ).ne'] at hzero
  linarith

theorem end_or_edge {cs : Bound ℝ} (hβ : 0 < beta) (hpos : 0 < c + alpha * u)
    (h : cs.Extremal (fun c => selfAt alpha beta u c) c) :
    (c = cs.lower ∨ c = cs.upper) ∨ c = alpha * (2 * beta + 1) * u := by
  refine (h.end_or_slope_eq_zero (hasDerivAt_selfAt hpos)).imp_right fun hzero => ?_
  have hpow := Real.rpow_pos_of_pos hpos (beta + 1 + 1)
  rw [div_eq_zero_iff,or_iff_left hpow.ne',mul_eq_zero,or_iff_right hβ.ne'] at hzero
  linarith

/-- A bound around all candidates for the derivative by the own input holds this derivative at
all squares and offsets of the two bounds. -/
theorem contains_selfAt {b us cs : Bound ℝ} (hα : 0 ≤ alpha) (hβ : 0 ≤ beta)
    (hus : 0 ≤ us.lower) (hcs : 0 < cs.lower)
    (hcandidates : ∀ e, e = cs.lower ∨ e = cs.upper →
      ∀ w ∈ selfCandidates us alpha beta e, b.Contains w)
    (hedges : 0 < alpha → ∀ e, e = us.lower ∨ e = us.upper →
      ∀ w ∈ selfEdgeCandidates cs alpha beta e, b.Contains w)
    (hu : us.Contains u) (hc : cs.Contains c) : b.Contains (selfAt alpha beta u c) := by
  refine Bound.contains_of_extremal₂ (continuousOn_selfAt hα hus hcs) ?_ hu hc
  intro u c hu hc
  have hupos : 0 ≤ u := hus.trans hu.1.1
  have hcpos : 0 < c := hcs.trans_le hc.1.1
  have hpos := denominator_pos hα hcpos hupos
  rcases hβ.eq_or_lt with rfl | hβ'
  · rw [selfAt_power_zero hpos,← selfAt_power_zero (denominator_pos hα hcs hus)]
    exact hcandidates _ (.inl rfl) _ (mem_selfCandidates_end (.inl rfl))
  have hcend := end_or_edge hβ' hpos hc
  rcases hα.eq_or_lt with rfl | hα'
  · rw [zero_mul,zero_mul,or_iff_left hcpos.ne'] at hcend
    rw [selfAt_scale_zero u us.lower]
    exact hcandidates c hcend _ (mem_selfCandidates_end (.inl rfl))
  have huend := end_or_stationary hα' hβ' hpos hu
  rcases hcend with hcend | hedge
  · rcases huend with huend | hstationary
    · exact hcandidates c hcend _ (mem_selfCandidates_end huend)
    · exact hcandidates c hcend _
        (mem_selfCandidates_stationary hα' hu.1 hupos hcpos hstationary)
  · -- Inside both bounds the two derivatives would have to vanish at once, which they do not.
    have hmoves : 3 * c ≠ alpha * (2 * beta - 1) * u := by
      nlinarith [mul_nonneg hα hupos]
    exact hedges hα' u (huend.resolve_right hmoves) _ (mem_selfEdgeCandidates hc.1 hedge)

theorem contains_selfDerivative {x cs : Bound ℝ} (hα : 0 ≤ alpha) (hβ : 0 ≤ beta)
    (hcs : 0 < cs.lower) (hu : x.square.Contains u) (hc : cs.Contains c) :
    (selfDerivative x cs alpha beta).Contains (selfAt alpha beta u c) := by
  unfold selfDerivative
  simp only
  refine contains_selfAt hα hβ (square_lower_nonneg x) hcs ?_ ?_ hu hc
  · rintro e he w hw
    refine Bound.contains_push (List.mem_cons_of_mem _ (List.mem_append_left _ ?_))
    rcases he with rfl | rfl
    · exact List.mem_append_left _ hw
    · exact List.mem_append_right _ hw
  · rintro hα' e he w hw
    refine Bound.contains_push (List.mem_cons_of_mem _ (List.mem_append_right _ ?_))
    rw [if_pos hα']
    rcases he with rfl | rfl
    · exact List.mem_append_left _ hw
    · exact List.mem_append_right _ hw

end SelfDerivative

section NeighborDerivative

variable {xj xc : Bound ℝ}

theorem neighborAt_comm (alpha beta p q c : ℝ) :
    neighborAt alpha beta p q c = neighborAt alpha beta q p c := by
  rw [neighborAt_eq,neighborAt_eq,mul_right_comm,add_right_comm]

theorem neighborAt_zero (alpha beta p c : ℝ) : neighborAt alpha beta p 0 c = 0 := by
  simp [neighborAt_eq]

theorem neighborAt_eq_zero (h : Scalar.Same alpha 0 ∨ Scalar.Same beta 0) :
    neighborAt alpha beta p q c = 0 := by
  have hzero : alpha = 0 ∨ beta = 0 := by
    rcases h with h | h
    · exact .inl (le_antisymm h.1 h.2)
    · exact .inr (le_antisymm h.1 h.2)
  rcases hzero with rfl | rfl <;> simp [neighborAt_eq]

theorem neighbor_pos (hα : 0 ≤ alpha) (hc : 0 < c) (p q : ℝ) :
    0 < c + alpha * p * p + alpha * q * q :=
  denominator_pos' hα (denominator_pos' hα hc p) q

theorem hasDerivAt_neighborAt (hpos : 0 < c + alpha * p * p + alpha * q * q) :
    HasDerivAt (fun p => neighborAt alpha beta p q c)
      (-2 * alpha * beta * (q * (c + alpha * q * q - alpha * (2 * beta + 1) * (p * p))) /
        (c + alpha * p * p + alpha * q * q) ^ (beta + 1 + 1)) p := by
  have hf := ((hasDerivAt_id' p).const_mul (-2 * alpha * beta)).mul_const q
  have hg := (hasDerivAt_square alpha c p).add_const (alpha * q * q)
  have h := hasDerivAt_div_rpow hf hg hpos (beta + 1)
  simp only [neighborAt_eq]
  refine h.congr_deriv ?_
  congr 1
  ring

theorem continuous_neighborAt (hα : 0 ≤ alpha) (hc : 0 < c) :
    Continuous (Function.uncurry fun p q => neighborAt alpha beta p q c) := by
  simp only [neighborAt_eq]
  unfold Function.uncurry
  refine Continuous.div (by fun_prop) ?_ ?_
  · refine Continuous.rpow_const (by fun_prop) ?_
    exact fun w => .inl (neighbor_pos hα hc w.1 w.2).ne'
  · exact fun w => (Real.rpow_pos_of_pos (neighbor_pos hα hc w.1 w.2) _).ne'

/-- Where the derivative is stationary in one input, it is zero or that input is a turning
point. -/
theorem eq_zero_or_turn (hα : 0 < alpha) (hβ : 0 < beta) (hc : 0 < c)
    (h : xj.Extremal (fun p => neighborAt alpha beta p q c) p) :
    (p = xj.lower ∨ p = xj.upper) ∨ q = 0 ∨
      alpha * (2 * beta + 1) * (p * p) = c + alpha * q * q := by
  have hpos := neighbor_pos hα.le hc p q
  refine (h.end_or_slope_eq_zero (hasDerivAt_neighborAt hpos)).imp_right fun hzero => ?_
  have hfactor : -2 * alpha * beta ≠ 0 := by
    rw [mul_assoc]
    exact mul_ne_zero (by norm_num) (mul_pos hα hβ).ne'
  rw [div_eq_zero_iff,or_iff_left (Real.rpow_pos_of_pos hpos _).ne',mul_eq_zero,
    or_iff_right hfactor,mul_eq_zero] at hzero
  refine hzero.imp_right fun hturn => ?_
  linarith

theorem mem_neighborCandidates_corner (hp : p = xj.lower ∨ p = xj.upper)
    (hq : q = xc.lower ∨ q = xc.upper) :
    neighborAt alpha beta p q c ∈ neighborCandidates xj xc alpha beta c := by
  simp only [neighborCandidates]
  refine List.mem_map.mpr ⟨(p,q),?_,rfl⟩
  refine List.mem_append_left _ (List.mem_append_left _ (List.mem_append_left _ ?_))
  rcases hp with rfl | rfl <;> rcases hq with rfl | rfl <;> simp

theorem mem_neighborCandidates_row (hα : 0 < alpha) (hβ : 0 < beta)
    (hp : p = xj.lower ∨ p = xj.upper) (hq : xc.Contains q)
    (h : alpha * (2 * beta + 1) * (q * q) = c + alpha * p * p) :
    neighborAt alpha beta p q c ∈ neighborCandidates xj xc alpha beta c := by
  have hk : 0 < alpha * (2 * beta + 1) := by positivity
  have hturn : q * q = (c + alpha * p * p) / (alpha * (two * beta + 1)) := by
    rw [two_eq,eq_div_iff hk.ne',mul_comm]
    exact h
  simp only [neighborCandidates]
  refine List.mem_map.mpr ⟨(p,q),?_,rfl⟩
  refine List.mem_append_left _ (List.mem_append_right _ (List.mem_flatMap.mpr ⟨p,?_,?_⟩))
  · simpa using hp
  · have hroot : q = Scalar.sqrt ((c + alpha * p * p) / (alpha * (two * beta + 1))) ∨
        q = -Scalar.sqrt ((c + alpha * p * p) / (alpha * (two * beta + 1))) := eq_sqrt_or_neg hturn
    refine List.mem_map_of_mem (f := fun q => (p,q)) (List.mem_filter.mpr ⟨?_,by simpa using hq⟩)
    simpa using hroot

theorem mem_neighborCandidates_column (hα : 0 < alpha) (hβ : 0 < beta) (hp : xj.Contains p)
    (hq : q = xc.lower ∨ q = xc.upper)
    (h : alpha * (2 * beta + 1) * (p * p) = c + alpha * q * q) :
    neighborAt alpha beta p q c ∈ neighborCandidates xj xc alpha beta c := by
  have hk : 0 < alpha * (2 * beta + 1) := by positivity
  have hturn : p * p = (c + alpha * q * q) / (alpha * (two * beta + 1)) := by
    rw [two_eq,eq_div_iff hk.ne',mul_comm]
    exact h
  simp only [neighborCandidates]
  refine List.mem_map.mpr ⟨(p,q),?_,rfl⟩
  refine List.mem_append_right _ (List.mem_flatMap.mpr ⟨q,?_,?_⟩)
  · simpa using hq
  · have hroot : p = Scalar.sqrt ((c + alpha * q * q) / (alpha * (two * beta + 1))) ∨
        p = -Scalar.sqrt ((c + alpha * q * q) / (alpha * (two * beta + 1))) := eq_sqrt_or_neg hturn
    refine List.mem_map_of_mem (f := fun p => (p,q)) (List.mem_filter.mpr ⟨?_,by simpa using hp⟩)
    simpa using hroot

theorem mem_neighborCandidates_inside (hα : 0 < alpha) (hβ : 0 < beta) (hp : xj.Contains p)
    (hq : xc.Contains q) (hsquare : 2 * alpha * beta * (p * p) = c)
    (hsquare' : 2 * alpha * beta * (q * q) = c) :
    neighborAt alpha beta p q c ∈ neighborCandidates xj xc alpha beta c := by
  have hk : 0 < 2 * alpha * beta := by positivity
  have hroot : ∀ v, 2 * alpha * beta * (v * v) = c →
      v = Scalar.sqrt (c / (two * alpha * beta)) ∨ v = -Scalar.sqrt (c / (two * alpha * beta)) := by
    intro v hv
    refine eq_sqrt_or_neg ?_
    rw [two_eq,eq_div_iff hk.ne',mul_comm]
    exact hv
  simp only [neighborCandidates]
  refine List.mem_map.mpr ⟨(p,q),?_,rfl⟩
  refine List.mem_append_left _ (List.mem_append_left _ (List.mem_append_right _ ?_))
  refine List.mem_filter.mpr ⟨?_,by simpa using And.intro hp hq⟩
  rcases hroot p hsquare with hp' | hp' <;> rcases hroot q hsquare' with hq' | hq' <;>
    rw [hp',hq'] <;> simp

/-- On one edge of `c` the derivatives by a neighbour are enclosed by their candidates, and by
zero where one of the two inputs can vanish. -/
theorem contains_neighborAt_edge {b : Bound ℝ} (hα : 0 < alpha) (hβ : 0 < beta) (hc : 0 < c)
    (h : ∀ w ∈ neighborCandidates xj xc alpha beta c, b.Contains w)
    (hzero : xj.ContainsZero ∨ xc.ContainsZero → b.Contains 0) (hp : xj.Contains p)
    (hq : xc.Contains q) : b.Contains (neighborAt alpha beta p q c) := by
  refine Bound.contains_of_extremal₂ (continuous_neighborAt hα.le hc).continuousOn ?_ hp hq
  intro p q hpx hqx
  have hp := hpx.1
  have hq := hqx.1
  rcases eq_or_ne q 0 with rfl | hq0
  · rw [neighborAt_zero]
    exact hzero (.inr hq)
  rcases eq_or_ne p 0 with rfl | hp0
  · rw [neighborAt_comm,neighborAt_zero]
    exact hzero (.inl hp)
  have hqx' : xc.Extremal (fun q => neighborAt alpha beta q p c) q := by
    simpa only [neighborAt_comm alpha beta _ p] using hqx
  have hpcase := eq_zero_or_turn hα hβ hc hpx
  have hqcase := eq_zero_or_turn hα hβ hc hqx'
  rw [or_iff_right hq0] at hpcase
  rw [or_iff_right hp0] at hqcase
  apply h
  rcases hpcase with hpend | hpturn
  · rcases hqcase with hqend | hqturn
    · exact mem_neighborCandidates_corner hpend hqend
    · exact mem_neighborCandidates_row hα hβ hpend hq hqturn
  · rcases hqcase with hqend | hqturn
    · exact mem_neighborCandidates_column hα hβ hp hqend hpturn
    · have heq : p * p = q * q := by
        have hdiff : 2 * alpha * (beta + 1) * (p * p - q * q) = 0 := by nlinarith
        have hk : 2 * alpha * (beta + 1) ≠ 0 := by positivity
        linarith [(mul_eq_zero.mp hdiff).resolve_left hk]
      refine mem_neighborCandidates_inside hα hβ hp hq ?_ ?_ <;> nlinarith

theorem contains_neighborDerivative {cs : Bound ℝ} (hα : 0 ≤ alpha) (hβ : 0 ≤ beta)
    (hcs : 0 < cs.lower) (hp : xj.Contains p) (hq : xc.Contains q) (hc : cs.Contains c) :
    (neighborDerivative xj xc cs alpha beta).Contains (neighborAt alpha beta p q c) := by
  unfold neighborDerivative
  split
  next hsame =>
    rw [neighborAt_eq_zero hsame]
    exact Bound.contains_zero
  next hsame =>
    rw [not_or] at hsame
    have hα' : 0 < alpha := lt_of_le_of_ne hα fun h => hsame.1 ⟨h.ge,h.le⟩
    have hβ' : 0 < beta := lt_of_le_of_ne hβ fun h => hsame.2 ⟨h.ge,h.le⟩
    simp only
    set zero : List ℝ := if xj.ContainsZero ∨ xc.ContainsZero then [0] else [] with hzero
    set b := (zero ++ neighborCandidates xj xc alpha beta cs.lower ++
      neighborCandidates xj xc alpha beta cs.upper).foldl Bound.push
        (Bound.point (neighborAt alpha beta xj.lower xc.lower cs.lower)) with hb
    have hmem : ∀ w ∈ zero ++ neighborCandidates xj xc alpha beta cs.lower ++
        neighborCandidates xj xc alpha beta cs.upper, b.Contains w :=
      fun w hw => Bound.contains_push (List.mem_cons_of_mem _ hw)
    have hzero' : xj.ContainsZero ∨ xc.ContainsZero → b.Contains 0 := by
      intro h
      refine hmem 0 (List.mem_append_left _ (List.mem_append_left _ ?_))
      rw [hzero,if_pos h]
      exact List.mem_singleton_self 0
    have hlower := contains_neighborAt_edge hα' hβ' hcs
      (fun w hw => hmem w (List.mem_append_left _ (List.mem_append_right _ hw))) hzero' hp hq
    have hupper := contains_neighborAt_edge hα' hβ' (hcs.trans_le (hc.1.trans hc.2))
      (fun w hw => hmem w (List.mem_append_right _ hw)) hzero' hp hq
    refine contains_between (f := fun c => neighborAt alpha beta p q c) ?_ hlower hupper hc.1 hc.2
    simp only [neighborAt_eq]
    refine monotone_div_rpow (g := fun c => c + alpha * p * p + alpha * q * q) ?_ ?_
      (by positivity) _
    · exact fun w _ w' _ h => add_le_add_left (add_le_add_left h _) _
    · exact fun w hw => neighbor_pos hα (hcs.trans_le hw.1) p q

end NeighborDerivative

end ResponseNorm
end Sensitivity
