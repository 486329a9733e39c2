import Sensitivity.Proofs.Exact.Bound
import Sensitivity.Proofs.Sound.Norm

/-! The bounds on the output of a response norm and on both of its derivatives are exact. They hold
all values over a box, since these are extreme at the candidates only, and each candidate is the
value at a point of the box. -/
namespace Sensitivity
namespace ResponseNorm

variable {alpha beta e w : ℝ} {x xj xc us cs : Bound ℝ}

section Output

theorem exists_of_mem_outputCandidates (hx : x.lower ≤ x.upper)
    (hw : w ∈ outputCandidates x alpha beta e) :
    ∃ v, x.Contains v ∧ outputAt alpha beta v e = w := by
  have hends := Bound.exists_of_mem_ends (w := w) (f := fun v => outputAt alpha beta v e) hx
  unfold outputCandidates at hw
  split at hw
  · rcases List.mem_append.mp hw with hw | hw
    · exact hends hw
    · obtain ⟨v,hv,rfl⟩ := List.mem_map.mp hw
      exact ⟨v,by simpa using (List.mem_filter.mp hv).2,rfl⟩
  · exact hends hw

/-- Every candidate for the output on the two edges of `c` is the output at a point of the box. -/
theorem exists_outputAt_of_mem (hx : x.lower ≤ x.upper) (hcs : cs.lower ≤ cs.upper)
    (hw : w ∈ outputCandidates x alpha beta cs.lower ++ outputCandidates x alpha beta cs.upper) :
    ∃ v c, x.Contains v ∧ cs.Contains c ∧ outputAt alpha beta v c = w := by
  rcases List.mem_append.mp hw with hw | hw
  · obtain ⟨v,hv,rfl⟩ := exists_of_mem_outputCandidates hx hw
    exact ⟨v,_,hv,⟨le_rfl,hcs⟩,rfl⟩
  · obtain ⟨v,hv,rfl⟩ := exists_of_mem_outputCandidates hx hw
    exact ⟨v,_,hv,⟨hcs,le_rfl⟩,rfl⟩

/-- The bound on the output is its exact range over a box of inputs and offsets. -/
theorem isRange_output (hx : x.lower ≤ x.upper) (hc : 0 < cs.lower) (hcs : cs.lower ≤ cs.upper)
    (hα : 0 ≤ alpha) (hβ : 0 ≤ beta) : (output x cs alpha beta).IsRange
      {y | ∃ v c, x.Contains v ∧ cs.Contains c ∧ y = v / (c + alpha * v ^ 2) ^ beta} := by
  have hvalue : ∀ v c, outputAt alpha beta v c = v / (c + alpha * v ^ 2) ^ beta := by
    intro v c
    rw [pow_two,← mul_assoc]
    rfl
  refine Bound.isRange_of_push ⟨_,_,⟨le_rfl,hx⟩,⟨le_rfl,hcs⟩,hvalue _ _⟩ ?_ ?_
  · intro w hw
    obtain ⟨v,c,hv,hc,rfl⟩ := exists_outputAt_of_mem hx hcs hw
    exact ⟨v,c,hv,hc,hvalue v c⟩
  · rintro w ⟨v,c,hv,hc',rfl⟩
    rw [← hvalue]
    exact contains_output hα hβ hc hv hc'

/-- The input straddles zero, and both stationary points of the lower edge lie in its bound. -/
theorem isRange_output_straddling : (output ⟨-1,2⟩ ⟨1,3⟩ 1 1).IsRange
    {y : ℝ | ∃ v c, Bound.Contains ⟨-1,2⟩ v ∧ Bound.Contains ⟨1,3⟩ c ∧
      y = v / (c + 1 * v ^ 2) ^ (1 : ℝ)} :=
  isRange_output (by norm_num) (by norm_num) (by norm_num) (by norm_num) (by norm_num)

end Output

section SelfDerivative

theorem exists_of_mem_selfCandidates (hus : us.lower ≤ us.upper)
    (hw : w ∈ selfCandidates us alpha beta e) :
    ∃ u, us.Contains u ∧ selfAt alpha beta u e = w := by
  have hends := Bound.exists_of_mem_ends (w := w) (f := fun u => selfAt alpha beta u e) hus
  simp only [selfCandidates] at hw
  split at hw
  · split at hw
    next hstationary =>
      rcases List.mem_append.mp hw with hw | hw
      · exact hends hw
      · exact ⟨_,hstationary,(List.mem_singleton.mp hw).symm⟩
    next => exact hends hw
  · exact hends hw

theorem exists_of_mem_selfEdgeCandidates (hw : w ∈ selfEdgeCandidates cs alpha beta e) :
    ∃ c, cs.Contains c ∧ selfAt alpha beta e c = w := by
  simp only [selfEdgeCandidates] at hw
  split at hw
  next hstationary => exact ⟨_,hstationary,(List.mem_singleton.mp hw).symm⟩
  next => cases hw

theorem exists_selfAt_of_mem (hus : us.lower ≤ us.upper) (hcs : cs.lower ≤ cs.upper)
    (hw : w ∈ selfCandidates us alpha beta cs.lower ++ selfCandidates us alpha beta cs.upper ++
      if 0 < alpha then
        selfEdgeCandidates cs alpha beta us.lower ++ selfEdgeCandidates cs alpha beta us.upper
      else []) :
    ∃ u c, us.Contains u ∧ cs.Contains c ∧ selfAt alpha beta u c = w := by
  rcases List.mem_append.mp hw with hw | hw
  · rcases List.mem_append.mp hw with hw | hw
    · obtain ⟨u,hu,rfl⟩ := exists_of_mem_selfCandidates hus hw
      exact ⟨u,_,hu,⟨le_rfl,hcs⟩,rfl⟩
    · obtain ⟨u,hu,rfl⟩ := exists_of_mem_selfCandidates hus hw
      exact ⟨u,_,hu,⟨hcs,le_rfl⟩,rfl⟩
  · split at hw
    · rcases List.mem_append.mp hw with hw | hw
      · obtain ⟨c,hc,rfl⟩ := exists_of_mem_selfEdgeCandidates hw
        exact ⟨_,c,⟨le_rfl,hus⟩,hc,rfl⟩
      · obtain ⟨c,hc,rfl⟩ := exists_of_mem_selfEdgeCandidates hw
        exact ⟨_,c,⟨hus,le_rfl⟩,hc,rfl⟩
    · cases hw

theorem exists_mul_self_of_square (hx : x.lower ≤ x.upper) {u : ℝ} (hu : x.square.Contains u) :
    ∃ v, x.Contains v ∧ v * v = u :=
  (Bound.isRange_square hx).exists_eq (by fun_prop) hu

/-- The bound on the derivative of an output by the input of its channel is the exact range of
this derivative over a box of inputs and offsets. -/
theorem isRange_selfDerivative (hx : x.lower ≤ x.upper) (hc : 0 < cs.lower)
    (hcs : cs.lower ≤ cs.upper) (hα : 0 ≤ alpha) (hβ : 0 ≤ beta) :
    (selfDerivative x cs alpha beta).IsRange {y | ∃ v c, x.Contains v ∧ cs.Contains c ∧
      y = (c + alpha * (1 - 2 * beta) * v ^ 2) / (c + alpha * v ^ 2) ^ (beta + 1)} := by
  have hvalue : ∀ v c, selfAt alpha beta (v * v) c =
      (c + alpha * (1 - 2 * beta) * v ^ 2) / (c + alpha * v ^ 2) ^ (beta + 1) := by
    intro v c
    rw [selfAt_eq,pow_two]
  have hpoint : ∀ u c, x.square.Contains u → cs.Contains c → ∃ v c', x.Contains v ∧
      cs.Contains c' ∧ selfAt alpha beta u c =
        (c' + alpha * (1 - 2 * beta) * v ^ 2) / (c' + alpha * v ^ 2) ^ (beta + 1) := by
    intro u c hu hc
    obtain ⟨v,hv,rfl⟩ := exists_mul_self_of_square hx hu
    exact ⟨v,c,hv,hc,hvalue v c⟩
  have hsquare : x.square.lower ≤ x.square.upper :=
    (Bound.isRange_square hx).least.2 (Bound.isRange_square hx).greatest.1
  refine Bound.isRange_of_push (hpoint _ _ ⟨le_rfl,hsquare⟩ ⟨le_rfl,hcs⟩) ?_ ?_
  · intro w hw
    obtain ⟨u,c,hu,hc,rfl⟩ := exists_selfAt_of_mem hsquare hcs hw
    exact hpoint u c hu hc
  · rintro w ⟨v,c,hv,hc',rfl⟩
    rw [← hvalue]
    exact contains_selfDerivative hα hβ hc (Bound.contains_square hv) hc'

/-- The input straddles zero, and stationary points lie on edges of both directions. -/
theorem isRange_selfDerivative_straddling : (selfDerivative ⟨-1,2⟩ ⟨1,12⟩ 1 1).IsRange
    {y : ℝ | ∃ v c, Bound.Contains ⟨-1,2⟩ v ∧ Bound.Contains ⟨1,12⟩ c ∧
      y = (c + 1 * (1 - 2 * 1) * v ^ 2) / (c + 1 * v ^ 2) ^ ((1 : ℝ) + 1)} :=
  isRange_selfDerivative (by norm_num) (by norm_num) (by norm_num) (by norm_num) (by norm_num)

end SelfDerivative

section NeighborDerivative

theorem exists_of_mem_neighborCandidates (hj : xj.lower ≤ xj.upper) (hc : xc.lower ≤ xc.upper)
    (hw : w ∈ neighborCandidates xj xc alpha beta e) :
    ∃ p q, xj.Contains p ∧ xc.Contains q ∧ neighborAt alpha beta p q e = w := by
  simp only [neighborCandidates] at hw
  obtain ⟨⟨p,q⟩,hpq,rfl⟩ := List.mem_map.mp hw
  refine ⟨p,q,?_⟩
  rw [and_assoc.symm]
  refine ⟨?_,rfl⟩
  have hendsj : ∀ p ∈ [xj.lower,xj.upper], xj.Contains p := fun p => Bound.contains_of_mem_ends hj
  have hendsc : ∀ q ∈ [xc.lower,xc.upper], xc.Contains q := fun q => Bound.contains_of_mem_ends hc
  -- Corners have both inputs at their ends, edges one of them; all others were filtered by the box.
  rcases List.mem_append.mp hpq with hpq | hcolumn
  · rcases List.mem_append.mp hpq with hpq | hrow
    · rcases List.mem_append.mp hpq with hcorner | hinside
      · simp only [List.mem_cons,Prod.mk.injEq,List.not_mem_nil,or_false] at hcorner
        rcases hcorner with ⟨rfl,rfl⟩ | ⟨rfl,rfl⟩ | ⟨rfl,rfl⟩ | ⟨rfl,rfl⟩ <;>
          exact ⟨hendsj _ (by simp),hendsc _ (by simp)⟩
      · simpa using (List.mem_filter.mp hinside).2
    · obtain ⟨p',hp',hrow⟩ := List.mem_flatMap.mp hrow
      obtain ⟨q',hq',heq⟩ := List.mem_map.mp hrow
      obtain ⟨rfl,rfl⟩ := Prod.mk.inj heq
      exact ⟨hendsj _ hp',by simpa using (List.mem_filter.mp hq').2⟩
  · obtain ⟨q',hq',hcolumn⟩ := List.mem_flatMap.mp hcolumn
    obtain ⟨p',hp',heq⟩ := List.mem_map.mp hcolumn
    obtain ⟨rfl,rfl⟩ := Prod.mk.inj heq
    exact ⟨by simpa using (List.mem_filter.mp hp').2,hendsc _ hq'⟩

theorem exists_neighborAt_of_mem (hj : xj.lower ≤ xj.upper) (hc : xc.lower ≤ xc.upper)
    (hcs : cs.lower ≤ cs.upper) (hw : w ∈ (if xj.ContainsZero ∨ xc.ContainsZero then [0] else []) ++
      neighborCandidates xj xc alpha beta cs.lower ++ neighborCandidates xj xc alpha beta cs.upper) :
    ∃ p q c, xj.Contains p ∧ xc.Contains q ∧ cs.Contains c ∧ neighborAt alpha beta p q c = w := by
  have hlower : cs.Contains cs.lower := ⟨le_rfl,hcs⟩
  rcases List.mem_append.mp hw with hw | hw
  · rcases List.mem_append.mp hw with hw | hw
    · split at hw
      next hzero =>
        rw [List.mem_singleton.mp hw]
        rcases hzero with hzero | hzero
        · exact ⟨0,_,_,hzero,⟨le_rfl,hc⟩,hlower,by rw [neighborAt_comm,neighborAt_zero]⟩
        · exact ⟨_,0,_,⟨le_rfl,hj⟩,hzero,hlower,neighborAt_zero ..⟩
      next => cases hw
    · obtain ⟨p,q,hp,hq,rfl⟩ := exists_of_mem_neighborCandidates hj hc hw
      exact ⟨p,q,_,hp,hq,hlower,rfl⟩
  · obtain ⟨p,q,hp,hq,rfl⟩ := exists_of_mem_neighborCandidates hj hc hw
    exact ⟨p,q,_,hp,hq,⟨hcs,le_rfl⟩,rfl⟩

/-- The bound on the derivative of an output by the input of another channel is the exact range of
this derivative over a box of the two inputs and the offsets. -/
theorem isRange_neighborDerivative (hj : xj.lower ≤ xj.upper) (hxc : xc.lower ≤ xc.upper)
    (hc : 0 < cs.lower) (hcs : cs.lower ≤ cs.upper) (hα : 0 ≤ alpha) (hβ : 0 ≤ beta) :
    (neighborDerivative xj xc cs alpha beta).IsRange
      {y | ∃ p q c, xj.Contains p ∧ xc.Contains q ∧ cs.Contains c ∧
        y = -2 * alpha * beta * p * q / (c + alpha * p ^ 2 + alpha * q ^ 2) ^ (beta + 1)} := by
  have hvalue : ∀ p q c, neighborAt alpha beta p q c =
      -2 * alpha * beta * p * q / (c + alpha * p ^ 2 + alpha * q ^ 2) ^ (beta + 1) := by
    intro p q c
    rw [neighborAt_eq,pow_two,pow_two,← mul_assoc,← mul_assoc]
  have hj' : xj.Contains xj.lower := ⟨le_rfl,hj⟩
  have hxc' : xc.Contains xc.lower := ⟨le_rfl,hxc⟩
  have hcs' : cs.Contains cs.lower := ⟨le_rfl,hcs⟩
  have hcontains : ∀ y ∈ {y | ∃ p q c, xj.Contains p ∧ xc.Contains q ∧ cs.Contains c ∧
      y = -2 * alpha * beta * p * q / (c + alpha * p ^ 2 + alpha * q ^ 2) ^ (beta + 1)},
      (neighborDerivative xj xc cs alpha beta).Contains y := by
    rintro y ⟨p,q,c,hp,hq,hc',rfl⟩
    rw [← hvalue]
    exact contains_neighborDerivative hα hβ hc hp hq hc'
  unfold neighborDerivative at hcontains ⊢
  split at hcontains
  next hsame =>
    have hzero := hvalue xj.lower xc.lower cs.lower
    rw [neighborAt_eq_zero hsame] at hzero
    rw [if_pos hsame]
    exact Bound.isRange_of_contains ⟨_,_,_,hj',hxc',hcs',hzero⟩ ⟨_,_,_,hj',hxc',hcs',hzero⟩ hcontains
  next hsame =>
    rw [if_neg hsame]
    refine Bound.isRange_of_push ⟨_,_,_,hj',hxc',hcs',hvalue _ _ _⟩ ?_ hcontains
    intro w hw
    obtain ⟨p,q,c,hp,hq,hc',rfl⟩ := exists_neighborAt_of_mem hj hxc hcs hw
    exact ⟨p,q,c,hp,hq,hc',hvalue p q c⟩

/-- Both inputs can vanish, and the points that are stationary in both lie inside their bounds. -/
theorem isRange_neighborDerivative_straddling :
    (neighborDerivative ⟨-1,2⟩ ⟨-2,1⟩ ⟨1,3⟩ 1 1).IsRange
      {y : ℝ | ∃ p q c, Bound.Contains ⟨-1,2⟩ p ∧ Bound.Contains ⟨-2,1⟩ q ∧ Bound.Contains ⟨1,3⟩ c ∧
        y = -2 * 1 * 1 * p * q / (c + 1 * p ^ 2 + 1 * q ^ 2) ^ ((1 : ℝ) + 1)} :=
  isRange_neighborDerivative (by norm_num) (by norm_num) (by norm_num) (by norm_num) (by norm_num)
    (by norm_num)

end NeighborDerivative

end ResponseNorm
end Sensitivity
