import Sensitivity.Proofs.Sound.Bound

/-! Extreme values over boxes. A continuous function on a box takes its extreme values at points
where it is stationary along every axis, or which lie on the boundary of that axis. -/
namespace Sensitivity
namespace Bound

variable {b : Bound ℝ}

/-- The values of a bound. -/
def toSet (a : Bound ℝ) : Set ℝ := Set.Icc a.lower a.upper

/-- A value inside a bound, or on its boundary, where the function is stationary if inside. -/
def Extremal (a : Bound ℝ) (f : ℝ → ℝ) (x : ℝ) : Prop :=
  a.Contains x ∧ (a.lower < x → x < a.upper → deriv f x = 0)

theorem extremal_of_isMaxOn {a : Bound ℝ} {f : ℝ → ℝ} {x : ℝ} (hx : a.Contains x)
    (h : IsMaxOn f a.toSet x) : a.Extremal f x := by
  refine ⟨hx,fun hl hu => ?_⟩
  exact (h.isLocalMax (Icc_mem_nhds hl hu)).deriv_eq_zero

theorem extremal_of_isMinOn {a : Bound ℝ} {f : ℝ → ℝ} {x : ℝ} (hx : a.Contains x)
    (h : IsMinOn f a.toSet x) : a.Extremal f x := by
  refine ⟨hx,fun hl hu => ?_⟩
  exact (h.isLocalMin (Icc_mem_nhds hl hu)).deriv_eq_zero

theorem Extremal.end_or_slope_eq_zero {a : Bound ℝ} {f : ℝ → ℝ} {x slope : ℝ}
    (h : a.Extremal f x) (hf : HasDerivAt f slope x) :
    (x = a.lower ∨ x = a.upper) ∨ slope = 0 := by
  obtain ⟨hx,hstationary⟩ := h
  rcases hx.1.eq_or_lt with hl | hl
  · exact .inl (.inl hl.symm)
  rcases hx.2.eq_or_lt with hu | hu
  · exact .inl (.inr hu)
  · exact .inr (hf.deriv.symm.trans (hstationary hl hu))

/-- A bound around the values at extremal points is one around all values. -/
theorem contains_of_extremal {a : Bound ℝ} {f : ℝ → ℝ} (hf : ContinuousOn f a.toSet)
    (h : ∀ x, a.Extremal f x → b.Contains (f x)) {x : ℝ} (hx : a.Contains x) :
    b.Contains (f x) := by
  have hne : a.toSet.Nonempty := ⟨x,hx⟩
  obtain ⟨p,hp,hmin⟩ := isCompact_Icc.exists_isMinOn hne hf
  obtain ⟨q,hq,hmax⟩ := isCompact_Icc.exists_isMaxOn hne hf
  have hlower := (h p (extremal_of_isMinOn hp hmin)).1
  have hupper := (h q (extremal_of_isMaxOn hq hmax)).2
  exact ⟨hlower.trans (hmin hx),(hmax hx).trans hupper⟩

theorem contains_of_extremal₂ {a c : Bound ℝ} {f : ℝ → ℝ → ℝ}
    (hf : ContinuousOn (Function.uncurry f) (a.toSet ×ˢ c.toSet))
    (h : ∀ x y, a.Extremal (fun v => f v y) x → c.Extremal (f x) y → b.Contains (f x y)) {x y : ℝ}
    (hx : a.Contains x) (hy : c.Contains y) : b.Contains (f x y) := by
  have hne : (a.toSet ×ˢ c.toSet).Nonempty := ⟨(x,y),hx,hy⟩
  have hcompact : IsCompact (a.toSet ×ˢ c.toSet) := isCompact_Icc.prod isCompact_Icc
  obtain ⟨⟨p,p'⟩,⟨hp,hp'⟩,hmin⟩ := hcompact.exists_isMinOn hne hf
  obtain ⟨⟨q,q'⟩,⟨hq,hq'⟩,hmax⟩ := hcompact.exists_isMaxOn hne hf
  have hlower := (h p p' (extremal_of_isMinOn hp fun v hv => hmin (Set.mk_mem_prod hv hp'))
    (extremal_of_isMinOn hp' fun v hv => hmin (Set.mk_mem_prod hp hv))).1
  have hupper := (h q q' (extremal_of_isMaxOn hq fun v hv => hmax (Set.mk_mem_prod hv hq'))
    (extremal_of_isMaxOn hq' fun v hv => hmax (Set.mk_mem_prod hq hv))).2
  exact ⟨hlower.trans (hmin (Set.mk_mem_prod hx hy)),(hmax (Set.mk_mem_prod hx hy)).trans hupper⟩

end Bound
end Sensitivity
