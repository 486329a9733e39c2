import Sensitivity.Proofs.Sound.Extremum

/-! Bounds that are exact. A rule gives the exact range of a function when it holds all of its
values and both ends are among them; of a continuous function it then holds nothing else. -/
namespace Sensitivity
namespace Bound

variable {a b : Bound ℝ} {s : Set ℝ} {v w : ℝ} {l : List ℝ}

theorem contains_of_mem_ends (ha : a.lower ≤ a.upper) (hv : v ∈ [a.lower,a.upper]) : a.Contains v := by
  rcases List.mem_pair.mp hv with rfl | rfl
  · exact ⟨le_rfl,ha⟩
  · exact ⟨ha,le_rfl⟩

theorem exists_of_mem_ends {f : ℝ → ℝ} (ha : a.lower ≤ a.upper) (hw : w ∈ [f a.lower,f a.upper]) :
    ∃ v, a.Contains v ∧ f v = w := by
  obtain ⟨v,hv,rfl⟩ := List.mem_map.mp (show w ∈ [a.lower,a.upper].map f from hw)
  exact ⟨v,contains_of_mem_ends ha hv,rfl⟩

/-- The ends are the least and the greatest element of a set. -/
structure IsRange (b : Bound ℝ) (s : Set ℝ) : Prop where
  least : IsLeast s b.lower
  greatest : IsGreatest s b.upper

theorem isRange_of_contains (hlower : b.lower ∈ s) (hupper : b.upper ∈ s)
    (h : ∀ w ∈ s, b.Contains w) : b.IsRange s :=
  ⟨⟨hlower,fun w hw => (h w hw).1⟩,⟨hupper,fun w hw => (h w hw).2⟩⟩

theorem ends_of_foldl_push (hl : ∀ w ∈ l, w ∈ s) (hlower : b.lower ∈ s) (hupper : b.upper ∈ s) :
    (l.foldl push b).lower ∈ s ∧ (l.foldl push b).upper ∈ s := by
  induction l generalizing b with
  | nil => exact ⟨hlower,hupper⟩
  | cons w l ih =>
    obtain ⟨hw,hl⟩ := List.forall_mem_cons.mp hl
    exact ih hl (min_rec' (· ∈ s) hlower hw) (max_rec' (· ∈ s) hupper hw)

theorem isRange_of_push (hv : v ∈ s) (hl : ∀ w ∈ l, w ∈ s)
    (h : ∀ w ∈ s, (l.foldl push (point v)).Contains w) : (l.foldl push (point v)).IsRange s := by
  obtain ⟨hlower,hupper⟩ := ends_of_foldl_push (b := point v) hl hv hv
  exact isRange_of_contains hlower hupper h

theorem IsRange.exists_eq {f : ℝ → ℝ} (h : b.IsRange (f '' a.toSet)) (hf : ContinuousOn f a.toSet)
    (hw : b.Contains w) : ∃ v, a.Contains v ∧ f v = w := by
  obtain ⟨p,hp,hlower⟩ := h.least.1
  obtain ⟨q,hq,hupper⟩ := h.greatest.1
  have hbetween := isPreconnected_Icc.intermediate_value hp hq hf
  exact hbetween ⟨hlower.trans_le hw.1,hw.2.trans_eq hupper.symm⟩

theorem isRange_square (hb : b.lower ≤ b.upper) :
    b.square.IsRange ((fun v => v * v) '' b.toSet) := by
  have hlower : b.lower * b.lower ∈ (fun v => v * v) '' b.toSet := ⟨_,⟨le_rfl,hb⟩,rfl⟩
  have hupper : b.upper * b.upper ∈ (fun v => v * v) '' b.toSet := ⟨_,⟨hb,le_rfl⟩,rfl⟩
  have hmin := min_rec' (· ∈ (fun v => v * v) '' b.toSet) hlower hupper
  have hmax := max_rec' (· ∈ (fun v => v * v) '' b.toSet) hlower hupper
  have hcontains : ∀ w ∈ (fun v => v * v) '' b.toSet, b.square.Contains w := by
    rintro _ ⟨v,hv,rfl⟩
    exact contains_square hv
  unfold square at hcontains ⊢
  split at hcontains
  next hzero =>
    rw [if_pos hzero]
    exact isRange_of_contains ⟨0,hzero,mul_zero 0⟩ hmax hcontains
  next hzero =>
    rw [if_neg hzero]
    exact isRange_of_contains hmin hmax hcontains

end Bound
end Sensitivity
