import Sensitivity.Proofs.Cell
import Sensitivity.Proofs.Relation
import Sensitivity.Proofs.Inclusion.Bound
import Sensitivity.Proofs.Sound.Dense

/-! Intervals inside intervals, cell by cell, and what keeps them so. -/
namespace Sensitivity
namespace Interval

/-- Intervals of one shape, each cell of the first one inside that of the second one. -/
abbrev Inside (x y : Interval ℝ) : Prop := Tensor.Rel Bound.Inside x y

variable {x x' y y' d d' e e' : Interval ℝ} {image : ImageShape}

theorem Inside.cell (h : x.Inside x') (i : ℕ) : (x.read i).Inside (x'.read i) :=
  h.read Bound.inside_zero i

theorem Inside.addTensor (h : x.Inside x') {v : Tensor ℝ} (hy : x.addTensor v = .ok y)
    (hy' : x'.addTensor v = .ok y') : y.Inside y' := by
  have hshift : ∀ (b c : Bound ℝ) (u u' : ℝ), b.Inside c → u = u' →
      Bound.Inside ⟨b.lower + u,b.upper + u⟩ ⟨c.lower + u',c.upper + u'⟩ := by
    rintro b c u _ hb rfl
    exact ⟨add_le_add_left hb.lower u,add_le_add_left hb.ordered u,add_le_add_left hb.upper u⟩
  exact h.zip (Tensor.rel_eq v) hshift hy hy'

section Contraction

variable {n : ℕ}

/-- Positive parts of weights meet the same ends, negative ones the opposite ends. -/
theorem inside_signSplit {b c : ℕ → Bound ℝ} (w : ℕ → ℝ) (h : ∀ k < n, (b k).Inside (c k)) :
    (signSplit n b w).Inside (signSplit n c w) := by
  have hpositive : ∀ k, 0 ≤ max (w k) 0 := fun k => le_max_right _ _
  have hnegative : ∀ k, min (w k) 0 ≤ 0 := fun k => min_le_right _ _
  have hlower : ∀ k < n, (c k).lower ≤ (b k).lower := fun k hk => (h k hk).lower
  have hordered : ∀ k < n, (b k).lower ≤ (b k).upper := fun k hk => (h k hk).ordered
  have hupper : ∀ k < n, (b k).upper ≤ (c k).upper := fun k hk => (h k hk).upper
  exact ⟨add_le_add (dotSum_le_of_nonneg hpositive hlower) (dotSum_le_of_nonpos hnegative hupper),
    add_le_add (dotSum_le_of_nonneg hpositive hordered) (dotSum_le_of_nonpos hnegative hordered),
    add_le_add (dotSum_le_of_nonneg hpositive hupper) (dotSum_le_of_nonpos hnegative hlower)⟩

theorem Inside.contract (h : x.Inside x') {v : Tensor ℝ} {lead : List ℕ} {k height columns : ℕ}
    (hx : x'.shape = lead ++ [k]) (hv : v.shape = [height,columns])
    (hy : contract x v = .ok y) (hy' : contract x' v = .ok y') : y.Inside y' := by
  obtain ⟨-,-,-,hshape,hcells⟩ := (contract_eq_ok_iff (h.shape.trans hx) hv).mp hy
  obtain ⟨-,-,-,hshape',hcells'⟩ := (contract_eq_ok_iff hx hv).mp hy'
  refine ⟨hshape.trans hshape'.symm,fun i hi => ?_⟩
  have hi : i < lead.prod * columns := by simpa [hshape'] using hi
  rw [hcells i hi,hcells' i hi]
  exact (inside_signSplit _ fun j _ => h.cell _).swap

end Contraction

theorem Inside.flatten (h : x.Inside x') : Inside x.flatten x'.flatten :=
  ⟨by rw [Tensor.shape_flatten,Tensor.shape_flatten,h.shape],fun i _ => h.cell i⟩

end Interval
end Sensitivity
