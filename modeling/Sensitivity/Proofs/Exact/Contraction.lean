import Sensitivity.Proofs.Exact.Sum
import Sensitivity.Proofs.Sound.Dense

/-! Contractions are exact. A cell of the result is a linear form in one row of the interval, which
reads each of its cells once; splitting the weights by sign adds up the ranges of its terms. -/
namespace Sensitivity

/-- Of the positive and the negative part of a weight one is zero, so that they meet the two ends of
a bound as the weight does by its sign. -/
theorem Bound.weighted_eq_split (b : Bound ℝ) (s : ℝ) : b.weighted s =
    ⟨b.lower * max s 0 + b.upper * min s 0,b.upper * max s 0 + b.lower * min s 0⟩ := by
  unfold weighted
  split
  next hs => simp [max_eq_left hs,min_eq_right hs,mul_comm]
  next hs =>
    have hs := (not_le.mp hs).le
    simp [max_eq_right hs,min_eq_left hs,mul_comm]

namespace Interval

variable {X : Interval ℝ} {w : Tensor ℝ} {lead tail : List ℕ} {k r j : ℕ}

/-- The cell at row `r` and column `j` of the product of rows of `k` cells with a matrix. -/
noncomputable def dotAt (w : Tensor ℝ) (k columns r j : ℕ) (x : Tensor ℝ) : ℝ :=
  ∑ l ∈ Finset.range k, x.read (r * k + l) * w.read (l * columns + j)

theorem signSplit_eq_total (n : ℕ) (x : ℕ → Bound ℝ) (w : ℕ → ℝ) :
    signSplit n x w = Bound.total (List.range n) fun l => (x l).weighted (w l) := by
  simp only [signSplit,dotSum_eq,Bound.total,Bound.weighted_eq_split,sum_map_range,
    Finset.sum_add_distrib]

theorem readsApart_row (hX : X.shape = lead ++ [k]) (hr : r < lead.prod) :
    ReadsApart (List.range k) (fun l => some (r * k + l)) X.shape := by
  refine ⟨fun l _ l' _ i h h' => ?_,fun l hl i h => ?_⟩
  · exact Nat.add_left_cancel (Option.some.inj (h.trans h'.symm))
  · rw [← Option.some.inj h,hX,List.prod_append,List.prod_singleton]
    exact row_position_lt hr (List.mem_range.mp hl)

theorem isRange_signSplit (hX : X.shape = lead ++ [k]) (hord : X.All Bound.InOrder)
    (hr : r < lead.prod) (w : Tensor ℝ) (columns j : ℕ) :
    (signSplit k (fun l => X.read (r * k + l)) (fun l => w.read (l * columns + j))).ordered.IsRange
      (dotAt w k columns r j '' {x | X.Encloses x}) := by
  have hrange := (readsApart_row hX hr).isRange_linear hord fun l => w.read (l * columns + j)
  simp only [Option.elim_some,sum_map_range,← signSplit_eq_total] at hrange
  have hdot : dotAt w k columns r j = fun x => ∑ l ∈ Finset.range k,
      w.read (l * columns + j) * x.read (r * k + l) := by
    funext x
    exact Finset.sum_congr rfl fun l _ => mul_comm _ _
  rw [Bound.ordered_of_contains (hrange.contains hrange.least.1),hdot]
  exact hrange

theorem isRange_of_contract {Y : Interval ℝ} (hX : X.shape = lead ++ [k])
    (hord : X.All Bound.InOrder) (hw : w.shape = k :: tail) (htail : tail.length ≤ 1)
    (hY : contract X w = .ok Y) (hr : r < lead.prod) (hj : j < tail.prod) :
    (Y.read (r * tail.prod + j)).IsRange (dotAt w k tail.prod r j '' {x | X.Encloses x}) := by
  obtain ⟨-,-,-,-,hcells⟩ := (contract_tail_eq_ok_iff hX hw htail).mp hY
  rw [hcells _ (row_position_lt hr hj),ImageShape.mul_add_div_of_lt hj,Nat.mul_add_mod_of_lt hj]
  exact isRange_signSplit hX hord hr w tail.prod j

/-- The last axis of an interval is contracted with a vector or a matrix of as many rows. The result
keeps the axes in front of it, followed by the columns of a matrix, as long as a tensor can have
these extents; each of its cells has the exact range of the cell of the product. Other weights, and
intervals without axes, are refused. -/
theorem exact_contract (X : Interval ℝ) (w : Tensor ℝ) :
    (∀ lead k, X.shape = lead ++ [k] →
      (∀ height tail, w.shape = height :: tail → tail.length ≤ 1 →
        (height = k → X.All Bound.InOrder → Tensor.Addressable (lead ++ tail) →
          (k = 0 → lead.prod * tail.prod = 0) →
          ∃ Y, contract X w = .ok Y ∧ Y.shape = lead ++ tail ∧ ∀ r < lead.prod, ∀ j < tail.prod,
            (Y.read (r * tail.prod + j)).IsRange (dotAt w k tail.prod r j '' {x | X.Encloses x})) ∧
        (height ≠ k → contract X w = .error (.shapeMismatch [k] [height]))) ∧
      (w.rank ≠ 1 → w.rank ≠ 2 → contract X w = .error (.badConfig (.contractionRank w.rank)))) ∧
    (X.shape = [] → contract X w = .error (.shapeMismatch [w.shape.head?.getD 0] [])) := by
  refine ⟨fun lead k hX => ⟨fun height tail hw htail => ⟨?_,fun hne => ?_⟩,fun hone htwo => ?_⟩,
    fun hX => ?_⟩
  · rintro rfl hord ha hempty
    obtain ⟨Y,hY⟩ := exists_contract_tail hX hw htail ha hempty
    obtain ⟨-,-,-,hshape,-⟩ := (contract_tail_eq_ok_iff hX hw htail).mp hY
    exact ⟨Y,hY,hshape,fun r hr j hj => isRange_of_contract hX hord hw htail hY hr hj⟩
  · rw [contract_eq hX hw htail,if_neg hne]
  · exact contract_eq_rank hX hone htwo
  · simp [contract,hX]

/-- Two rows of two cells meet a matrix with weights of both signs. -/
theorem exact_contract_signs : ∃ (X : Interval ℝ) (w : Tensor ℝ) (Y : Interval ℝ),
    X.shape = [2] ++ [2] ∧ X.All Bound.InOrder ∧ w.shape = [2,2] ∧ w.read 0 = 1 ∧ w.read 2 = -3 ∧
      contract X w = .ok Y ∧ (Y.read 2).IsRange (dotAt w 2 2 1 0 '' {x | X.Encloses x}) := by
  let X : Interval ℝ := ⟨[2,2],#[⟨0,1⟩,⟨-1,2⟩,⟨3,3⟩,⟨0,4⟩],rfl⟩
  let w : Tensor ℝ := ⟨[2,2],#[1,2,-3,0],rfl⟩
  have hX : X.shape = [2] ++ [2] := rfl
  have hord : X.All Bound.InOrder := by
    intro i hi
    have hi : i < 4 := hi
    interval_cases i <;> norm_num [X,Tensor.read,Bound.InOrder]
  obtain ⟨hcontract,-⟩ := (exact_contract X w).1 [2] 2 hX
  obtain ⟨Y,hY,-,hrange⟩ := (hcontract 2 [2] rfl le_rfl).1 rfl hord (by decide) (by decide)
  exact ⟨X,w,Y,hX,hord,rfl,rfl,rfl,hY,hrange 1 (by decide) 0 (by decide)⟩

/-- Without any cells an interval can have extents that its product with four columns cannot. -/
theorem contract_overflows : ∃ (X : Interval ℝ) (w : Tensor ℝ),
    X.shape = [0,4611686018427387904] ++ [1] ∧ Tensor.Addressable X.shape ∧ X.All Bound.InOrder ∧
      w.shape = [1,4] ∧
      contract X w = .error (.shapeMismatch [0,4611686018427387904,4] [0,4]) := by
  obtain ⟨X,hX⟩ : ∃ X : Interval ℝ, X.shape = [0,4611686018427387904] ++ [1] :=
    ⟨Tensor.ofFn _ fun _ => 0,rfl⟩
  obtain ⟨w,hw⟩ : ∃ w : Tensor ℝ, w.shape = 1 :: [4] := ⟨Tensor.ofFn _ fun _ => 1,rfl⟩
  have hsmall : Tensor.Addressable [0,4611686018427387904,1] := by decide
  have hlarge : ¬ Tensor.Addressable [0,4611686018427387904,4] := by decide
  refine ⟨X,w,hX,hX ▸ hsmall,fun i hi => ?_,hw,?_⟩
  · simp [hX] at hi
  · have hsize : X.size = 0 := by simp [Tensor.size_eq,hX]
    rw [contract_eq hX hw le_rfl,if_pos rfl,hsize]
    simp [Tensor.reshape,ordered,signSplitProduct,hlarge]

end Interval
end Sensitivity
