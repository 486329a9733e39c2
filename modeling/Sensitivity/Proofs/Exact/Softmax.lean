import Sensitivity.Proofs.Exact.Sum
import Sensitivity.Proofs.Sound.Activation

/-! The bounds of a softmax are exact. The share of a value grows with it and falls with the others
of its lane, so it is least where this value is at its lower end and the others are at their upper
ends, and greatest where it is the other way round. -/
namespace Sensitivity

theorem Bound.ends_ordered {b : Bound ℝ} {s : Set ℝ} (hlower : b.lower ∈ s) (hupper : b.upper ∈ s) :
    b.ordered.lower ∈ s ∧ b.ordered.upper ∈ s := by
  unfold ordered
  split
  · exact ⟨hupper,hlower⟩
  · exact ⟨hlower,hupper⟩

namespace Softmax

variable {n j : ℕ} {b : ℕ → Bound ℝ} {v : ℕ → ℝ}

/-- The exponential of a value over the sum of those of its lane. -/
noncomputable def shareOf (n : ℕ) (v : ℕ → ℝ) (j : ℕ) : ℝ :=
  Real.exp (v j) / ∑ l ∈ Finset.range n, Real.exp (v l)

/-- The shares of a position in all lanes whose values lie in some bounds. -/
def shares (n : ℕ) (b : ℕ → Bound ℝ) (j : ℕ) : Set ℝ :=
  (shareOf n · j) '' {v | ∀ l < n, (b l).Contains (v l)}

theorem others_eq (hj : j < n) (v : ℕ → ℝ) :
    others n v j = ∑ l ∈ (Finset.range n).erase j, Real.exp (v l) := by
  rw [others,← Finset.sum_erase_add _ _ (Finset.mem_range.mpr hj),add_sub_cancel_right]

theorem others_update (hj : j < n) (v : ℕ → ℝ) (u : ℝ) :
    others n (Function.update v j u) j = others n v j := by
  rw [others_eq hj,others_eq hj]
  refine Finset.sum_congr rfl fun l hl => ?_
  rw [Function.update_of_ne (Finset.ne_of_mem_erase hl)]

theorem share_others (hj : j < n) (v : ℕ → ℝ) (u fallback : ℝ) :
    share (Real.exp u) (others n v j) fallback = shareOf n (Function.update v j u) j := by
  rw [share,if_pos (add_pos_of_pos_of_nonneg (Real.exp_pos u) (others_nonneg v hj)),shareOf,
    Function.update_self,← others_update hj v u,others,Function.update_self,add_sub_cancel]

theorem shareOf_mem_Icc (hj : j < n) (v : ℕ → ℝ) : shareOf n v j ∈ Set.Icc 0 1 := by
  have hvalue : Real.exp (v j) ≤ ∑ l ∈ Finset.range n, Real.exp (v l) :=
    Finset.single_le_sum (f := fun l => Real.exp (v l)) (fun _ _ => (Real.exp_pos _).le)
      (Finset.mem_range.mpr hj)
  have hsum := (Real.exp_pos (v j)).trans_le hvalue
  exact ⟨div_nonneg (Real.exp_pos _).le hsum.le,(div_le_one hsum).mpr hvalue⟩

theorem shareOf_update_mem {u : ℝ} (hv : ∀ l < n, (b l).Contains (v l)) (hu : (b j).Contains u) :
    shareOf n (Function.update v j u) j ∈ shares n b j := by
  refine ⟨_,fun l hl => ?_,rfl⟩
  by_cases hlj : l = j
  · rw [hlj,Function.update_self]
    exact hu
  · rw [Function.update_of_ne hlj]
    exact hv l hl

theorem isRange_lane (hb : ∀ l < n, (b l).InOrder) (hj : j < n) :
    ∃ a, (lane ((List.range n).map b))[j]? = some a ∧ a.IsRange (shares n b j) := by
  have hlower : ∀ l < n, (b l).Contains (b l).lower := fun l hl => ⟨le_rfl,hb l hl⟩
  have hupper : ∀ l < n, (b l).Contains (b l).upper := fun l hl => ⟨hb l hl,le_rfl⟩
  have hcell := getElem?_lane b hj
  rw [share_others hj,share_others hj] at hcell
  obtain ⟨hleast,hgreatest⟩ := Bound.ends_ordered
    (b := ⟨shareOf n (Function.update (fun l => (b l).upper) j (b j).lower) j,
      shareOf n (Function.update (fun l => (b l).lower) j (b j).upper) j⟩)
    (shareOf_update_mem hupper (hlower j hj)) (shareOf_update_mem hlower (hupper j hj))
  refine ⟨_,hcell,Bound.isRange_of_contains hleast hgreatest ?_⟩
  rintro _ ⟨v,hv,rfl⟩
  obtain ⟨a,ha,hcontains⟩ := contains_lane hv hj
  rw [Option.some.inj (hcell.symm.trans ha)]
  exact hcontains

/-- The running sums from both sides leave out one value each. -/
theorem exclusiveSums_eq (l : List ℝ) : exclusiveSums 0 l =
    (List.range l.length).map fun i => ∑ k ∈ (Finset.range l.length).erase i, l.getD k 0 := by
  refine List.ext_getElem? fun i => ?_
  rw [getElem?_exclusiveSums,List.getElem?_map]
  by_cases hi : i < l.length
  · have hsum : l.sum = ∑ k ∈ Finset.range l.length, l.getD k 0 := by
      rw [Finset.sum_range,← Fin.sum_univ_getElem]
      exact Finset.sum_congr rfl fun k _ => (List.getD_eq_getElem l 0 k.isLt).symm
    rw [List.getElem?_range hi,List.getElem?_eq_getElem hi,Option.map_some,Option.map_some,hsum,
      ← Finset.sum_erase_add _ _ (Finset.mem_range.mpr hi),List.getD_eq_getElem _ _ hi,zero_add,
      add_sub_cancel_right]
  · rw [List.getElem?_eq_none (not_lt.mp hi),List.getElem?_eq_none (by simpa using hi)]
    rfl

/-- A softmax of any rank succeeds, and each of its cells has the exact range of the share of that
cell in its lane, between zero and one. So the bounds hold the softmax of every tensor inside those
they start from. -/
theorem exact_of_inOrder {X : Interval ℝ} {lead : List ℕ} (hX : X.shape = lead ++ [n])
    (hord : X.All Bound.InOrder) :
    (∃ Y, forward X = .ok Y ∧ Y.shape = X.shape ∧ (∀ x, X.Encloses x → Y.Encloses (eval x)) ∧
      ∀ r < lead.prod, ∀ j < n,
        (Y.read (r * n + j)).IsRange (shares n (fun l => X.read (r * n + l)) j) ∧
          0 ≤ (Y.read (r * n + j)).lower ∧ (Y.read (r * n + j)).upper ≤ 1) ∧
    ∀ l : List ℝ, exclusiveSums 0 l =
      (List.range l.length).map fun i => ∑ k ∈ (Finset.range l.length).erase i, l.getD k 0 := by
  refine ⟨?_,exclusiveSums_eq⟩
  have hlast : X.shape.getLast? = some n := by simp [hX]
  obtain ⟨Y,hY⟩ : ∃ Y, forward X = .ok Y := by
    simp only [forward,hlast]
    exact ⟨_,rfl⟩
  obtain ⟨hshape,n',hn,-,hcells⟩ := read_of_forward hY
  obtain rfl := Option.some.inj (hlast.symm.trans hn)
  refine ⟨Y,hY,hshape,fun x hx => encloses_forward hx hY,fun r hr j hj => ?_⟩
  have hposition : ∀ l < n, r * n + l < X.shape.prod := by
    intro l hl
    simpa [hX] using Interval.row_position_lt hr hl
  obtain ⟨a,ha,hrange⟩ := isRange_lane (fun l hl => hord _ (hposition l hl)) hj
  have hcell := (hcells _ (hposition j hj)).2
  rw [ImageShape.mul_add_div_of_lt hj,Nat.mul_add_mod_of_lt hj,ha,Option.getD_some] at hcell
  rw [hcell]
  obtain ⟨u,-,hlower⟩ := hrange.least.1
  obtain ⟨v,-,hupper⟩ := hrange.greatest.1
  exact ⟨hrange,hlower ▸ (shareOf_mem_Icc hj u).1,hupper ▸ (shareOf_mem_Icc hj v).2⟩

/-- Two lanes of two cells, one of them a single value. -/
theorem exact_of_inOrder_pair : ∃ X Y : Interval ℝ, X.shape = [2] ++ [2] ∧ X.All Bound.InOrder ∧
    X.read 2 = ⟨3,3⟩ ∧ X.read 3 = ⟨0,4⟩ ∧ forward X = .ok Y ∧
      (Y.read 3).IsRange (shares 2 (fun l => X.read (2 + l)) 1) := by
  let X : Interval ℝ := ⟨[2,2],#[⟨0,1⟩,⟨-1,2⟩,⟨3,3⟩,⟨0,4⟩],rfl⟩
  have hX : X.shape = [2] ++ [2] := rfl
  have hord : X.All Bound.InOrder := by
    intro i hi
    have hi : i < 4 := hi
    interval_cases i <;> norm_num [X,Tensor.read,Bound.InOrder]
  obtain ⟨⟨Y,hY,-,-,hrange⟩,-⟩ := exact_of_inOrder hX hord
  exact ⟨X,Y,hX,hord,rfl,rfl,hY,(hrange 1 (by decide) 1 (by decide)).1⟩

end Softmax
end Sensitivity
