import Sensitivity.Proofs.Cell
import Sensitivity.Proofs.Sound.Enclosure

/-! Layers that keep their shape. Rectifier and dropout act cell by cell; a softmax relates each
cell to the others of its lane, which meet it with their opposite ends. -/
namespace Sensitivity

variable {X Y D E : Interval ℝ} {x δ ε : Tensor ℝ} {row : ℕ}

theorem sum_diagonal {n k : ℕ} {f s : ℕ → ℝ} {slope : ℕ → ℕ → ℝ}
    (h : ∀ i < n, slope i k = if i = k then s i else 0) (hk : k < n) :
    ∑ i ∈ Finset.range n, f i * slope i k = f k * s k := by
  have hterm : ∀ i ∈ Finset.range n, f i * slope i k = if i = k then f i * s i else 0 := by
    intro i hi
    rw [h i (Finset.mem_range.mp hi),mul_ite,mul_zero]
  rw [Finset.sum_congr rfl hterm,Finset.sum_ite_eq' _ k,if_pos (Finset.mem_range.mpr hk)]

theorem enclosesRow_diagonal {slope : ℕ → ℕ → ℝ} {s : ℕ → ℝ} (hd : D.EnclosesRow row δ)
    (hδ : δ.shape = x.shape) (hε : ε.shape = x.shape)
    (hread : ∀ k < x.shape.prod, ε.read k =
      ∑ i ∈ Finset.range δ.shape.prod, δ.read i * slope i k)
    (hdiagonal : ∀ k < x.shape.prod, ∀ i < x.shape.prod, slope i k = if i = k then s i else 0)
    (hshape : E.shape = D.shape)
    (hcell : ∀ k < x.shape.prod, row * x.shape.prod + k < D.shape.prod →
      (D.read (row * x.shape.prod + k)).Contains (δ.read k) →
        (E.read (row * x.shape.prod + k)).Contains (δ.read k * s k)) : E.EnclosesRow row ε := by
  obtain ⟨rows,hrows,hrow,hcells⟩ := hd
  rw [hδ] at hrows hcells
  refine ⟨rows,by rw [hshape,hrows,hε],hrow,fun k hk => ?_⟩
  rw [hε] at hk ⊢
  have hposition : row * x.shape.prod + k < D.shape.prod := by
    rw [hrows]
    exact Interval.row_position_lt hrow hk
  rw [hread k hk,hδ,sum_diagonal (hdiagonal k hk) hk]
  exact hcell k hk hposition (hcells k hk)

namespace Rectifier

theorem encloses_forward (hx : X.Encloses x) : (forward X).Encloses (eval x) :=
  hx.map fun _ _ h => ⟨max_le_max_right 0 h.1,max_le_max_right 0 h.2⟩

theorem stretched_self (shape : List ℕ) {i : ℕ} (h : i < shape.prod) :
    Tensor.stretched shape shape i = i := by
  induction shape generalizing i with
  | nil =>
    simp only [List.prod_nil,Nat.lt_one_iff] at h
    simp [Tensor.stretched,h]
  | cons n shape ih =>
    rw [List.prod_cons] at h
    have hpos : 0 < shape.prod := Nat.pos_of_ne_zero fun h0 => by simp [h0] at h
    have hfirst : (if n = 1 then 0 else i / shape.prod) = i / shape.prod := by
      split
      next hn =>
        rw [hn,Nat.one_mul] at h
        exact (Nat.div_eq_of_lt h).symm
      next => rfl
    rw [Tensor.stretched,hfirst,ih (Nat.mod_lt i hpos),Nat.div_add_mod']

theorem contains_slope {a d : Bound ℝ} {u v s : ℝ} (ha : a.Contains v) (hd : d.Contains u)
    (hs : IsSlope v s) : (slope a d).Contains (u * s) := by
  obtain ⟨hpositive,hnegative,hs0,hs1⟩ := hs
  unfold slope
  split
  next h =>
    rw [hpositive (h.trans_le ha.1),mul_one]
    exact hd
  next =>
  split
  next h =>
    rw [hnegative (ha.2.trans_lt h),mul_zero]
    exact Bound.contains_zero
  next =>
    rw [mul_comm]
    exact Bound.contains_hullWithZero hd hs0 hs1

theorem enclosesRow_backward (hx : X.Encloses x) (hd : D.EnclosesRow row δ)
    (hδ : δ.shape = x.shape) (he : backward X D = .ok E)
    (hε : Transform.relu.Reverses x δ ε) : E.EnclosesRow row ε := by
  obtain ⟨hshape,slopes,hslope,hread⟩ := hε
  choose! s hs hslope using hslope
  have ⟨rows,hrows,_⟩ := hd
  obtain ⟨rows',shape,hshape',-,rfl⟩ := backward_eq_ok_iff.mp he
  obtain ⟨rfl,rfl⟩ := List.cons.inj (hrows.symm.trans hshape')
  refine enclosesRow_diagonal hd hδ hshape hread (fun k _ i hi => hslope i hi k) rfl
    fun k hk hposition hcell => ?_
  rw [Tensor.read_ofFn _ _ hposition,hδ,hx.1,Nat.mul_add_mod_of_lt hk,stretched_self _ hk]
  exact contains_slope (hx.2 k hk) hcell (hs k hk)

end Rectifier

namespace Dropout

theorem contains_scaled {b : Bound ℝ} {v : ℝ} (hb : b.Contains v) (s : ℝ) :
    (if 0 ≤ s then (⟨b.lower * s,b.upper * s⟩ : Bound ℝ)
      else ⟨b.upper * s,b.lower * s⟩).Contains (v * s) := by
  split
  next hs => exact ⟨mul_le_mul_of_nonneg_right hb.1 hs,mul_le_mul_of_nonneg_right hb.2 hs⟩
  next hs =>
    have hs' := (not_le.mp hs).le
    exact ⟨mul_le_mul_of_nonpos_right hb.2 hs',mul_le_mul_of_nonpos_right hb.1 hs'⟩

theorem encloses_forward (hx : X.Encloses x) (keep : ℝ) :
    (X.scale keep).Encloses (x.map (· * keep)) :=
  hx.map fun _ _ h => contains_scaled h keep

theorem hasSlopes (keep : ℝ) (x : Tensor ℝ) :
    (Transform.dropout keep).HasSlopes x fun i k => if i = k then keep else 0 := by
  intro i hi k hk
  have hi : i < x.shape.prod := hi
  have hread : ∀ v, ((x.update k v).map (· * keep)).read i = (x.update k v).read i * keep :=
    fun v => Tensor.read_map _ _ hi
  simp only [Transform.eval,hread]
  refine ((Tensor.hasDerivAt_read_update k (x.read k) hi).mul_const keep).congr_deriv ?_
  rw [ite_mul,one_mul,zero_mul]

theorem enclosesRow_backward {keep : ℝ} (hd : D.EnclosesRow row δ) (hδ : δ.shape = x.shape)
    (hε : (Transform.dropout keep).Reverses x δ ε) : (D.scale keep).EnclosesRow row ε := by
  obtain ⟨hshape,slope,hslope,hread⟩ := hε
  refine enclosesRow_diagonal (s := fun _ => keep) hd hδ hshape hread
    (fun k hk i hi => (hslope i hi k hk).unique (hasSlopes keep x i hi k hk)) rfl
    fun k _ hposition hcell => ?_
  rw [Interval.scale,Tensor.read_map _ _ hposition]
  exact contains_scaled hcell keep

end Dropout

namespace Softmax

theorem sumFromEnd_eq (l : List ℝ) : sumFromEnd l = l.sum := by
  induction l with
  | nil => rfl
  | cons v l ih => rw [sumFromEnd,ih,List.sum_cons,add_comm]

theorem getElem?_exclusiveSums (l : List ℝ) (before : ℝ) (j : ℕ) :
    (exclusiveSums before l)[j]? = l[j]?.map fun v => before + l.sum - v := by
  induction l generalizing before j with
  | nil => rfl
  | cons v l ih =>
    cases j with
    | zero =>
      simp only [exclusiveSums,sumFromEnd_eq,List.getElem?_cons_zero,Option.map_some,List.sum_cons]
      congr 1
      ring
    | succ j =>
      simp only [exclusiveSums,List.getElem?_cons_succ,ih,List.sum_cons,add_assoc]

theorem share_le_share {u v others more : ℝ} (hu : 0 < u) (huv : u ≤ v) (hothers : 0 ≤ others)
    (hmore : others ≤ more) (a b : ℝ) : share u more a ≤ share v others b := by
  have hpos : 0 < u + more := add_pos_of_pos_of_nonneg hu (hothers.trans hmore)
  have hpos' : 0 < v + others := add_pos_of_pos_of_nonneg (hu.trans_le huv) hothers
  unfold share
  rw [if_pos hpos,if_pos hpos',div_le_div_iff₀ hpos hpos']
  nlinarith [mul_le_mul huv hmore hothers (hu.le.trans huv)]

/-- The sum of the exponentials of all values but one. -/
noncomputable def others (n : ℕ) (v : ℕ → ℝ) (j : ℕ) : ℝ :=
  ∑ l ∈ Finset.range n, Real.exp (v l) - Real.exp (v j)

theorem others_nonneg {n j : ℕ} (v : ℕ → ℝ) (hj : j < n) : 0 ≤ others n v j :=
  sub_nonneg.mpr (Finset.single_le_sum (f := fun l => Real.exp (v l))
    (fun _ _ => (Real.exp_pos _).le) (Finset.mem_range.mpr hj))

theorem others_le_others {n j : ℕ} {v w : ℕ → ℝ} (h : ∀ l < n, v l ≤ w l) (hj : j < n) :
    others n v j ≤ others n w j := by
  have hterm := Finset.single_le_sum (f := fun l => Real.exp (w l) - Real.exp (v l))
    (fun l hl => sub_nonneg.mpr (Real.exp_le_exp.mpr (h l (Finset.mem_range.mp hl))))
    (Finset.mem_range.mpr hj)
  rw [Finset.sum_sub_distrib] at hterm
  unfold others
  linarith

/-- The shift of a lane cancels in the quotient. -/
theorem share_shift {n j : ℕ} (hj : j < n) (v : ℕ → ℝ) (u shift fallback : ℝ) :
    share (Real.exp (u - shift)) (others n (fun l => v l - shift) j) fallback =
      share (Real.exp u) (others n v j) 0 := by
  have hpos : ∀ (w : ℕ → ℝ) (u : ℝ), 0 < Real.exp u + others n w j :=
    fun w u => add_pos_of_pos_of_nonneg (Real.exp_pos u) (others_nonneg w hj)
  unfold share
  rw [if_pos (hpos (fun l => v l - shift) (u - shift)),if_pos (hpos v u)]
  simp only [others,Real.exp_sub,← Finset.sum_div,← sub_div,← add_div]
  rw [div_div_div_cancel_right₀ (Real.exp_pos shift).ne']

theorem getElem?_lane {n j : ℕ} (b : ℕ → Bound ℝ) (hj : j < n) :
    (lane ((List.range n).map b))[j]? = some (Bound.ordered
      ⟨share (Real.exp (b j).lower) (others n (fun l => (b l).upper) j) 0,
      share (Real.exp (b j).upper) (others n (fun l => (b l).lower) j) 0⟩) := by
  let shift := Scalar.greatest ((List.range n).map (Bound.upper ∘ b))
  rw [← share_shift hj (fun l => (b l).upper) (b j).lower shift 0,
    ← share_shift hj (fun l => (b l).lower) (b j).upper shift 1]
  simp only [lane,List.getElem?_map,List.getElem?_zipWith,getElem?_exclusiveSums,List.map_map,
    List.getElem?_range hj,Option.map_some,Function.comp_apply,zero_add]
  rfl

/-- The bounds of a lane hold the softmax of any values in the bounds that it starts from. -/
theorem contains_lane {n j : ℕ} {b : ℕ → Bound ℝ} {v : ℕ → ℝ} (h : ∀ l < n, (b l).Contains (v l))
    (hj : j < n) : ∃ a, (lane ((List.range n).map b))[j]? = some a ∧
      a.Contains (Real.exp (v j) / ∑ l ∈ Finset.range n, Real.exp (v l)) := by
  refine ⟨_,getElem?_lane b hj,Bound.contains_ordered ?_⟩
  have hvalue : Real.exp (v j) / ∑ l ∈ Finset.range n, Real.exp (v l) =
      share (Real.exp (v j)) (others n v j) 0 := by
    rw [share,if_pos (add_pos_of_pos_of_nonneg (Real.exp_pos _) (others_nonneg v hj)),others,
      add_sub_cancel]
  rw [hvalue]
  constructor
  · exact share_le_share (Real.exp_pos _) (Real.exp_le_exp.mpr (h j hj).1) (others_nonneg v hj)
      (others_le_others (fun l hl => (h l hl).2) hj) _ _
  · exact share_le_share (Real.exp_pos _) (Real.exp_le_exp.mpr (h j hj).2) (others_nonneg _ hj)
      (others_le_others (fun l hl => (h l hl).1) hj) _ _

theorem encloses_forward (hx : X.Encloses x) (hy : forward X = .ok Y) : Y.Encloses (eval x) := by
  obtain ⟨hshape,n,hn,hprod,hcells⟩ := read_of_forward hy
  refine ⟨hshape.trans hx.1,fun i hi => ?_⟩
  have hi : i < x.shape.prod := hi
  obtain ⟨hpos,hcell⟩ := hcells i (hx.1 ▸ hi)
  have hr : i / n < x.shape.dropLast.prod :=
    (Nat.div_lt_iff_lt_mul hpos).mpr (by rwa [← hx.1,← hprod,hx.1])
  have hlane : ∀ l < n, (X.read (i / n * n + l)).Contains (x.read (i / n * n + l)) := by
    intro l hl
    refine hx.2 _ ?_
    rw [← hx.1,hprod,hx.1]
    exact Interval.row_position_lt hr hl
  obtain ⟨a,ha,hcontains⟩ := contains_lane hlane (Nat.mod_lt i hpos)
  rw [Nat.div_add_mod'] at hcontains
  rw [hcell,ha,eval,Tensor.read_ofFn _ _ hi,← hx.1,hn]
  exact hcontains

theorem enclosesRow_backward (hd : D.EnclosesRow row δ) (hδ : δ.shape = x.shape)
    (hε : Transform.softmax.Reverses x δ ε) : D.EnclosesRow row ε := by
  obtain ⟨hshape,slope,hslope,hread⟩ := hε
  refine enclosesRow_diagonal (s := fun _ => 1) hd hδ hshape hread
    (fun k _ i hi => hslope i hi k) rfl fun k _ _ hcell => ?_
  rw [mul_one]
  exact hcell

end Softmax
end Sensitivity
