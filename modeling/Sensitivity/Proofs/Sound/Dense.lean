import Sensitivity.Proofs.Shape.Layer
import Sensitivity.Proofs.Sound.Enclosure

/-! Fully connected layers. A product with an exact matrix is bounded by meeting the positive
part of each weight with one end and the negative part with the other. -/
namespace Sensitivity

namespace Interval

theorem dotSum_eq (n : ℕ) (f g : ℕ → ℝ) : dotSum n f g = ∑ k ∈ Finset.range n, f k * g k := by
  have hfold : ∀ (l : List ℕ) (acc : ℝ),
      l.foldl (fun s k => s + f k * g k) acc = acc + (l.map fun k => f k * g k).sum := by
    intro l
    induction l with
    | nil => simp
    | cons k l ih =>
      intro acc
      rw [List.foldl_cons,ih,List.map_cons,List.sum_cons,add_assoc]
  rw [dotSum,hfold,sum_map_range,zero_add]

theorem dotSum_le_of_nonneg {n : ℕ} {f g w : ℕ → ℝ} (hw : ∀ k, 0 ≤ w k)
    (h : ∀ k < n, f k ≤ g k) : dotSum n f w ≤ dotSum n g w := by
  rw [dotSum_eq,dotSum_eq]
  exact Finset.sum_le_sum fun k hk =>
    mul_le_mul_of_nonneg_right (h k (Finset.mem_range.mp hk)) (hw k)

theorem dotSum_le_of_nonpos {n : ℕ} {f g w : ℕ → ℝ} (hw : ∀ k, w k ≤ 0)
    (h : ∀ k < n, f k ≤ g k) : dotSum n g w ≤ dotSum n f w := by
  rw [dotSum_eq,dotSum_eq]
  exact Finset.sum_le_sum fun k hk =>
    mul_le_mul_of_nonpos_right (h k (Finset.mem_range.mp hk)) (hw k)

/-- Split by the signs of the weights, a sum of products lies between its two ends. -/
theorem contains_signSplit {n : ℕ} {x : ℕ → Bound ℝ} {v : ℕ → ℝ} (w : ℕ → ℝ)
    (h : ∀ k < n, (x k).Contains (v k)) :
    (signSplit n x w).Contains (∑ k ∈ Finset.range n, v k * w k) := by
  have hsplit : ∑ k ∈ Finset.range n, v k * w k =
      dotSum n v (fun k => max (w k) 0) + dotSum n v (fun k => min (w k) 0) := by
    rw [dotSum_eq,dotSum_eq,← Finset.sum_add_distrib]
    refine Finset.sum_congr rfl fun k _ => ?_
    rw [← mul_add,max_add_min,add_zero]
  have hpositive : ∀ k, 0 ≤ max (w k) 0 := fun k => le_max_right _ _
  have hnegative : ∀ k, min (w k) 0 ≤ 0 := fun k => min_le_right _ _
  have hlower : ∀ k < n, (x k).lower ≤ v k := fun k hk => (h k hk).1
  have hupper : ∀ k < n, v k ≤ (x k).upper := fun k hk => (h k hk).2
  rw [hsplit]
  exact ⟨add_le_add (dotSum_le_of_nonneg hpositive hlower) (dotSum_le_of_nonpos hnegative hupper),
    add_le_add (dotSum_le_of_nonneg hpositive hupper) (dotSum_le_of_nonpos hnegative hlower)⟩

end Interval

namespace DenseTransform

variable {t : DenseTransform ℝ} {X Y D E : Interval ℝ} {x δ ε : Tensor ℝ} {row : ℕ}

theorem read_eval (x : Tensor ℝ) {j : ℕ} (hj : j < t.layer.outputs) :
    (t.eval x).read j = (∑ i ∈ Finset.range t.layer.inputs,
      x.read i * t.layer.weights.read (i * t.layer.outputs + j)) + t.layer.bias.getD j 0 :=
  Tensor.read_ofFn _ _ (by simpa using hj)

theorem encloses_forward (hx : X.Encloses x) (hy : t.forward X = .ok Y) : Y.Encloses (t.eval x) := by
  simp only [forward,Error.bind_eq_ok_iff] at hy
  obtain ⟨Z,hz,hy⟩ := hy
  have hflat : X.flatten.shape = [] ++ [X.shape.prod] := Tensor.shape_flatten X
  obtain ⟨hinputs,-,-,hshape,hcells⟩ :=
    (Interval.contract_eq_ok_iff hflat t.layer.shape_weights).mp hz
  obtain ⟨hbias,hshape',hcells'⟩ := Tensor.zip_eq_ok_iff.mp hy
  have houtputs : Y.shape = [t.layer.outputs] := hshape'.trans hshape
  refine ⟨houtputs,fun j hj => ?_⟩
  have hj' : j < t.layer.outputs := by simpa [eval] using hj
  rw [read_eval x hj',hcells' j (by rw [hshape]; simpa using hj'),
    hcells j (by simpa using hj'),Nat.div_eq_of_lt hj',Nat.mod_eq_of_lt hj']
  have hsum : (Interval.signSplit X.shape.prod (fun i => X.flatten.read (0 * X.shape.prod + i))
      fun i => t.layer.weights.read (i * t.layer.outputs + j)).Contains
        (∑ i ∈ Finset.range X.shape.prod,
          x.read i * t.layer.weights.read (i * t.layer.outputs + j)) := by
    refine Interval.contains_signSplit _ fun i hi => ?_
    rw [Nat.zero_mul,Nat.zero_add,Tensor.read_flatten]
    exact hx.2 i (hx.1 ▸ hi)
  have hordered := Bound.contains_ordered hsum
  rw [hinputs]
  exact ⟨add_le_add_left hordered.1 _,add_le_add_left hordered.2 _⟩

theorem hasDerivAt_eval (hinputs : x.shape.prod = t.layer.inputs) {j k : ℕ}
    (hj : j < t.layer.outputs) (hk : k < x.shape.prod) :
    HasDerivAt (fun v => (t.eval (x.update k v)).read j)
      (t.layer.weights.read (k * t.layer.outputs + j)) (x.read k) := by
  have hterm : ∀ i ∈ Finset.range t.layer.inputs,
      HasDerivAt (fun v => (x.update k v).read i * t.layer.weights.read (i * t.layer.outputs + j))
        ((if i = k then 1 else 0) * t.layer.weights.read (i * t.layer.outputs + j)) (x.read k) := by
    intro i hi
    rw [← hinputs,Finset.mem_range] at hi
    exact (Tensor.hasDerivAt_read_update k (x.read k) hi).mul_const _
  simp only [read_eval _ hj]
  refine ((HasDerivAt.fun_sum hterm).add_const _).congr_deriv ?_
  simp [← hinputs,hk]

theorem hasSlopes (hinputs : x.shape.prod = t.layer.inputs) :
    (Transform.dense t).HasSlopes x fun j k => t.layer.weights.read (k * t.layer.outputs + j) :=
  fun j hj k hk => hasDerivAt_eval hinputs (by simpa [Transform.eval,eval] using hj) hk

theorem enclosesRow_backward (hinputs : t.inputShape.prod = t.layer.inputs)
    (hd : D.EnclosesRow row δ) (hδ : δ.shape = [t.layer.outputs]) (he : t.backward D = .ok E)
    (hx : x.shape = t.inputShape) (hε : (Transform.dense t).Reverses x δ ε) :
    E.EnclosesRow row ε := by
  obtain ⟨hshape,slope,hslope,hread⟩ := hε
  obtain ⟨rows,hrows,hrow,hcells⟩ := hd
  simp only [backward,Error.bind_eq_ok_iff,Interval.rowCount_eq_ok_iff] at he
  obtain ⟨rows',hrows',Z,hz,he⟩ := he
  rw [hδ] at hrows hcells
  obtain rfl := List.head_eq_of_cons_eq (hrows'.symm.trans hrows)
  have hD : D.shape = [rows'] ++ [t.layer.outputs] := hrows
  obtain ⟨-,-,-,-,hz⟩ := (Interval.contract_eq_ok_iff hD (Tensor.shape_ofFn _ _)).mp hz
  obtain ⟨-,-,hE,he⟩ := Tensor.reshape_eq_ok_iff.mp he
  refine ⟨rows',by rw [hE,hshape,hx],hrow,fun k hk => ?_⟩
  rw [hshape,hx,hinputs] at hk
  have hposition := Interval.row_position_lt hrow hk
  rw [hshape,hx,he _ (by simpa [hinputs] using hposition),hinputs,
    hz _ (by simpa using hposition),ImageShape.mul_add_div_of_lt hk,Nat.mul_add_mod_of_lt hk,
    hread k (by rw [hx,hinputs]; exact hk)]
  refine Bound.contains_ordered ?_
  have hsum : ∑ i ∈ Finset.range δ.shape.prod, δ.read i * slope i k =
      ∑ j ∈ Finset.range t.layer.outputs,
        δ.read j * t.layer.transposed.read (j * t.layer.inputs + k) := by
    rw [hδ]
    simp only [List.prod_cons,List.prod_nil,Nat.mul_one]
    refine Finset.sum_congr rfl fun j hj => ?_
    have hj := Finset.mem_range.mp hj
    have hweight : t.layer.transposed.read (j * t.layer.inputs + k) =
        t.layer.weights.read (k * t.layer.outputs + j) := by
      rw [Dense.transposed,Tensor.read_ofFn _ _ (by simpa using Interval.row_position_lt hj hk),
        ImageShape.mul_add_div_of_lt hk,Nat.mul_add_mod_of_lt hk]
    have hk' : k < x.shape.prod := by rw [hx,hinputs]; exact hk
    rw [hweight,(hslope j (by simpa [Transform.eval,eval] using hj) k hk').unique
      (hasDerivAt_eval (by rw [hx,hinputs]) hj hk')]
  rw [hsum]
  refine Interval.contains_signSplit _ fun j hj => ?_
  have hcell := hcells j (by simpa using hj)
  simpa using hcell

end DenseTransform
end Sensitivity
