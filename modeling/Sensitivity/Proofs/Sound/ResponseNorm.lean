import Sensitivity.Proofs.Cell
import Sensitivity.Proofs.Sound.Enclosure
import Sensitivity.Proofs.Sound.Norm

/-! Response norms over an image. Each position is a column of channels; a channel is bounded
with the squares of its neighbours, apart from those that it moves with, as an offset. -/
namespace Sensitivity

namespace ResponseNormTransform

variable {t : ResponseNormTransform ℝ} {X Y D E : Interval ℝ} {x δ ε : Tensor ℝ} {row : ℕ}
  {v : ℕ → ℝ} {squares column : Array (Bound ℝ)} {c j l y z : ℕ} {skipped more : List ℕ}

theorem mem_nearby : j ∈ t.nearby c ↔ j < t.image.channels ∧
    j ≤ c + t.layer.localRange / 2 ∧ c ≤ j + t.layer.localRange / 2 := by
  simp [nearby]

theorem self_mem_nearby (hc : c < t.image.channels) : c ∈ t.nearby c := by
  rw [mem_nearby]
  omega

theorem mem_window_iff : ((t.layer.window c t.image.channels).1 ≤ j ∧
    j < (t.layer.window c t.image.channels).2) ↔ j ∈ t.nearby c := by
  rw [mem_nearby,ResponseNorm.window]
  omega

theorem sum_window (f : ℕ → ℝ) :
    ((span (t.layer.window c t.image.channels)).map f).sum = ∑ j ∈ t.nearby c, f j := by
  rw [span,← List.sum_toFinset f List.nodup_range']
  refine Finset.sum_congr (Finset.ext fun j => ?_) fun _ _ => rfl
  rw [List.mem_toFinset,List.mem_range'_1,← mem_window_iff]
  omega

/-- What the channels nearby add to the offset, some of them left out. -/
noncomputable def offsetAt (t : ResponseNormTransform ℝ) (v : ℕ → ℝ) (c : ℕ) (skipped : List ℕ) :
    ℝ :=
  t.layer.offset + t.layer.alpha * ∑ j ∈ t.nearby c, if j ∈ skipped then 0 else v j ^ 2

theorem offsetAt_skip (hj : j ∈ t.nearby c) (hskipped : j ∉ skipped)
    (hmore : ∀ l, l ∈ more ↔ l = j ∨ l ∈ skipped) :
    t.offsetAt v c skipped = t.offsetAt v c more + t.layer.alpha * v j ^ 2 := by
  have hrest : ∀ l ∈ (t.nearby c).erase j, (if l ∈ skipped then 0 else v l ^ 2) =
      if l ∈ more then 0 else v l ^ 2 := by
    intro l hl
    exact if_congr (by simp [hmore,Finset.ne_of_mem_erase hl]) rfl rfl
  have hj' : j ∈ more := (hmore j).mpr (.inl rfl)
  simp only [offsetAt,← Finset.add_sum_erase _ _ hj,if_neg hskipped,if_pos hj',
    Finset.sum_congr rfl hrest]
  ring

theorem contains_denominator (ht : t.layer.Defined) (hsize : squares.size = t.image.channels)
    (h : ∀ j < t.image.channels, (squares.getD j 0).Contains (v j ^ 2)) :
    (t.layer.denominator squares c skipped).Contains (t.offsetAt v c skipped) := by
  have hfold : ((span (t.layer.window c t.image.channels)).foldl
      (fun (s : Bound ℝ) j => if j ∈ skipped then s else s.add (squares.getD j 0)) 0).Contains
        ((span (t.layer.window c t.image.channels)).map fun j =>
          if j ∈ skipped then 0 else v j ^ 2).sum := by
    refine Bound.contains_foldl_zero fun j hj acc u hacc => ?_
    rw [span,List.mem_range'_1] at hj
    have hj' : j ∈ t.nearby c := mem_window_iff.mp ⟨hj.1,by omega⟩
    split
    · rwa [add_zero]
    · exact Bound.contains_add hacc (h j (mem_nearby.mp hj').1)
  rw [sum_window] at hfold
  simp only [ResponseNorm.denominator,hsize]
  exact ⟨add_le_add_right (mul_le_mul_of_nonneg_left hfold.1 ht.alpha_nonneg) _,
    add_le_add_right (mul_le_mul_of_nonneg_left hfold.2 ht.alpha_nonneg) _⟩

theorem denominator_lower_pos (ht : t.layer.Defined) (h : ∀ j, 0 ≤ (squares.getD j 0).lower) :
    0 < (t.layer.denominator squares c skipped).lower := by
  have hfold : ∀ (l : List ℕ) (acc : Bound ℝ), 0 ≤ acc.lower →
      0 ≤ (l.foldl (fun s j => if j ∈ skipped then s else s.add (squares.getD j 0)) acc).lower := by
    intro l
    induction l with
    | nil => exact fun acc hacc => hacc
    | cons j l ih =>
      intro acc hacc
      refine ih _ ?_
      beta_reduce
      split
      · exact hacc
      · exact add_nonneg hacc (h j)
  exact add_pos_of_pos_of_nonneg ht.offset_pos
    (mul_nonneg ht.alpha_nonneg (hfold (span (t.layer.window c squares.size)) 0 le_rfl))

theorem denominator_squares_pos (ht : t.layer.Defined) (column : Array (Bound ℝ)) (c : ℕ)
    (skipped : List ℕ) : 0 < (t.layer.denominator (column.map Bound.square) c skipped).lower := by
  refine denominator_lower_pos ht fun j => ?_
  rw [Array.getD_eq_getD_getElem?,Array.getElem?_map]
  cases column[j]? with
  | none => exact le_rfl
  | some b => exact ResponseNorm.square_lower_nonneg b

/-- Bounds around the channels at one position. -/
structure Around (t : ResponseNormTransform ℝ) (column : Array (Bound ℝ)) (v : ℕ → ℝ) : Prop where
  size : column.size = t.image.channels
  contains : ∀ c < t.image.channels, (column.getD c 0).Contains (v c)

namespace Around

theorem denominator (ht : t.layer.Defined) (h : t.Around column v) (c : ℕ) (skipped : List ℕ) :
    (t.layer.denominator (column.map Bound.square) c skipped).Contains
      (t.offsetAt v c skipped) := by
  refine contains_denominator ht (by simp [h.size]) fun j hj => ?_
  have hsquare := Bound.contains_square (h.contains j hj)
  rw [← sq] at hsquare
  simpa [Array.getD_eq_getD_getElem?,h.size,hj] using hsquare

theorem output (ht : t.layer.Defined) (h : t.Around column v) (hc : c < t.image.channels) :
    ((t.layer.outputs column).getD c 0).Contains
      (v c / (t.offsetAt v c []) ^ t.layer.beta) := by
  have hskip : t.offsetAt v c [] = t.offsetAt v c [c] + t.layer.alpha * v c ^ 2 :=
    offsetAt_skip (self_mem_nearby hc) List.not_mem_nil (by simp)
  rw [getD_outputs t.layer (h.size.symm ▸ hc),hskip,sq,← mul_assoc]
  exact ResponseNorm.contains_output ht.alpha_nonneg ht.beta_nonneg
    (denominator_squares_pos ht column c [c]) (h.contains c hc) (h.denominator ht c [c])

/-- How output channel `c` moves with channel `j`. -/
noncomputable def slope (t : ResponseNormTransform ℝ) (v : ℕ → ℝ) (c j : ℕ) : ℝ :=
  ((if c = j then 1 else 0) * t.offsetAt v c [] -
    t.layer.beta * v c * (t.layer.alpha * if j ∈ t.nearby c then 2 * v j else 0)) /
      t.offsetAt v c [] ^ (t.layer.beta + 1)

theorem slope_of_notMem (hc : c < t.image.channels) (hj : j ∉ t.nearby c) : slope t v c j = 0 := by
  have hne : c ≠ j := by
    rintro rfl
    exact hj (self_mem_nearby hc)
  simp [slope,hj,hne]

theorem derivative (ht : t.layer.Defined) (h : t.Around column v) (hc : c < t.image.channels)
    (hj : j ∈ t.nearby c) :
    (t.layer.derivative column (column.map Bound.square) c j).Contains (slope t v c j) := by
  have hoffset : t.offsetAt v c [] = t.offsetAt v c [c] + t.layer.alpha * v c ^ 2 :=
    offsetAt_skip (self_mem_nearby hc) List.not_mem_nil (by simp)
  unfold ResponseNorm.derivative
  split
  next heq =>
    subst heq
    have hcontains := h.denominator ht j [j]
    have hpos := denominator_squares_pos ht column j [j]
    have hself := ResponseNorm.contains_selfDerivative ht.alpha_nonneg ht.beta_nonneg hpos
      (Bound.contains_square (h.contains j hc)) hcontains
    have hslope : slope t v j j =
        ResponseNorm.selfAt t.layer.alpha t.layer.beta (v j * v j) (t.offsetAt v j [j]) := by
      rw [slope,ResponseNorm.selfAt_eq,hoffset,if_pos rfl,if_pos hj,sq]
      congr 1
      ring
    rw [hslope]
    exact hself
  next hne =>
    have hcontains := h.denominator ht c [c,j]
    have hpos := denominator_squares_pos ht column c [c,j]
    have hneighbor := ResponseNorm.contains_neighborDerivative ht.alpha_nonneg ht.beta_nonneg hpos
      (h.contains j (mem_nearby.mp hj).1) (h.contains c hc) hcontains
    -- The neighbour is left out of the offset that its bound is taken at, and comes back as a square.
    have hskip : t.offsetAt v c [c] = t.offsetAt v c [c,j] + t.layer.alpha * v j ^ 2 :=
      offsetAt_skip hj (by simpa using hne) (by simp [or_comm])
    have hslope : slope t v c j =
        ResponseNorm.neighborAt t.layer.alpha t.layer.beta (v j) (v c) (t.offsetAt v c [c,j]) := by
      rw [slope,ResponseNorm.neighborAt_eq,hoffset,hskip,if_neg (Ne.symm hne),if_pos hj,sq,sq,
        ← mul_assoc,← mul_assoc]
      congr 1
      ring
    rw [hslope]
    exact hneighbor

end Around

/-- The channels of an image at one position. -/
noncomputable def channelsAt (t : ResponseNormTransform ℝ) (x : Tensor ℝ) (y z : ℕ) : ℕ → ℝ :=
  fun c => x.pixel t.image c y z

theorem position_eq (c y z : ℕ) :
    c * t.image.area + (y * t.image.width + z) = t.image.position c y z := by
  rw [ImageShape.area,ImageShape.position]
  ring

theorem getD_column (X : Interval ℝ) (hc : c < t.image.channels) (y z : ℕ) :
    (t.column X (y * t.image.width + z)).getD c 0 =
      X.at3 t.image.height t.image.width c y z := by
  simp only [column,Array.getD_eq_getD_getElem?,Array.getElem?_ofFn,hc,dif_pos,Option.getD_some,
    position_eq]
  rfl

theorem around_column (t : ResponseNormTransform ℝ) (hx : X.Encloses x) (y z : ℕ) :
    t.Around (t.column X (y * t.image.width + z)) (t.channelsAt x y z) := by
  refine ⟨Array.size_ofFn,fun c hc => ?_⟩
  rw [getD_column X hc]
  exact hx.contains_pixel c y z

theorem eval_pixel (x : Tensor ℝ) (hc : c < t.image.channels) (hy : y < t.image.height)
    (hz : z < t.image.width) : (t.eval x).pixel t.image c y z =
      t.channelsAt x y z c / t.offsetAt (t.channelsAt x y z) c [] ^ t.layer.beta := by
  rw [eval,Tensor.pixel_ofImage _ hc hy hz]
  simp [offsetAt,channelsAt]

theorem encloses_forward (ht : t.layer.Defined) (hx : X.Encloses x) (hy : t.forward X = .ok Y) :
    Y.Encloses (t.eval x) := by
  obtain ⟨-,rfl⟩ := forward_eq_ok_iff.mp hy
  refine Interval.encloses_ofImage fun c hc y hy z hz => ?_
  have hcell := (around_column t hx y z).output ht hc
  rw [← eval_pixel x hc hy hz,eval,Tensor.pixel_ofImage _ hc hy hz] at hcell
  rw [getD_outputTable X (ImageShape.row_lt_area hy hz)]
  exact hcell

/-- How an output cell moves with a cell of the input: only with the channels at its position. -/
noncomputable def slopeAt (t : ResponseNormTransform ℝ) (x : Tensor ℝ) (c y z k : ℕ) : ℝ :=
  let v := t.channelsAt x y z
  ((if t.image.position c y z = k then 1 else 0) * t.offsetAt v c [] -
    t.layer.beta * v c * (t.layer.alpha * ∑ l ∈ t.nearby c,
      2 * v l * if t.image.position l y z = k then 1 else 0)) /
        t.offsetAt v c [] ^ (t.layer.beta + 1)

theorem offsetAt_pos (ht : t.layer.Defined) (v : ℕ → ℝ) (c : ℕ) (skipped : List ℕ) :
    0 < t.offsetAt v c skipped := by
  refine add_pos_of_pos_of_nonneg ht.offset_pos (mul_nonneg ht.alpha_nonneg ?_)
  refine Finset.sum_nonneg fun j _ => ?_
  split
  · exact le_rfl
  · exact sq_nonneg _

theorem hasCellSlopes (ht : t.layer.Defined) (hshape : x.shape = t.image.toList) :
    (Transform.responseNorm t).HasCellSlopes x t.image (t.slopeAt x) := by
  refine ⟨rfl,fun c hc y hy z hz k _ => ?_⟩
  simp only [Transform.eval,eval_pixel _ hc hy hz]
  have hchannel : ∀ l < t.image.channels, HasDerivAt (fun v => t.channelsAt (x.update k v) y z l)
      (if t.image.position l y z = k then 1 else 0) (x.read k) := by
    intro l hl
    have hlt := ImageShape.position_lt hl hy hz
    exact Tensor.hasDerivAt_read_update k (x.read k) (hshape ▸ hlt)
  have hself : ∀ l, t.channelsAt (x.update k (x.read k)) y z l = t.channelsAt x y z l := by
    intro l
    rw [Tensor.update_self]
  have hoffset : HasDerivAt (fun v => t.offsetAt (t.channelsAt (x.update k v) y z) c [])
      (t.layer.alpha * ∑ l ∈ t.nearby c,
        2 * t.channelsAt x y z l * if t.image.position l y z = k then 1 else 0) (x.read k) := by
    simp only [offsetAt,List.not_mem_nil,if_false]
    refine ((HasDerivAt.fun_sum fun l hl => ?_).const_mul _).const_add _
    have hsquare := (hchannel l (mem_nearby.mp hl).1).fun_pow 2
    refine hsquare.congr_deriv ?_
    rw [hself]
    norm_num
  have hquotient := ResponseNorm.hasDerivAt_div_rpow (hchannel c hc) hoffset
    (offsetAt_pos ht _ c []) t.layer.beta
  rw [Tensor.update_self] at hquotient
  exact hquotient

theorem slopeAt_position {y' z' : ℕ} (hy : y < t.image.height) (hz : z < t.image.width)
    (hy' : y' < t.image.height) (hz' : z' < t.image.width) :
    t.slopeAt x c y z (t.image.position j y' z') =
      if y = y' ∧ z = z' then Around.slope t (t.channelsAt x y z) c j else 0 := by
  have hposition : ∀ l, t.image.position l y z = t.image.position j y' z' ↔
      l = j ∧ y = y' ∧ z = z' := fun l => ImageShape.position_inj hy hz hy' hz'
  simp only [slopeAt,hposition]
  by_cases h : y = y' ∧ z = z'
  · simp [Around.slope,h]
  · simp [h]

theorem contains_backwardTerm (ht : t.layer.Defined) (hx : X.Encloses x)
    (hd : D.EnclosesRow row δ) (hδ : δ.shape = t.image.toList)
    (hc : c < t.image.channels) (hy : y < t.image.height) (hz : z < t.image.width)
    {acc : Bound ℝ} {u : ℝ} (hacc : acc.Contains u) :
    (t.backwardTerm (t.jacobianTable X) D row j y z acc c).Contains
      (u + δ.pixel t.image c y z * Around.slope t (t.channelsAt x y z) c j) := by
  have hcell := hd.contains_pixel hδ hc hy hz
  have haround := around_column t hx y z
  simp only [backwardTerm,mem_window_iff]
  split
  next hzero =>
    rw [Bound.eq_zero_of_isZero hcell hzero,zero_mul,add_zero]
    exact hacc
  next =>
  split
  next hj =>
    rw [getD_jacobianTable X (ImageShape.row_lt_area hy hz),
      getD_jacobian t.layer haround.size hc (mem_window_iff.mpr hj)]
    exact Bound.contains_add hacc (Bound.contains_mul hcell (haround.derivative ht hc hj))
  next hj =>
    rw [Around.slope_of_notMem hc hj,mul_zero,add_zero]
    exact hacc

theorem sum_slopeAt (hy : y < t.image.height) (hz : z < t.image.width) :
    ∑ c ∈ Finset.range t.image.channels, ∑ y' ∈ Finset.range t.image.height,
        ∑ z' ∈ Finset.range t.image.width,
          δ.pixel t.image c y' z' * t.slopeAt x c y' z' (t.image.position j y z) =
      ((List.range t.image.channels).map fun c =>
        δ.pixel t.image c y z * Around.slope t (t.channelsAt x y z) c j).sum := by
  rw [sum_map_range]
  refine Finset.sum_congr rfl fun c _ => ?_
  rw [Finset.sum_eq_single_of_mem y (Finset.mem_range.mpr hy),
    Finset.sum_eq_single_of_mem z (Finset.mem_range.mpr hz),slopeAt_position hy hz hy hz,
    if_pos ⟨rfl,rfl⟩]
  · intro z' hz' hne
    rw [slopeAt_position hy (Finset.mem_range.mp hz') hy hz,if_neg fun h => hne h.2,mul_zero]
  · intro y' hy' hne
    refine Finset.sum_eq_zero fun z' hz' => ?_
    rw [slopeAt_position (Finset.mem_range.mp hy') (Finset.mem_range.mp hz') hy hz,
      if_neg fun h => hne h.1,mul_zero]

theorem enclosesRow_backward (ht : t.layer.Defined) (hx : X.Encloses x)
    (hshape : x.shape = t.image.toList) (hd : D.EnclosesRow row δ) (hδ : δ.shape = t.image.toList)
    (he : t.backward X D = .ok E) (hε : (Transform.responseNorm t).Reverses x δ ε) :
    E.EnclosesRow row ε := by
  obtain ⟨hε,slope,hslope,hread⟩ := hε
  obtain ⟨-,rows,hrows,he⟩ := backward_eq_ok_iff.mp he
  refine Interval.enclosesRow_ofRows he (hd.row_lt hrows) (hε.trans hshape) fun j hj y hy z hz => ?_
  have hk : t.image.position j y z < x.shape.prod := hshape ▸ ImageShape.position_lt hj hy hz
  rw [Tensor.pixel_eq_read,hread _ hk,hδ,(hasCellSlopes ht hshape).sum_eq hslope hk,
    sum_slopeAt hy hz]
  exact Bound.contains_foldl_zero fun c hc acc u hacc =>
    contains_backwardTerm ht hx hd hδ (List.mem_range.mp hc) hy hz hacc

end ResponseNormTransform
end Sensitivity
