import Sensitivity.Proofs.Maximum
import Sensitivity.Proofs.Window
import Sensitivity.Proofs.Word
import Sensitivity.Proofs.Sound.Enclosure

/-! Pooling layers. The largest cell of a window is one of those whose upper end reaches the
largest lower end, so the derivative that it receives is among those that the window sends. -/
namespace Sensitivity

instance : Scalar.Ordered ℝ where
  isNumber_zero := le_rfl
  isNumber_of_le _ := ⟨le_rfl,le_rfl⟩
  le_trans := le_trans
  max_cases {v w} _ _ := (le_total w v).imp (fun h => ⟨max_eq_left h,h⟩) fun h => ⟨max_eq_right h,h⟩

namespace PoolingTransform

variable {t : PoolingTransform} {X Y D E : Interval ℝ} {x δ ε : Tensor ℝ} {row : ℕ}
  {c i j y z : ℕ} {slope : ℕ → ℕ → ℝ}

theorem mem_under {p : ℕ × ℕ} : p ∈ t.under i j ↔
    (p.1 < t.input.height ∧ p.2 < t.input.width) ∧
      (i * t.layer.stride ≤ p.1 + t.layer.padding ∧
        p.1 + t.layer.padding < i * t.layer.stride + t.layer.size) ∧
      j * t.layer.stride ≤ p.2 + t.layer.padding ∧
        p.2 + t.layer.padding < j * t.layer.stride + t.layer.size := by
  simp [under]

/-- Over an image with rows and columns no window lies in the padding alone, so a maximum is
always one of some cells. -/
theorem under_nonempty (ht : t.Resolved ℝ) (hheight : 0 < t.input.height)
    (hwidth : 0 < t.input.width) (hi : i < t.output.height) (hj : j < t.output.width) :
    (t.under i j).Nonempty := by
  have hy := Window.end_le ht.output_height hi
  have hz := Window.end_le ht.output_width hj
  have hpadding := ht.padding_lt
  refine ⟨(i * t.layer.stride - t.layer.padding,j * t.layer.stride - t.layer.padding),
    mem_under.mpr ⟨⟨?_,?_⟩,⟨?_,?_⟩,?_,?_⟩⟩
  all_goals dsimp only; omega

theorem mem_window_iff {α : Type} (ht : t.Resolved α) :
    (y,z) ∈ t.window i j ↔ (y,z) ∈ t.under i j := by
  have hpadding := ht.padding_lt
  simp only [window,Pooling.window,Window.cells,span,List.mem_flatMap,List.mem_map,Prod.mk.injEq,
    List.mem_range'_1,exists_eq_right_right,mem_under]
  omega

theorem nodup_window (t : PoolingTransform) (i j : ℕ) : (t.window i j).Nodup := by
  have hproduct : t.window i j =
      (t.layer.window i t.input.height).product (t.layer.window j t.input.width) := rfl
  rw [hproduct]
  exact List.Nodup.product List.nodup_range' List.nodup_range'

theorem sum_window (ht : t.Resolved ℝ) (f : ℕ × ℕ → ℝ) :
    ((t.window i j).map f).sum = ∑ p ∈ t.under i j, f p := by
  rw [← List.sum_toFinset f (t.nodup_window i j)]
  refine Finset.sum_congr (Finset.ext fun p => ?_) fun _ _ => rfl
  rw [List.mem_toFinset]
  exact mem_window_iff ht

theorem windowBounds_eq_nil (ht : t.Resolved ℝ) (X : Interval ℝ) (c i j : ℕ) :
    t.windowBounds X c i j = [] ↔ t.under i j = ∅ := by
  rw [windowBounds,List.map_eq_nil_iff,List.eq_nil_iff_forall_not_mem,
    Finset.eq_empty_iff_forall_notMem]
  exact forall_congr' fun p => not_congr (mem_window_iff ht)

theorem cast_area (hmode : t.layer.mode = .avg) (harea : t.layer.AreaInWord) :
    (t.area : ℝ) = t.layer.size * t.layer.size := by
  rw [area_eq_mul hmode harea,Nat.cast_mul]

theorem contains_greatest (ht : t.Resolved ℝ) (hx : X.Encloses x) (c i j : ℕ) :
    (⟨Scalar.greatest ((t.windowBounds X c i j).map Bound.lower),
      Scalar.greatest ((t.windowBounds X c i j).map Bound.upper)⟩ : Bound ℝ).Contains
        (sSup (Set.image (fun p : ℕ × ℕ => x.pixel t.input c p.1 p.2) (t.under i j))) := by
  rcases eq_or_ne (t.windowBounds X c i j) [] with hnil | hne
  · rw [hnil,(windowBounds_eq_nil ht X c i j).mp hnil,Finset.coe_empty,Set.image_empty,
      Real.sSup_empty]
    exact Bound.contains_zero
  have hlower := Scalar.greatest_spec (l := (t.windowBounds X c i j).map Bound.lower) (by simpa)
    fun _ _ => le_rfl
  have hupper := Scalar.greatest_spec (l := (t.windowBounds X c i j).map Bound.upper) (by simpa)
    fun _ _ => le_rfl
  simp only [windowBounds,List.mem_map,List.map_map,Function.comp_def] at hlower hupper
  constructor
  · obtain ⟨p,hp,hbest⟩ := hlower.1
    have hfinite := (t.under i j).finite_toSet.image fun p : ℕ × ℕ => x.pixel t.input c p.1 p.2
    have hmem := Set.mem_image_of_mem (fun p : ℕ × ℕ => x.pixel t.input c p.1 p.2)
      (Finset.mem_coe.mpr ((mem_window_iff ht).mp hp))
    simp only [windowBounds,List.map_map,Function.comp_def]
    rw [← hbest]
    exact (hx.contains_pixel c p.1 p.2).1.trans (le_csSup hfinite.bddAbove hmem)
  · have hnonempty : (t.under i j).Nonempty :=
      Finset.nonempty_iff_ne_empty.mpr fun h => hne ((windowBounds_eq_nil ht X c i j).mpr h)
    refine csSup_le ((Finset.coe_nonempty.mpr hnonempty).image _) ?_
    rintro _ ⟨p,hp,rfl⟩
    have hp' := (mem_window_iff ht).mpr (Finset.mem_coe.mp hp)
    simp only [windowBounds,List.map_map,Function.comp_def]
    exact (hx.contains_pixel c p.1 p.2).2.trans (hupper.2 _ ⟨p,hp',rfl⟩)

theorem contains_average (ht : t.Resolved ℝ) (hmode : t.layer.mode = .avg)
    (harea : t.layer.AreaInWord) (hx : X.Encloses x) (c i j : ℕ) :
    (⟨((t.windowBounds X c i j).foldl Bound.add 0).lower / t.area,
      ((t.windowBounds X c i j).foldl Bound.add 0).upper / t.area⟩ : Bound ℝ).Contains
        ((∑ p ∈ t.under i j, x.pixel t.input c p.1 p.2) / (t.layer.size * t.layer.size)) := by
  have hfold : ((t.window i j).foldl
      (fun (acc : Bound ℝ) p => acc.add (X.at3 t.input.height t.input.width c p.1 p.2)) 0).Contains
        ((t.window i j).map fun p => x.pixel t.input c p.1 p.2).sum :=
    Bound.contains_foldl_zero fun p _ acc u hacc =>
      Bound.contains_add hacc (hx.contains_pixel c p.1 p.2)
  rw [sum_window ht] at hfold
  have hpos : (0 : ℝ) ≤ t.area := Nat.cast_nonneg _
  rw [windowBounds,List.foldl_map,← cast_area hmode harea]
  exact ⟨div_le_div_of_nonneg_right hfold.1 hpos,div_le_div_of_nonneg_right hfold.2 hpos⟩

theorem encloses_forward (ht : t.Resolved ℝ) (harea : t.layer.AreaInWord) (hx : X.Encloses x)
    (hy : t.forward X = .ok Y) : Y.Encloses (t.eval x) := by
  obtain ⟨-,rfl⟩ := forward_eq_ok_iff.mp hy
  refine Interval.encloses_ofImage fun c _ i _ j _ => ?_
  unfold forwardCell
  cases hmode : t.layer.mode with
  | max => exact contains_greatest ht hx c i j
  | avg => exact contains_average ht hmode harea hx c i j

/-- Only windows over the same channel pass something back to a cell. -/
theorem sum_channel {s : ℕ → ℕ → ℕ → ℝ} (hc : c < t.output.channels)
    (h : ∀ c' < t.output.channels, c' ≠ c → ∀ i < t.output.height, ∀ j < t.output.width,
      s c' i j = 0) :
    ∑ c' ∈ Finset.range t.output.channels, ∑ i ∈ Finset.range t.output.height,
        ∑ j ∈ Finset.range t.output.width, δ.pixel t.output c' i j * s c' i j =
      ((grid2 t.output.height t.output.width).map fun out =>
        δ.pixel t.output c out.1 out.2 * s c out.1 out.2).sum := by
  rw [sum_map_grid2]
  refine Finset.sum_eq_single_of_mem c (Finset.mem_range.mpr hc) fun c' hc' hne => ?_
  refine Finset.sum_eq_zero fun i hi => Finset.sum_eq_zero fun j hj => ?_
  rw [Finset.mem_range] at hc' hi hj
  rw [h c' hc' hne i hi j hj,mul_zero]

section Average

/-- How an output cell of an average moves with a cell of the input. -/
noncomputable def averageSlope (t : PoolingTransform) (c i j k : ℕ) : ℝ :=
  (∑ p ∈ t.under i j, if t.input.position c p.1 p.2 = k then 1 else 0) /
    (t.layer.size * t.layer.size)

theorem averageSlope_position (hy : y < t.input.height) (hz : z < t.input.width) {c' : ℕ} :
    t.averageSlope c' i j (t.input.position c y z) =
      if c' = c ∧ (y,z) ∈ t.under i j then (1 : ℝ) / (t.layer.size * t.layer.size) else 0 := by
  have hterm : ∀ p ∈ t.under i j,
      (if t.input.position c' p.1 p.2 = t.input.position c y z then (1 : ℝ) else 0) =
        if c' = c then if (y,z) = p then 1 else 0 else 0 := by
    intro p hp
    obtain ⟨⟨hp1,hp2⟩,-⟩ := mem_under.mp hp
    rw [← ite_and]
    refine if_congr ?_ rfl rfl
    rw [ImageShape.position_inj hp1 hp2 hy hz,Prod.ext_iff]
    tauto
  rw [averageSlope,Finset.sum_congr rfl hterm]
  by_cases hc : c' = c
  · simp only [hc,if_true,true_and,Finset.sum_ite_eq,ite_div,zero_div]
  · simp [hc]

theorem hasCellSlopes (ht : t.Resolved ℝ) (hshape : x.shape = t.input.toList)
    (hmode : t.layer.mode = .avg) :
    (Transform.pooling t).HasCellSlopes x t.output t.averageSlope := by
  refine ⟨rfl,fun c hc i hi j hj k _ => ?_⟩
  simp only [Transform.eval,eval,Tensor.pixel_ofImage _ hc hi hj,hmode]
  rw [ht.output_channels] at hc
  refine HasDerivAt.div_const (HasDerivAt.fun_sum fun p hp => ?_) _
  obtain ⟨⟨hy,hz⟩,-⟩ := mem_under.mp hp
  have hlt := ImageShape.position_lt hc hy hz
  exact Tensor.hasDerivAt_read_update k (x.read k) (hshape ▸ hlt)

theorem contains_avgTerm (ht : t.Resolved ℝ) (hmode : t.layer.mode = .avg)
    (harea : t.layer.AreaInWord) (hd : D.EnclosesRow row δ) (hδ : δ.shape = t.output.toList)
    (hc : c < t.output.channels) (hi : i < t.output.height) (hj : j < t.output.width)
    (hy : y < t.input.height) (hz : z < t.input.width) {acc : Bound ℝ} {u : ℝ}
    (hacc : acc.Contains u) : (t.avgTerm D row c y z acc (i,j)).Contains
      (u + δ.pixel t.output c i j * t.averageSlope c i j (t.input.position c y z)) := by
  simp only [avgTerm,mem_window_iff ht,averageSlope_position hy hz,true_and,cast_area hmode harea]
  split
  · exact Bound.contains_add hacc (Bound.contains_scale (hd.contains_pixel hδ hc hi hj) _)
  · simpa using hacc

end Average

section Maximum

theorem exists_routes (t : PoolingTransform) (x : Tensor ℝ) (c i j : ℕ) :
    ∃ route, t.Routes x c i j route := by
  rcases (t.under i j).eq_empty_or_nonempty with hempty | hne
  · exact ⟨none,hempty⟩
  · obtain ⟨p,hp,hmax⟩ := (t.under i j).exists_max_image (fun q => x.pixel t.input c q.1 q.2) hne
    exact ⟨some p,hp,hmax⟩

theorem exists_maxSlopes (t : PoolingTransform) (x : Tensor ℝ) : ∃ slope, t.MaxSlopes x slope := by
  choose route hroute using t.exists_routes x
  let slope (p k : ℕ) : ℝ :=
    let c := p / t.output.width / t.output.height
    if ∃ q ∈ route c (p / t.output.width % t.output.height) (p % t.output.width),
      t.input.position c q.1 q.2 = k then 1 else 0
  refine ⟨slope,fun c _ i hi j hj => ⟨route c i j,hroute c i j,fun k => ?_⟩⟩
  simp only [slope,ImageShape.position_channel hi hj,ImageShape.position_row hi hj,
    ImageShape.position_column hj]

theorem mem_contenders {α : Type} [Scalar α] [Scalar.Ordered α] {X : Interval α} {x : Tensor α}
    (ht : t.Resolved α) (hx : Tensor.Rel Bound.Contains X x) {p : ℕ × ℕ} (hp : p ∈ t.under i j)
    (hmax : ∀ q ∈ t.under i j, x.at3 t.input.height t.input.width c q.1 q.2 ≤
      x.at3 t.input.height t.input.width c p.1 p.2) : p ∈ t.contenders X c i j := by
  have hzero : (0 : Bound α).Contains 0 :=
    ⟨Scalar.Ordered.isNumber_zero,Scalar.Ordered.isNumber_zero⟩
  have hcell : ∀ q : ℕ × ℕ, (X.at3 t.input.height t.input.width c q.1 q.2).Contains
      (x.at3 t.input.height t.input.width c q.1 q.2) := fun _ => hx.read hzero _
  refine (mem_contenders_iff fun q _ => (Scalar.Ordered.isNumber_of_le (hcell q).1).1).mpr
    ⟨(mem_window_iff ht).mpr hp,fun q hq => ?_⟩
  exact Scalar.Ordered.le_trans (hcell q).1
    (Scalar.Ordered.le_trans (hmax q ((mem_window_iff ht).mp hq)) (hcell p).2)

theorem MaxSlopes.exists_route (hslope : t.MaxSlopes x slope) (hc : c < t.output.channels)
    (hi : i < t.output.height) (hj : j < t.output.width) :
    ∃ route, t.Routes x c i j route ∧ ∀ c' y z, y < t.input.height → z < t.input.width →
      slope (t.output.position c i j) (t.input.position c' y z) =
        if c = c' ∧ route = some (y,z) then 1 else 0 := by
  obtain ⟨route,hroute,hslope⟩ := hslope c hc i hi j hj
  refine ⟨route,hroute,fun c' y z hy hz => ?_⟩
  rw [hslope]
  refine if_congr ?_ rfl rfl
  constructor
  · rintro ⟨p,rfl,hp⟩
    obtain ⟨⟨hp1,hp2⟩,-⟩ := mem_under.mp hroute.1
    obtain ⟨rfl,rfl,rfl⟩ := (ImageShape.position_inj hp1 hp2 hy hz).mp hp
    exact ⟨rfl,rfl⟩
  · rintro ⟨rfl,rfl⟩
    exact ⟨_,rfl,rfl⟩

/-- What a window passes back to a cell holds its sensitivity if it is routed there, and else zero. -/
theorem contains_routed (ht : t.Resolved ℝ) (hx : X.Encloses x) (hc : c < t.output.channels)
    (hi : i < t.output.height) (hj : j < t.output.width) {route : Option (ℕ × ℕ)}
    (hroute : t.Routes x c i j route) {acc : Bound ℝ} {u v : ℝ} (hacc : acc.Contains u)
    (hv : (D.at4 t.output.channels t.output.height t.output.width row c i j).Contains v) :
    (t.maxTerm (t.routes X) D row c y z acc (i,j)).Contains
      (u + if route = some (y,z) then v else 0) := by
  have hmem : ∀ p, route = some p → p ∈ t.contenders X c i j := by
    rintro p rfl
    exact mem_contenders ht (Interval.encloses_iff_rel.mp hx) hroute.1 hroute.2
  simp only [maxTerm,routes_at3 X hc hi hj]
  split
  next hcontends =>
    refine Bound.contains_add hacc ?_
    split
    next hlength =>
      obtain ⟨q,hq⟩ := List.length_eq_one_iff.mp hlength
      have hrouted : route = some (y,z) := by
        cases route with
        | none =>
          have hwindow := (mem_window_iff ht).mp (List.mem_of_mem_filter hcontends)
          rw [show t.under i j = ∅ from hroute] at hwindow
          exact absurd hwindow (Finset.notMem_empty _)
        | some p =>
          have hp := hmem p rfl
          rw [hq,List.mem_singleton] at hp hcontends
          rw [hp,hcontends]
      rw [if_pos hrouted]
      exact hv
    next =>
      split
      · simpa using Bound.contains_hullWithZero hv zero_le_one le_rfl
      · simpa using Bound.contains_hullWithZero hv le_rfl zero_le_one
  next hcontends =>
    rw [if_neg fun h => hcontends (hmem _ h),add_zero]
    exact hacc

theorem contains_maxTerm (ht : t.Resolved ℝ) (hx : X.Encloses x) (hslope : t.MaxSlopes x slope)
    (hd : D.EnclosesRow row δ) (hδ : δ.shape = t.output.toList)
    (hc : c < t.output.channels) (hi : i < t.output.height) (hj : j < t.output.width)
    (hy : y < t.input.height) (hz : z < t.input.width) {acc : Bound ℝ} {u : ℝ}
    (hacc : acc.Contains u) : (t.maxTerm (t.routes X) D row c y z acc (i,j)).Contains
      (u + δ.pixel t.output c i j *
        slope (t.output.position c i j) (t.input.position c y z)) := by
  obtain ⟨route,hroute,hslope⟩ := hslope.exists_route hc hi hj
  rw [hslope c y z hy hz]
  simp only [true_and,mul_ite,mul_one,mul_zero]
  exact contains_routed ht hx hc hi hj hroute hacc (hd.contains_pixel hδ hc hi hj)

end Maximum

theorem enclosesRow_backward (ht : t.Resolved ℝ) (harea : t.layer.AreaInWord)
    (hx : X.Encloses x) (hshape : x.shape = t.input.toList) (hd : D.EnclosesRow row δ)
    (hδ : δ.shape = t.output.toList) (he : t.backward X D = .ok E)
    (hε : (Transform.pooling t).Reverses x δ ε) : E.EnclosesRow row ε := by
  obtain ⟨hε,slope,hslope,hread⟩ := hε
  obtain ⟨-,rows,hrows,he⟩ := backward_eq_ok_iff.mp he
  refine Interval.enclosesRow_ofRows he (hd.row_lt hrows) (hε.trans hshape) fun c hc y hy z hz => ?_
  have hc' : c < t.output.channels := ht.output_channels ▸ hc
  have hk : t.input.position c y z < x.shape.prod := hshape ▸ ImageShape.position_lt hc hy hz
  rw [Tensor.pixel_eq_read,hread _ hk,hδ]
  unfold backwardCell
  cases hmode : t.layer.mode with
  | max =>
    simp only [Transform.Slopes,hmode] at hslope
    rw [ImageShape.sum_positions]
    simp only [← Tensor.pixel_eq_read]
    rw [sum_channel hc']
    · exact Bound.contains_foldl_zero fun out hout acc u hacc => contains_maxTerm ht hx hslope hd hδ
        hc' (mem_grid2.mp hout).1 (mem_grid2.mp hout).2 hy hz hacc
    · intro c' hc' hne i hi j hj
      obtain ⟨route,-,hslope⟩ := hslope.exists_route hc' hi hj
      rw [hslope c y z hy hz,if_neg fun h => hne h.1]
  | avg =>
    simp only [Transform.Slopes,hmode] at hslope
    rw [(hasCellSlopes ht hshape hmode).sum_eq hslope hk,sum_channel hc']
    · exact Bound.contains_foldl_zero fun out hout acc u hacc => contains_avgTerm ht hmode harea
        hd hδ hc' (mem_grid2.mp hout).1 (mem_grid2.mp hout).2 hy hz hacc
    · intro c' _ hne i _ j _
      rw [averageSlope_position hy hz,if_neg fun h => hne h.1]

end PoolingTransform
end Sensitivity
