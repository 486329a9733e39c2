import Sensitivity.Proofs.Inclusion.Interval
import Sensitivity.Proofs.Sound.Activation
import Sensitivity.Proofs.Sound.Pooling

/-! Layers whose rules are built from arithmetic on bounds keep intervals inside intervals. The
rules of a rectifier and of maxima change with the bound on the input; every change towards a
larger bound only adds zero to what is passed back. -/
namespace Sensitivity

variable {x x' y y' d d' e e' : Interval ℝ}

namespace DenseTransform

variable {t : DenseTransform ℝ}

theorem inside_forward (hx : x.Inside x') (hy : t.forward x = .ok y) (hy' : t.forward x' = .ok y') :
    y.Inside y' := by
  simp only [forward,Error.bind_eq_ok_iff] at hy hy'
  obtain ⟨z,hz,hy⟩ := hy
  obtain ⟨z',hz',hy'⟩ := hy'
  have hflat : x'.flatten.shape = [] ++ [x'.shape.prod] := Tensor.shape_flatten x'
  have hproduct : z.Inside z' := hx.flatten.contract hflat t.layer.shape_weights hz hz'
  exact hproduct.addTensor hy hy'

theorem inside_backward (hd : d.Inside d') (he : t.backward d = .ok e)
    (he' : t.backward d' = .ok e') : e.Inside e' := by
  simp only [backward,Error.bind_eq_ok_iff,Interval.rowCount_eq_ok_iff] at he he'
  obtain ⟨rows,hrows,z,hz,he⟩ := he
  obtain ⟨rows',hrows',z',hz',he'⟩ := he'
  obtain rfl := List.head_eq_of_cons_eq (hrows.symm.trans (hd.shape.trans hrows'))
  have hlead : d'.shape = [rows] ++ [t.layer.outputs] := hrows'
  have hproduct : z.Inside z' := hd.contract hlead (Tensor.shape_ofFn _ _) hz hz'
  exact hproduct.reshape he he'

end DenseTransform

namespace ConvolutionTransform

variable {t : ConvolutionTransform ℝ} {acc acc' : Bound ℝ}

theorem inside_forwardTap (hx : x.Inside x') (o i j : ℕ) (hacc : acc.Inside acc')
    (tap : ℕ × ℕ × ℕ) : (t.forwardTap x o i j acc tap).Inside (t.forwardTap x' o i j acc' tap) := by
  obtain ⟨ci,di,dj⟩ := tap
  simp only [forwardTap]
  split
  · exact hacc
  · split
    · exact hacc.add ((hx.cell _).weighted _)
    · exact hacc

theorem inside_forward (hx : x.Inside x') (hy : t.forward x = .ok y) (hy' : t.forward x' = .ok y') :
    y.Inside y' := by
  obtain ⟨-,rfl⟩ := forward_eq_ok_iff.mp hy
  obtain ⟨-,rfl⟩ := forward_eq_ok_iff.mp hy'
  have hcells : (Interval.ofImage t.output (t.forwardCell x)).Inside
      (Interval.ofImage t.output (t.forwardCell x')) :=
    Interval.rel_ofImage fun o _ i _ j _ =>
      (Bound.inside_point _).foldl fun tap _ _ _ hacc => inside_forwardTap hx o i j hacc tap
  exact hcells.map fun _ _ h => h.swap

theorem backwardTerm_eq (d : Interval ℝ) (row c y z : ℕ) (acc : Bound ℝ) (o i j : ℕ) :
    t.backwardTerm d row c y z acc (o,i,j) =
      match t.layer.filterChannel? o c,
          Window.offset? t.layer.stride t.layer.padding i y t.layer.height,
          Window.offset? t.layer.stride t.layer.padding j z t.layer.width with
      | some ci, some di, some dj =>
        acc.add ((d.at4 t.output.channels t.output.height t.output.width row o i j).weighted
          (t.layer.weight o ci di dj))
      | _, _, _ => acc := by
  simp only [backwardTerm]
  split
  next hzero =>
    split
    · rw [Bound.add_weighted_of_isZero acc hzero]
    · rfl
  next => rfl

theorem inside_backward (hd : d.Inside d') (he : t.backward d = .ok e)
    (he' : t.backward d' = .ok e') : e.Inside e' := by
  obtain ⟨rows,hrows,he⟩ := backward_eq_ok_iff.mp he
  obtain ⟨rows',hrows',he'⟩ := backward_eq_ok_iff.mp he'
  obtain rfl := List.head_eq_of_cons_eq (hrows.symm.trans (hd.shape.trans hrows'))
  refine Interval.rel_ofRows he he' fun row _ c _ y _ z _ => ?_
  refine Bound.inside_zero.foldl ?_
  rintro ⟨o,i,j⟩ - acc acc' hacc
  rw [backwardTerm_eq,backwardTerm_eq]
  split
  · exact hacc.add ((hd.cell _).weighted _)
  · exact hacc

end ConvolutionTransform

namespace Scalar

theorem greatest_map_le {β : Type} {l : List β} {f g : β → ℝ} (h : ∀ b ∈ l, f b ≤ g b) :
    greatest (l.map f) ≤ greatest (l.map g) := by
  rcases eq_or_ne l [] with rfl | hne
  · exact le_rfl
  obtain ⟨hmem,-⟩ := greatest_spec (l := l.map f) (by simpa using hne) fun _ _ => le_rfl
  obtain ⟨-,hmax⟩ := greatest_spec (l := l.map g) (by simpa using hne) fun _ _ => le_rfl
  obtain ⟨b,hb,hbest⟩ := List.mem_map.mp hmem
  rw [← hbest]
  exact (h b hb).trans (hmax _ (List.mem_map_of_mem hb))

end Scalar

namespace PoolingTransform

variable {t : PoolingTransform} {c i j : ℕ} {acc acc' : Bound ℝ}

theorem inside_forwardCell (hx : x.Inside x') (c i j : ℕ) :
    (t.forwardCell x c i j).Inside (t.forwardCell x' c i j) := by
  have hcell : ∀ p : ℕ × ℕ, (x.at3 t.input.height t.input.width c p.1 p.2).Inside
      (x'.at3 t.input.height t.input.width c p.1 p.2) := fun p => hx.cell _
  unfold forwardCell
  cases t.layer.mode with
  | max =>
    simp only [windowBounds,List.map_map]
    exact ⟨Scalar.greatest_map_le fun p _ => (hcell p).lower,
      Scalar.greatest_map_le fun p _ => (hcell p).ordered,
      Scalar.greatest_map_le fun p _ => (hcell p).upper⟩
  | avg =>
    simp only [windowBounds,List.foldl_map]
    have hsum : Bound.Inside
        ((t.window i j).foldl
          (fun acc p => acc.add (x.at3 t.input.height t.input.width c p.1 p.2)) 0)
        ((t.window i j).foldl
          (fun acc p => acc.add (x'.at3 t.input.height t.input.width c p.1 p.2)) 0) :=
      Bound.inside_zero.foldl fun p _ _ _ hacc => hacc.add (hcell p)
    have harea : (0 : ℝ) ≤ t.area := Nat.cast_nonneg _
    exact ⟨div_le_div_of_nonneg_right hsum.lower harea,div_le_div_of_nonneg_right hsum.ordered harea,
      div_le_div_of_nonneg_right hsum.upper harea⟩

theorem inside_forward (hx : x.Inside x') (hy : t.forward x = .ok y) (hy' : t.forward x' = .ok y') :
    y.Inside y' := by
  obtain ⟨-,rfl⟩ := forward_eq_ok_iff.mp hy
  obtain ⟨-,rfl⟩ := forward_eq_ok_iff.mp hy'
  exact Interval.rel_ofImage fun c _ i _ j _ => inside_forwardCell hx c i j

/-- The cells that can hold the maximum stay such cells in larger bounds. -/
theorem contenders_sublist (hx : x.Inside x') (c i j : ℕ) :
    (t.contenders x c i j).Sublist (t.contenders x' c i j) := by
  have hcell : ∀ p : ℕ × ℕ, (x.at3 t.input.height t.input.width c p.1 p.2).Inside
      (x'.at3 t.input.height t.input.width c p.1 p.2) := fun p => hx.cell _
  have hbest : Scalar.greatest ((t.windowBounds x' c i j).map Bound.lower) ≤
      Scalar.greatest ((t.windowBounds x c i j).map Bound.lower) := by
    simp only [windowBounds,List.map_map]
    exact Scalar.greatest_map_le fun p _ => (hcell p).lower
  refine List.monotone_filter_right _ ?_
  rintro ⟨y,z⟩ hp
  simp only [decide_eq_true_eq] at hp ⊢
  exact hbest.trans (hp.trans (hcell (y,z)).upper)

theorem inside_maxTerm (hx : x.Inside x') (hd : d.Inside d') {row y z : ℕ}
    (hc : c < t.output.channels) (hi : i < t.output.height) (hj : j < t.output.width)
    (hacc : acc.Inside acc') : (t.maxTerm (t.routes x) d row c y z acc (i,j)).Inside
      (t.maxTerm (t.routes x') d' row c y z acc' (i,j)) := by
  have hcell : (d.at4 t.output.channels t.output.height t.output.width row c i j).Inside
      (d'.at4 t.output.channels t.output.height t.output.width row c i j) := hd.cell _
  have hsub := contenders_sublist (t := t) hx c i j
  simp only [maxTerm,routes_at3 _ hc hi hj]
  by_cases hmem' : (y,z) ∈ t.contenders x' c i j
  · have hnonempty : t.contenders x c i j ≠ [] :=
      contenders_ne_nil (List.mem_filter.mp hmem').1 fun _ _ => (hx.cell _).ordered
    have hpos := List.length_pos_of_ne_nil hnonempty
    rw [if_pos hmem']
    by_cases hmem : (y,z) ∈ t.contenders x c i j
    · rw [if_pos hmem]
      refine hacc.add ?_
      by_cases hone' : (t.contenders x' c i j).length = 1
      · have hone : (t.contenders x c i j).length = 1 := by
          have := hsub.length_le
          omega
        rw [if_pos hone,if_pos hone']
        exact hcell
      · rw [if_neg hone']
        split
        · exact hcell.of_hull
        · exact hcell.hullWithZero
    · -- Larger bounds have all contenders of the smaller ones; one that only they have is not alone.
      have hone' : (t.contenders x' c i j).length ≠ 1 := fun hone' => by
        have heq := hsub.eq_of_length_le (by omega)
        exact hmem (heq ▸ hmem')
      rw [if_neg hmem,if_neg hone']
      have hadded := hacc.add (Bound.zero_inside_hull
        (d'.at4 t.output.channels t.output.height t.output.width row c i j))
      simpa [Bound.add] using hadded
  · rw [if_neg hmem',if_neg fun hmem => hmem' (hsub.subset hmem)]
    exact hacc

theorem inside_avgTerm (hd : d.Inside d') (row c y z : ℕ) (hacc : acc.Inside acc') (out : ℕ × ℕ) :
    (t.avgTerm d row c y z acc out).Inside (t.avgTerm d' row c y z acc' out) := by
  obtain ⟨i,j⟩ := out
  simp only [avgTerm]
  split
  · exact hacc.add ((hd.cell _).scale _)
  · exact hacc

theorem inside_backward (ht : t.Resolved ℝ) (hx : x.Inside x') (hd : d.Inside d')
    (he : t.backward x d = .ok e) (he' : t.backward x' d' = .ok e') : e.Inside e' := by
  obtain ⟨-,rows,hrows,he⟩ := backward_eq_ok_iff.mp he
  obtain ⟨-,rows',hrows',he'⟩ := backward_eq_ok_iff.mp he'
  obtain rfl := List.head_eq_of_cons_eq (hrows.symm.trans (hd.shape.trans hrows'))
  refine Interval.rel_ofRows he he' fun row _ c hc y _ z _ => ?_
  unfold backwardCell
  refine Bound.inside_zero.foldl ?_
  rintro ⟨i,j⟩ hmem acc acc' hacc
  obtain ⟨hi,hj⟩ := mem_grid2.mp hmem
  cases t.layer.mode with
  | max => exact inside_maxTerm hx hd (ht.output_channels.symm ▸ hc) hi hj hacc
  | avg => exact inside_avgTerm hd row c y z hacc (i,j)

end PoolingTransform

namespace Rectifier

theorem inside_forward (hx : x.Inside x') : (forward x).Inside (forward x') :=
  hx.map fun _ _ h =>
    ⟨max_le_max_right 0 h.lower,max_le_max_right 0 h.ordered,max_le_max_right 0 h.upper⟩

theorem inside_slope {a a' b b' : Bound ℝ} (ha : a.Inside a') (hb : b.Inside b') :
    (slope a b).Inside (slope a' b') := by
  unfold slope
  by_cases hpositive' : 0 < a'.lower
  · rw [if_pos hpositive',if_pos (hpositive'.trans_le ha.lower)]
    exact hb
  by_cases hnegative' : a'.upper < 0
  · have hnegative : a.upper < 0 := ha.upper.trans_lt hnegative'
    rw [if_neg hpositive',if_pos hnegative',if_neg (ha.ordered.trans hnegative.le).not_gt,
      if_pos hnegative]
    exact Bound.inside_zero
  rw [if_neg hpositive',if_neg hnegative']
  split
  · exact hb.of_hull
  · split
    · exact Bound.zero_inside_hull b'
    · exact hb.hullWithZero

theorem inside_backward (hx : x.Inside x') (hd : d.Inside d') (he : backward x d = .ok e)
    (he' : backward x' d' = .ok e') : e.Inside e' := by
  obtain ⟨rows,shape,hrows,-,rfl⟩ := backward_eq_ok_iff.mp he
  obtain ⟨rows',shape',hrows',-,rfl⟩ := backward_eq_ok_iff.mp he'
  obtain ⟨rfl,rfl⟩ := List.cons.inj (hrows.symm.trans (hd.shape.trans hrows'))
  rw [hd.shape,hx.shape]
  exact Tensor.rel_ofFn fun i _ => inside_slope (hx.cell _) (hd.cell i)

end Rectifier

theorem Dropout.inside_scale (hx : x.Inside x') (keep : ℝ) :
    Interval.Inside (x.scale keep) (x'.scale keep) := by
  refine hx.map fun b b' h => ?_
  have hweighted := h.weighted keep
  simp only [Bound.weighted,mul_comm keep] at hweighted
  exact hweighted

namespace Softmax

theorem inside_lane {n j : ℕ} {b b' : ℕ → Bound ℝ} (h : ∀ l < n, (b l).Inside (b' l)) (hj : j < n) :
    ((lane ((List.range n).map b))[j]?.getD 0).Inside
      ((lane ((List.range n).map b'))[j]?.getD 0) := by
  have hexp : ∀ {u v : ℝ}, u ≤ v → Real.exp u ≤ Real.exp v := Real.exp_le_exp.mpr
  rw [getElem?_lane b hj,getElem?_lane b' hj,Option.getD_some,Option.getD_some]
  refine Bound.Inside.swap ⟨?_,?_,?_⟩
  · exact share_le_share (Real.exp_pos _) (hexp (h j hj).lower) (others_nonneg _ hj)
      (others_le_others (fun l hl => (h l hl).upper) hj) _ _
  · exact share_le_share (Real.exp_pos _) (hexp (h j hj).ordered) (others_nonneg _ hj)
      (others_le_others (fun l hl => (h l hl).ordered) hj) _ _
  · exact share_le_share (Real.exp_pos _) (hexp (h j hj).upper) (others_nonneg _ hj)
      (others_le_others (fun l hl => (h l hl).lower) hj) _ _

theorem inside_forward (hx : x.Inside x') (hy : forward x = .ok y) (hy' : forward x' = .ok y') :
    y.Inside y' := by
  obtain ⟨hshape,n,hn,-,hcells⟩ := read_of_forward hy
  obtain ⟨hshape',n',hn',-,hcells'⟩ := read_of_forward hy'
  rw [hx.shape] at hn
  obtain rfl := Option.some.inj (hn.symm.trans hn')
  refine ⟨hshape.trans (hx.shape.trans hshape'.symm),fun i hi => ?_⟩
  rw [hshape'] at hi
  obtain ⟨hpos,hcell⟩ := hcells i (hx.shape ▸ hi)
  obtain ⟨-,hcell'⟩ := hcells' i hi
  rw [hcell,hcell']
  exact inside_lane (fun l _ => hx.cell _) (Nat.mod_lt i hpos)

end Softmax
end Sensitivity
