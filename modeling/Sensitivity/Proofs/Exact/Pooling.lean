import Sensitivity.Proofs.Exact.Sum
import Sensitivity.Proofs.Sound.Pooling

/-! Largest cells of windows. The cells that a maximum is routed to are exactly those that are
largest at some point of the bound, so whichever largest cell a window sends its sensitivity to, the
bound that is passed back holds it. -/
namespace Sensitivity

section Raised

variable {α : Type} [Scalar α] {X : Interval α} {k : ℕ}

/-- All cells at their least values but one, which is at its greatest. -/
def Interval.raised (X : Interval α) (k : ℕ) : Tensor α :=
  Tensor.ofFn X.shape fun i => if i = k then (X.read i).upper else (X.read i).lower

theorem Interval.read_raised {i : ℕ} (hi : i < X.shape.prod) :
    (X.raised k).read i = if i = k then (X.read i).upper else (X.read i).lower :=
  Tensor.read_ofFn _ _ hi

theorem Interval.contains_raised [Scalar.Ordered α] (hX : X.All Bound.InOrder) (k : ℕ) :
    Tensor.Rel Bound.Contains X (X.raised k) := by
  refine ⟨rfl,fun i hi => ?_⟩
  have hi : i < X.shape.prod := hi
  obtain ⟨hlower,hupper⟩ := Scalar.Ordered.isNumber_of_le (hX i hi)
  rw [Interval.read_raised hi]
  split
  · exact ⟨hX i hi,hupper⟩
  · exact ⟨hlower,hX i hi⟩

end Raised

namespace PoolingTransform

variable {t : PoolingTransform} {c i j : ℕ}

section Contenders

variable {α : Type} [Scalar α] {X : Interval α} {p q : ℕ × ℕ}

theorem inOrder_under (hX : X.shape = t.input.toList) (hord : X.All Bound.InOrder)
    (hc : c < t.input.channels) (hq : q ∈ t.under i j) :
    (X.at3 t.input.height t.input.width c q.1 q.2).InOrder := by
  obtain ⟨⟨hy,hz⟩,-⟩ := mem_under.mp hq
  exact hord _ (hX ▸ ImageShape.position_lt hc hy hz)

variable [Scalar.Ordered α]

/-- A contender is largest where it alone is at its greatest value. -/
theorem le_raised (ht : t.Resolved α) (hX : X.shape = t.input.toList) (hord : X.All Bound.InOrder)
    (hc : c < t.input.channels) (hp : p ∈ t.contenders X c i j) (hq : q ∈ t.under i j) :
    (X.raised (t.input.position c p.1 p.2)).at3 t.input.height t.input.width c q.1 q.2 ≤
      (X.raised (t.input.position c p.1 p.2)).at3 t.input.height t.input.width c p.1 p.2 := by
  have hends : ∀ q ∈ t.under i j,
      Scalar.IsNumber (X.at3 t.input.height t.input.width c q.1 q.2).lower ∧
        Scalar.IsNumber (X.at3 t.input.height t.input.width c q.1 q.2).upper :=
    fun q hq => Scalar.Ordered.isNumber_of_le (inOrder_under hX hord hc hq)
  obtain ⟨hp,hreaches⟩ :=
    (mem_contenders_iff fun q hq => (hends q ((mem_window_iff ht).mp hq)).1).mp hp
  have hp := (mem_window_iff ht).mp hp
  have hread : ∀ q ∈ t.under i j,
      (X.raised (t.input.position c p.1 p.2)).at3 t.input.height t.input.width c q.1 q.2 =
        if t.input.position c q.1 q.2 = t.input.position c p.1 p.2
          then (X.at3 t.input.height t.input.width c q.1 q.2).upper
          else (X.at3 t.input.height t.input.width c q.1 q.2).lower := by
    intro q hq
    obtain ⟨⟨hy,hz⟩,-⟩ := mem_under.mp hq
    exact Interval.read_raised (hX ▸ ImageShape.position_lt hc hy hz)
  rw [hread q hq,hread p hp,if_pos rfl]
  by_cases hsame : t.input.position c q.1 q.2 = t.input.position c p.1 p.2
  · rw [if_pos hsame,show X.at3 t.input.height t.input.width c q.1 q.2 =
      X.at3 t.input.height t.input.width c p.1 p.2 from congrArg X.read hsame]
    exact (hends p hp).2
  · rw [if_neg hsame]
    exact hreaches q ((mem_window_iff ht).mpr hq)

theorem mem_contenders_iff_exists (ht : t.Resolved α) (hX : X.shape = t.input.toList)
    (hord : X.All Bound.InOrder) (hc : c < t.input.channels) : p ∈ t.contenders X c i j ↔
      ∃ x : Tensor α, Tensor.Rel Bound.Contains X x ∧ p ∈ t.under i j ∧ ∀ q ∈ t.under i j,
        x.at3 t.input.height t.input.width c q.1 q.2 ≤
          x.at3 t.input.height t.input.width c p.1 p.2 := by
  constructor
  · intro hp
    exact ⟨X.raised (t.input.position c p.1 p.2),Interval.contains_raised hord _,
      (mem_window_iff ht).mp (List.mem_of_mem_filter hp),fun q hq => le_raised ht hX hord hc hp hq⟩
  · rintro ⟨x,hx,hp,hmax⟩
    exact mem_contenders ht hx hp hmax

end Contenders

/-- What the outputs that are routed to a cell pass back to it. -/
noncomputable def routed (t : PoolingTransform) (d : Tensor ℝ) (route : ℕ → ℕ → ℕ → Option (ℕ × ℕ))
    (b c y z : ℕ) : ℝ :=
  ∑ i ∈ Finset.range t.output.height, ∑ j ∈ Finset.range t.output.width,
    if route c i j = some (y,z)
      then d.at4 t.output.channels t.output.height t.output.width b c i j else 0

theorem contains_backwardCell {X D : Interval ℝ} {x d : Tensor ℝ}
    {route : ℕ → ℕ → ℕ → Option (ℕ × ℕ)} (ht : t.Resolved ℝ) (hmode : t.layer.mode = .max)
    (hx : X.Encloses x) (hd : D.Encloses d) (hc : c < t.output.channels)
    (hroute : ∀ i < t.output.height, ∀ j < t.output.width, t.Routes x c i j (route c i j))
    (b y z : ℕ) : (t.backwardCell X D b c y z).Contains (t.routed d route b c y z) := by
  have hsum : t.routed d route b c y z = ((grid2 t.output.height t.output.width).map fun out =>
      if route c out.1 out.2 = some (y,z)
        then d.at4 t.output.channels t.output.height t.output.width b c out.1 out.2 else 0).sum := by
    rw [sum_map_grid2,routed]
  rw [hsum]
  simp only [backwardCell,hmode]
  refine Bound.contains_foldl_zero fun out hout acc u hacc => ?_
  obtain ⟨hi,hj⟩ := mem_grid2.mp hout
  exact contains_routed ht hx hc hi hj (hroute _ hi _ hj) hacc (hd.contains_read _)

/-- The contenders of a window are the cells that are largest in it at some point of the bound, and
what is passed back holds the gradient of any maximum that sends each sensitivity to one of them. -/
theorem routes_largest {α : Type} [Scalar α] [Scalar.Ordered α] {layer : Pooling} {shape : List ℕ}
    (h : build layer shape = (.ok t : Except (Error α) _)) :
    (∀ X : Interval α, X.shape = shape → X.All Bound.InOrder → ∀ c < t.output.channels,
      ∀ i < t.output.height, ∀ j < t.output.width, (t.under i j).Nonempty →
        t.contenders X c i j ≠ [] ∧ ∀ p, p ∈ t.contenders X c i j ↔ ∃ x : Tensor α,
          Tensor.Rel Bound.Contains X x ∧ p ∈ t.under i j ∧ ∀ q ∈ t.under i j,
            x.at3 t.input.height t.input.width c q.1 q.2 ≤
              x.at3 t.input.height t.input.width c p.1 p.2) ∧
      (layer.mode = .max → ∀ (rows : ℕ) (X D : Interval ℝ), X.shape = shape →
        D.shape = rows :: t.output.toList →
          ((∃ E, t.backward X D = .ok E) ↔ rows ≠ 0 ∧ Tensor.Addressable (rows :: shape)) ∧
            ∀ E, t.backward X D = .ok E → E.shape = rows :: shape ∧ ∀ x d route, X.Encloses x →
              D.Encloses d → (∀ c < t.output.channels, ∀ i < t.output.height,
                ∀ j < t.output.width, t.Routes x c i j (route c i j)) →
                  ∀ b < rows, ∀ c < t.input.channels, ∀ y < t.input.height, ∀ z < t.input.width,
                    (E.at4 t.input.channels t.input.height t.input.width b c y z).Contains
                      (t.routed d route b c y z)) := by
  obtain ⟨rfl,ht,rfl⟩ := build_eq_ok h
  constructor
  · intro X hX hord c hc i _ j _ hne
    have hc : c < t.input.channels := ht.output_channels ▸ hc
    refine ⟨?_,fun p => mem_contenders_iff_exists ht hX hord hc⟩
    obtain ⟨p,hp⟩ := hne
    exact contenders_ne_nil ((mem_window_iff ht).mpr hp) fun q hq =>
      inOrder_under hX hord hc ((mem_window_iff ht).mp hq)
  · intro hmode rows X D hX hD
    simp only [backward_eq_ok_iff,hX,true_and,Interval.exists_rows_iff hD]
    refine ⟨Interval.exists_ofRows_iff,fun E hE => ⟨Interval.shape_of_ofRows hE,?_⟩⟩
    intro x d route hx hd hroute b hb c hc y hy z hz
    rw [Interval.at4_ofRows hE hb hc hy hz]
    have hc : c < t.output.channels := ht.output_channels ▸ hc
    exact contains_backwardCell ht.of_other hmode hx hd hc (hroute c hc) b y z

/-- Windows that overlap in a cell of an image in padding. -/
theorem routes_largest_overlapping : ∃ (t : PoolingTransform) (E : Interval ℝ),
    build ⟨.max,2,1,1⟩ [1,2,2] = (.ok t : Except (Error Single) _) ∧ t.output = ⟨1,3,3⟩ ∧
      t.contenders (Tensor.fill [1,2,2] (⟨0,1⟩ : Bound Single)) 0 1 1 ≠ [] ∧
      t.backward (Tensor.fill [1,2,2] ⟨0,1⟩) (Tensor.fill [1,1,3,3] ⟨-1,2⟩) = .ok E ∧
      (E.at4 1 2 2 0 0 1 1).Contains (t.routed (Tensor.fill [1,1,3,3] 2)
        (fun _ i j => some (min i 1,min j 1)) 0 0 1 1) := by
  obtain ⟨t,ht,hlayer,hinput,houtput⟩ : ∃ t : PoolingTransform,
      build ⟨.max,2,1,1⟩ [1,2,2] = (.ok t : Except (Error Single) _) ∧
        t.layer = ⟨.max,2,1,1⟩ ∧ t.input = ⟨1,2,2⟩ ∧ t.output = ⟨1,3,3⟩ := ⟨_,rfl,rfl,rfl,rfl⟩
  obtain ⟨hcontenders,hbackward⟩ := routes_largest ht
  have hunder : ∀ i < 3, ∀ j < 3, (min i 1,min j 1) ∈ t.under i j := by
    simp only [under,hlayer,hinput]
    decide
  have hX : Interval.All Bound.InOrder (Tensor.fill [1,2,2] (⟨0,1⟩ : Bound Single)) :=
    Interval.all_fill _ (by decide +kernel)
  have hx : Interval.Encloses (Tensor.fill [1,2,2] ⟨0,1⟩) (Tensor.fill [1,2,2] 0) :=
    Interval.encloses_fill _ ⟨le_rfl,zero_le_one⟩
  have hd : Interval.Encloses (Tensor.fill [1,1,3,3] ⟨-1,2⟩) (Tensor.fill [1,1,3,3] 2) :=
    Interval.encloses_fill _ ⟨by norm_num,le_rfl⟩
  obtain ⟨hok,hcells⟩ := hbackward rfl 1 (Tensor.fill [1,2,2] ⟨0,1⟩)
    (Tensor.fill [1,1,3,3] ⟨-1,2⟩) rfl (by rw [houtput]; rfl)
  obtain ⟨E,hE⟩ := hok.mpr ⟨one_ne_zero,by decide⟩
  have hcells := (hcells E hE).2 _ _ (fun _ i j => some (min i 1,min j 1)) hx hd
  rw [hinput,houtput] at hcells
  refine ⟨t,E,ht,houtput,?_,hE,hcells ?_ 0 (by decide) 0 (by decide) 1 (by decide) 1 (by decide)⟩
  · rw [houtput] at hcontenders
    exact (hcontenders _ rfl hX 0 (by decide) 1 (by decide) 1 (by decide)
      ⟨_,hunder 1 (by decide) 1 (by decide)⟩).1
  · intro c hc i hi j hj
    have hzero : ∀ q ∈ t.under i j, (Tensor.fill [1,2,2] (0 : ℝ)).pixel t.input c q.1 q.2 = 0 := by
      intro q hq
      obtain ⟨⟨hy,hz⟩,-⟩ := mem_under.mp hq
      rw [hinput] at hy hz ⊢
      have hlt : (⟨1,2,2⟩ : ImageShape).position c q.1 q.2 < [1,2,2].prod :=
        ImageShape.position_lt hc hy hz
      exact Tensor.read_fill [1,2,2] _ hlt
    refine ⟨hunder i hi j hj,fun q hq => ?_⟩
    exact ((hzero q hq).trans (hzero _ (hunder i hi j hj)).symm).le

end PoolingTransform
end Sensitivity
