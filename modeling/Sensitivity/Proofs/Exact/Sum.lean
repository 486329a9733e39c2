import Sensitivity.Proofs.Exact.Bound
import Sensitivity.Proofs.Inclusion.Bound
import Sensitivity.Proofs.Invariant.Rounding
import Sensitivity.Proofs.Sound.Enclosure

/-! Sums of exact bounds. Terms that read different cells of a tensor take their least values at one
point of the bound on it, and their greatest values at another one. So the sum of their ranges is
the range of their sum. -/
namespace Sensitivity

namespace Bound

variable {ι P : Type} {a b : Bound ℝ} {s : Set ℝ} {l : List ι}

theorem isRange_weighted (hb : b.InOrder) (w : ℝ) : (b.weighted w).IsRange ((w * ·) '' b.toSet) := by
  have hlower : w * b.lower ∈ (w * ·) '' b.toSet := ⟨_,⟨le_rfl,hb⟩,rfl⟩
  have hupper : w * b.upper ∈ (w * ·) '' b.toSet := ⟨_,⟨hb,le_rfl⟩,rfl⟩
  have hcontains : ∀ u ∈ (w * ·) '' b.toSet, (b.weighted w).Contains u := by
    rintro _ ⟨v,hv,rfl⟩
    exact contains_weighted hv w
  unfold weighted at hcontains ⊢
  by_cases hw : 0 ≤ w
  · rw [if_pos hw] at hcontains ⊢
    exact isRange_of_contains hlower hupper hcontains
  · rw [if_neg hw] at hcontains ⊢
    exact isRange_of_contains hupper hlower hcontains

theorem IsRange.contains (h : b.IsRange s) {v : ℝ} (hv : v ∈ s) : b.Contains v :=
  ⟨h.least.2 hv,h.greatest.2 hv⟩

theorem isRange_toSet (hb : b.InOrder) : b.IsRange b.toSet := ⟨isLeast_Icc hb,isGreatest_Icc hb⟩

theorem IsRange.mul {t : Set ℝ} (ha : a.IsRange s) (hb : b.IsRange t) :
    (a.mul b).IsRange (Set.image2 (· * ·) s t) := by
  have hll := Set.mem_image2_of_mem (f := (· * ·)) ha.least.1 hb.least.1
  have hlu := Set.mem_image2_of_mem (f := (· * ·)) ha.least.1 hb.greatest.1
  have hul := Set.mem_image2_of_mem (f := (· * ·)) ha.greatest.1 hb.least.1
  have huu := Set.mem_image2_of_mem (f := (· * ·)) ha.greatest.1 hb.greatest.1
  refine isRange_of_contains ?_ ?_ ?_
  · exact min_rec' (· ∈ _) (min_rec' (· ∈ _) hll hlu) (min_rec' (· ∈ _) hul huu)
  · exact max_rec' (· ∈ _) (max_rec' (· ∈ _) hll hlu) (max_rec' (· ∈ _) hul huu)
  · rintro _ ⟨u,hu,v,hv,rfl⟩
    exact contains_mul (ha.contains hu) (hb.contains hv)

theorem isRange_mul (ha : a.InOrder) (hb : b.InOrder) :
    (a.mul b).IsRange (Set.image2 (· * ·) a.toSet b.toSet) :=
  (isRange_toSet ha).mul (isRange_toSet hb)

theorem IsRange.inOrder (h : b.IsRange s) : b.InOrder := h.greatest.2 h.least.1

theorem IsRange.addConst (h : b.IsRange s) (v : ℝ) :
    IsRange ⟨v + b.lower,v + b.upper⟩ ((v + ·) '' s) := by
  refine isRange_of_contains ⟨_,h.least.1,rfl⟩ ⟨_,h.greatest.1,rfl⟩ ?_
  rintro _ ⟨u,hu,rfl⟩
  exact ⟨add_le_add_right (h.contains hu).1 v,add_le_add_right (h.contains hu).2 v⟩

theorem IsRange.scale (h : b.IsRange s) (w : ℝ) : (b.scale w).IsRange ((· * w) '' s) := by
  have hlower : b.lower * w ∈ (· * w) '' s := ⟨_,h.least.1,rfl⟩
  have hupper : b.upper * w ∈ (· * w) '' s := ⟨_,h.greatest.1,rfl⟩
  refine isRange_of_contains (min_rec' (· ∈ _) hlower hupper) (max_rec' (· ∈ _) hlower hupper) ?_
  rintro _ ⟨u,hu,rfl⟩
  exact contains_scale (h.contains hu) w

/-- The sum of several bounds. -/
noncomputable def total (l : List ι) (b : ι → Bound ℝ) : Bound ℝ :=
  ⟨(l.map fun i => (b i).lower).sum,(l.map fun i => (b i).upper).sum⟩

theorem foldl_eq_add_total {step : Bound ℝ → ι → Bound ℝ} {term : ι → Bound ℝ}
    (h : ∀ i ∈ l, ∀ acc, step acc i = acc.add (term i)) (acc : Bound ℝ) :
    l.foldl step acc = acc.add (total l term) := by
  induction l generalizing acc with
  | nil => simp [total,add]
  | cons i l ih =>
    obtain ⟨hi,hl⟩ := List.forall_mem_cons.mp h
    rw [List.foldl_cons,hi,ih hl]
    simp [total,add,add_assoc]

theorem foldl_zero_eq_total {step : Bound ℝ → ι → Bound ℝ} {term : ι → Bound ℝ}
    (h : ∀ i ∈ l, ∀ acc, step acc i = acc.add (term i)) : l.foldl step 0 = total l term := by
  rw [foldl_eq_add_total h]
  simp [total,add]

/-- Terms of parts that can be chosen apart from each other have a sum whose range is the sum of
their bounds: there is a point where all of them are least, and one where all are greatest. -/
theorem isRange_total {S : Set P} {b : ι → Bound ℝ} {V : Type} {T : ι → Set V} {f : ι → V → ℝ}
    {g : ι → P → V} (hterm : ∀ i, (b i).IsRange (f i '' T i)) (hpart : ∀ x ∈ S, ∀ i, g i x ∈ T i)
    (hfree : ∀ v : ι → V, (∀ i, v i ∈ T i) → ∃ x ∈ S, ∀ i ∈ l, g i x = v i) :
    (total l b).IsRange ((fun x => (l.map fun i => f i (g i x)).sum) '' S) := by
  choose u hu hlower using fun i => (hterm i).least.1
  choose v hv hupper using fun i => (hterm i).greatest.1
  obtain ⟨x,hx,hleast⟩ := hfree u hu
  obtain ⟨y,hy,hgreatest⟩ := hfree v hv
  have hcontains : ∀ z ∈ S, ∀ i, (b i).Contains (f i (g i z)) := fun z hz i =>
    (hterm i).contains ⟨g i z,hpart z hz i,rfl⟩
  refine isRange_of_contains ⟨x,hx,?_⟩ ⟨y,hy,?_⟩ ?_
  · exact congrArg List.sum (List.map_congr_left fun i hi => by rw [hleast i hi,hlower i])
  · exact congrArg List.sum (List.map_congr_left fun i hi => by rw [hgreatest i hi,hupper i])
  · rintro _ ⟨z,hz,rfl⟩
    exact ⟨List.sum_le_sum fun i _ => (hcontains z hz i).1,
      List.sum_le_sum fun i _ => (hcontains z hz i).2⟩

end Bound

namespace Interval

variable {ι : Type} {X D : Interval ℝ} {l : List ι} {p q : ι → Option ℕ}

/-- Different entries of a list read different cells, each of them inside a shape; an entry can
also read none. -/
structure ReadsApart (l : List ι) (p : ι → Option ℕ) (shape : List ℕ) : Prop where
  eq_of_eq : ∀ i ∈ l, ∀ j ∈ l, ∀ k, p i = some k → p j = some k → i = j
  lt : ∀ i ∈ l, ∀ k, p i = some k → k < shape.prod

theorem ReadsApart.comp {κ : Type} {m : List κ} {shape : List ℕ} (hp : ReadsApart l p shape)
    {g : κ → ι} (hg : g.Injective) (hmem : ∀ i ∈ m, g i ∈ l) : ReadsApart m (p ∘ g) shape :=
  ⟨fun i hi j hj k h h' => hg (hp.eq_of_eq _ (hmem i hi) _ (hmem j hj) k h h'),
    fun i hi => hp.lt _ (hmem i hi)⟩

theorem ReadsApart.exists_encloses (hp : ReadsApart l p X.shape) (hX : X.All Bound.InOrder)
    {v : ι → ℝ} (hv : ∀ i ∈ l, ((p i).elim 0 X.read).Contains (v i)) :
    ∃ x, X.Encloses x ∧ ∀ i ∈ l, (p i).elim 0 x.read = v i := by
  classical
  let cell (k : ℕ) : ℝ :=
    if h : ∃ i ∈ l, p i = some k then v h.choose else (X.read k).lower
  refine ⟨Tensor.ofFn X.shape cell,⟨rfl,fun k hk => ?_⟩,fun i hi => ?_⟩
  · have hk : k < X.shape.prod := hk
    rw [Tensor.read_ofFn _ _ hk]
    by_cases h : ∃ i ∈ l, p i = some k
    · have hcell := hv _ h.choose_spec.1
      rw [h.choose_spec.2,Option.elim_some] at hcell
      simpa only [cell,dif_pos h] using hcell
    · simpa only [cell,dif_neg h] using (⟨le_rfl,hX k hk⟩ : (X.read k).Contains (X.read k).lower)
  · cases hpi : p i with
    | none =>
      have hzero := hv i hi
      rw [hpi] at hzero
      exact le_antisymm hzero.1 hzero.2
    | some k =>
      have h : ∃ i ∈ l, p i = some k := ⟨i,hi,hpi⟩
      have hchosen : h.choose = i := hp.eq_of_eq _ h.choose_spec.1 i hi k h.choose_spec.2 hpi
      rw [Option.elim_some,Tensor.read_ofFn _ _ (hp.lt i hi k hpi)]
      simp only [cell,dif_pos h,hchosen]

theorem All.inOrder_elim (hX : X.All Bound.InOrder) (k : Option ℕ) : (k.elim 0 X.read).InOrder := by
  cases k with
  | none => exact le_rfl
  | some k => exact hX.cell le_rfl k

theorem Encloses.contains_elim {x : Tensor ℝ} (h : X.Encloses x) (k : Option ℕ) :
    (k.elim 0 X.read).Contains (k.elim 0 x.read) := by
  cases k with
  | none => exact Bound.contains_zero
  | some k => exact h.contains_read k

/-- A linear form that reads each cell once has the sum of the weighted bounds for its range. -/
theorem ReadsApart.isRange_linear (hp : ReadsApart l p X.shape) (hX : X.All Bound.InOrder)
    (w : ι → ℝ) : (Bound.total l fun i => ((p i).elim 0 X.read).weighted (w i)).IsRange
      ((fun x : Tensor ℝ => (l.map fun i => w i * (p i).elim 0 x.read).sum) ''
        {x | X.Encloses x}) :=
  Bound.isRange_total (fun i => Bound.isRange_weighted (hX.inOrder_elim (p i)) (w i))
    (fun _ hx i => hx.contains_elim (p i)) fun _ hv => hp.exists_encloses hX fun i _ => hv i

theorem ReadsApart.isRange_bilinear (hp : ReadsApart l p X.shape) (hq : ReadsApart l q D.shape)
    (hX : X.All Bound.InOrder) (hD : D.All Bound.InOrder) :
    (Bound.total l fun i => ((p i).elim 0 X.read).mul ((q i).elim 0 D.read)).IsRange
      (Set.image2 (fun x d : Tensor ℝ =>
        (l.map fun i => (p i).elim 0 x.read * (q i).elim 0 d.read).sum)
          {x | X.Encloses x} {d | D.Encloses d}) := by
  have hterm : ∀ i, (((p i).elim 0 X.read).mul ((q i).elim 0 D.read)).IsRange
      ((fun uv : ℝ × ℝ => uv.1 * uv.2) ''
        ((p i).elim 0 X.read).toSet ×ˢ ((q i).elim 0 D.read).toSet) := by
    intro i
    rw [Set.image_prod fun u v : ℝ => u * v]
    exact Bound.isRange_mul (hX.inOrder_elim (p i)) (hD.inOrder_elim (q i))
  rw [← Set.image_prod]
  refine Bound.isRange_total (g := fun i (xd : Tensor ℝ × Tensor ℝ) =>
    ((p i).elim 0 xd.1.read,(q i).elim 0 xd.2.read)) hterm (fun xd hxd i => ?_) fun v hv => ?_
  · exact ⟨hxd.1.contains_elim (p i),hxd.2.contains_elim (q i)⟩
  · obtain ⟨x,hx,hreadx⟩ := hp.exists_encloses hX fun i _ => (hv i).1
    obtain ⟨d,hd,hreadd⟩ := hq.exists_encloses hD fun i _ => (hv i).2
    exact ⟨(x,d),⟨hx,hd⟩,fun i hi => Prod.ext (hreadx i hi) (hreadd i hi)⟩

theorem All.isRange_mul_read (hX : X.All Bound.InOrder) (hD : D.All Bound.InOrder) {i j : ℕ}
    (hi : i < X.shape.prod) (hj : j < D.shape.prod) : ((X.read i).mul (D.read j)).IsRange
      (Set.image2 (fun x d : Tensor ℝ => x.read i * d.read j)
        {x | X.Encloses x} {d | D.Encloses d}) := by
  have hapart : ∀ {k : ℕ} {shape : List ℕ}, k < shape.prod →
      ReadsApart [()] (fun _ => some k) shape := fun hk =>
    ⟨fun _ _ _ _ _ _ _ => rfl,fun _ _ _ h => Option.some.inj h ▸ hk⟩
  simpa [Bound.total] using (hapart hi).isRange_bilinear (hapart hj) hX hD

end Interval
end Sensitivity
