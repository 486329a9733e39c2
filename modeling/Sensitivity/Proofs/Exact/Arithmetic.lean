import Sensitivity.Proofs.Exact.Power

/-! The arithmetic of bounds is exact. Most rules grow or fall along each operand, so their extreme
values are at its ends; a product and a quotient go one way or the other along each factor and have
them at corners; a square and an absolute value turn at zero. -/
namespace Sensitivity

namespace Bound

variable {a b : Bound ℝ} {p q p' q' : ℝ} {f : ℝ → ℝ → ℝ}

theorem isRange_of_corners (hp : a.Contains p) (hq : b.Contains q) (hp' : a.Contains p')
    (hq' : b.Contains q')
    (h : ∀ u v, a.Contains u → b.Contains v → f p q ≤ f u v ∧ f u v ≤ f p' q') :
    IsRange ⟨f p q,f p' q'⟩ (Set.image2 f a.toSet b.toSet) := by
  refine isRange_of_contains ⟨p,hp,q,hq,rfl⟩ ⟨p',hp',q',hq',rfl⟩ ?_
  rintro _ ⟨u,hu,v,hv,rfl⟩
  exact h u v hu hv

theorem contains_lower (ha : a.InOrder) : a.Contains a.lower := ⟨le_rfl,ha⟩

theorem contains_upper (ha : a.InOrder) : a.Contains a.upper := ⟨ha,le_rfl⟩

theorem isRange_add (ha : a.InOrder) (hb : b.InOrder) :
    (a.add b).IsRange (Set.image2 (· + ·) a.toSet b.toSet) :=
  isRange_of_corners (contains_lower ha) (contains_lower hb) (contains_upper ha)
    (contains_upper hb) fun _ _ hu hv => ⟨add_le_add hu.1 hv.1,add_le_add hu.2 hv.2⟩

theorem isRange_sub (ha : a.InOrder) (hb : b.InOrder) :
    (a.sub b).IsRange (Set.image2 (· - ·) a.toSet b.toSet) :=
  isRange_of_corners (contains_lower ha) (contains_upper hb) (contains_upper ha)
    (contains_lower hb) fun _ _ hu hv => ⟨sub_le_sub hu.1 hv.2,sub_le_sub hu.2 hv.1⟩

theorem isRange_max (ha : a.InOrder) (hb : b.InOrder) :
    IsRange ⟨max a.lower b.lower,max a.upper b.upper⟩ (Set.image2 max a.toSet b.toSet) :=
  isRange_of_corners (contains_lower ha) (contains_lower hb) (contains_upper ha)
    (contains_upper hb) fun _ _ hu hv => ⟨max_le_max hu.1 hv.1,max_le_max hu.2 hv.2⟩

theorem isRange_shift (ha : a.InOrder) (s : ℝ) :
    IsRange ⟨a.lower + s,a.upper + s⟩ ((· + s) '' a.toSet) :=
  isRange_of_monotoneOn ha fun _ _ _ _ h => add_le_add_left h s

theorem isRange_max_const (ha : a.InOrder) (s : ℝ) :
    IsRange ⟨max a.lower s,max a.upper s⟩ ((max · s) '' a.toSet) :=
  isRange_of_monotoneOn ha fun _ _ _ _ h => max_le_max_right s h

theorem isRange_neg (ha : a.InOrder) : a.neg.IsRange ((-·) '' a.toSet) :=
  isRange_of_antitoneOn ha fun _ _ _ _ h => neg_le_neg h

theorem isRange_scale (ha : a.InOrder) (s : ℝ) :
    IsRange (if 0 ≤ s then ⟨a.lower * s,a.upper * s⟩ else ⟨a.upper * s,a.lower * s⟩)
      ((· * s) '' a.toSet) := by
  split
  next hs => exact isRange_of_monotoneOn ha fun _ _ _ _ h => mul_le_mul_of_nonneg_right h hs
  next hs =>
    have hs := (not_le.mp hs).le
    exact isRange_of_antitoneOn ha fun _ _ _ _ h => mul_le_mul_of_nonpos_right h hs

theorem monotoneOn_abs : MonotoneOn (fun v : ℝ => |v|) (Set.Ici 0) := fun u hu v hv huv => by
  simpa only [abs_of_nonneg (Set.mem_Ici.mp hu),abs_of_nonneg (Set.mem_Ici.mp hv)] using huv

theorem antitoneOn_abs : AntitoneOn (fun v : ℝ => |v|) (Set.Iic 0) := fun u hu v hv huv => by
  simpa only [abs_of_nonpos (Set.mem_Iic.mp hu),abs_of_nonpos (Set.mem_Iic.mp hv)] using
    neg_le_neg huv

theorem isRange_abs (ha : a.InOrder) : a.abs.IsRange ((fun v => |v|) '' a.toSet) := by
  unfold abs
  split
  next hpos =>
    have h := isRange_of_monotoneOn (f := fun v => |v|) ha
      (monotoneOn_abs.mono ((toSet_subset_Ioi hpos).trans Set.Ioi_subset_Ici_self))
    rwa [abs_of_pos hpos,abs_of_pos (hpos.trans_le ha)] at h
  next hpos =>
    have hlower := not_lt.mp hpos
    split
    next hneg =>
      have h := isRange_of_antitoneOn (f := fun v => |v|) ha
        (antitoneOn_abs.mono ((toSet_subset_Iio hneg).trans Set.Iio_subset_Iic_self))
      rwa [abs_of_neg hneg,abs_of_nonpos hlower] at h
    next hneg =>
      have hupper := not_lt.mp hneg
      have h := isRange_of_turn (b := a) (f := fun v => |v|) ⟨hlower,hupper⟩
        (antitoneOn_abs.mono fun _ hv => hv.2) (monotoneOn_abs.mono fun _ hv => hv.1)
      rwa [abs_zero,abs_of_nonpos hlower,abs_of_nonneg hupper] at h

theorem isRange_reciprocal (ha : a.InOrder) (hzero : ¬ a.ContainsZero) :
    IsRange ⟨1 / a.upper,1 / a.lower⟩ ((1 / ·) '' a.toSet) := by
  refine isRange_of_antitoneOn (f := (1 / ·)) ha ?_
  intro u hu v hv huv
  rcases pos_or_neg_of_not_containsZero hzero with hpos | hneg
  · exact one_div_le_one_div_of_le (toSet_subset_Ioi hpos hu) huv
  · exact one_div_le_one_div_of_neg_of_le (toSet_subset_Iio hneg hv) huv

theorem div_eq_mul (a b : Bound ℝ) : a.div b = a.mul ⟨1 / b.upper,1 / b.lower⟩ := by
  simp only [div,mul,corners,mul_one_div]
  rw [min_comm (a.lower / b.lower),min_comm (a.upper / b.lower),max_comm (a.lower / b.lower),
    max_comm (a.upper / b.lower)]

theorem isRange_div (ha : a.InOrder) (hb : b.InOrder) (hzero : ¬ b.ContainsZero) :
    (a.div b).IsRange (Set.image2 (· / ·) a.toSet b.toSet) := by
  have h := (isRange_toSet ha).mul (isRange_reciprocal hb hzero)
  rw [Set.image2_image_right] at h
  simpa only [div_eq_mul,mul_one_div] using h

theorem isLeast_hullWithZero (ha : a.InOrder) :
    IsLeast {s | ∃ c : Bound ℝ, c.toSet = s ∧ a.toSet ⊆ s ∧ 0 ∈ s} a.hullWithZero.toSet := by
  constructor
  · refine ⟨a.hullWithZero,rfl,fun v hv => ?_,min_le_right _ _,le_max_right _ _⟩
    exact ⟨(min_le_left _ _).trans hv.1,hv.2.trans (le_max_left _ _)⟩
  · rintro _ ⟨c,rfl,hsub,hzero⟩
    have hlower := hsub (contains_lower ha)
    have hupper := hsub (contains_upper ha)
    exact Set.Icc_subset_Icc (le_min hlower.1 hzero.1) (max_le hupper.2 hzero.2)

end Bound

namespace Interval

variable {X Y : Interval ℝ} {s : ℝ}

/-- The values of a cell. -/
def cell (X : Interval ℝ) (i : ℕ) : Set ℝ := (X.read i).toSet

/-- An interval of some shape, each of whose cells is the exact range of a set. -/
structure HasRanges (R : Interval ℝ) (extents : List ℕ) (s : ℕ → Set ℝ) : Prop where
  shape : R.shape = extents
  cells : ∀ i < extents.prod, (R.read i).IsRange (s i)

/-- What an operation on tensors of two shapes ends in, if it is refused exactly when these differ,
and else gives the exact ranges of some sets. -/
structure Joins (r : Except (Error ℝ) (Interval ℝ)) (shape other : List ℕ) (s : ℕ → Set ℝ) :
    Prop where
  refused : r = .error (.shapeMismatch shape other) ↔ shape ≠ other
  exact : shape = other → ∃ R, r = .ok R ∧ R.HasRanges shape s

/-- What a division by the cells of an interval ends in, if it is outside its domain exactly when
one of them contains zero, and else gives the exact ranges of some sets. -/
structure Divides (r : Except (Error ℝ) (Interval ℝ)) (divisor : Interval ℝ) (shape : List ℕ)
    (s : ℕ → Set ℝ) : Prop where
  outside : (∃ cause, r = .error (.outsideDomain cause)) ↔
    ∃ i < divisor.shape.prod, (divisor.read i).ContainsZero
  exact : (∀ i < divisor.shape.prod, ¬ (divisor.read i).ContainsZero) →
    ∃ R, r = .ok R ∧ R.HasRanges shape s

theorem hasRanges_map {f : Bound ℝ → Bound ℝ} {s : ℕ → Set ℝ}
    (h : ∀ i < X.shape.prod, (f (X.read i)).IsRange (s i)) :
    HasRanges (X.map f) X.shape s := by
  refine ⟨rfl,fun i hi => ?_⟩
  rw [Tensor.read_map f X hi]
  exact h i hi

theorem joins_zip {β : Type} [Inhabited β] {f : Bound ℝ → β → Bound ℝ} {T : Tensor β}
    {s : ℕ → Set ℝ} (h : ∀ i < X.shape.prod, i < T.shape.prod →
      (f (X.read i) (T.read i)).IsRange (s i)) :
    Joins (Tensor.zip f X T) X.shape T.shape s := by
  constructor
  · unfold Tensor.zip
    split <;> simp_all
  · intro hshape
    obtain ⟨R,hR⟩ := Tensor.exists_zip (α := ℝ) f hshape
    obtain ⟨-,hRshape,hread⟩ := Tensor.zip_eq_ok_iff.mp hR
    refine ⟨R,hR,hRshape,fun i hi => ?_⟩
    rw [hread i hi]
    exact h i hi (hshape ▸ hi)

theorem joins_zip_ranges {f : Bound ℝ → Bound ℝ → Bound ℝ} {g : ℝ → ℝ → ℝ}
    (hX : X.All Bound.InOrder) (hY : Y.All Bound.InOrder)
    (h : ∀ a b : Bound ℝ, a.InOrder → b.InOrder → (f a b).IsRange (Set.image2 g a.toSet b.toSet)) :
    Joins (Tensor.zip f X Y) X.shape Y.shape fun i => Set.image2 g (X.cell i) (Y.cell i) :=
  joins_zip fun i hi hi' => h _ _ (hX i hi) (hY i hi')

theorem zeroCount_not_pos (h : ∀ i < X.shape.prod, ¬ (X.read i).ContainsZero) :
    ¬ 0 < X.zeroCount := by
  rw [zeroCount_pos_iff]
  rintro ⟨i,hi,hzero⟩
  exact h i hi hzero

theorem divides_reciprocal (hX : X.All Bound.InOrder) :
    Divides X.reciprocal X X.shape fun i => (1 / ·) '' X.cell i := by
  constructor
  · rw [← zeroCount_pos_iff]
    unfold reciprocal
    split <;> simp_all
  · intro hzero
    refine ⟨_,if_neg (zeroCount_not_pos hzero),hasRanges_map fun i hi => ?_⟩
    exact Bound.isRange_reciprocal (hX i hi) (hzero i hi)

theorem div_of_shape_eq (hshape : X.shape = Y.shape) :
    X.div Y = if 0 < Y.zeroCount then .error (.outsideDomain (.division Y.zeroCount))
      else Tensor.zip Bound.div X Y :=
  if_neg (not_not.mpr hshape)

theorem div_shapeMismatch_iff :
    X.div Y = .error (.shapeMismatch X.shape Y.shape) ↔ X.shape ≠ Y.shape := by
  refine ⟨fun h hshape => ?_,fun hshape => if_pos hshape⟩
  obtain ⟨R,hR⟩ := Tensor.exists_zip (α := ℝ) Bound.div hshape
  rw [div_of_shape_eq hshape,hR] at h
  split at h <;> cases h

theorem divides_div (hX : X.All Bound.InOrder) (hY : Y.All Bound.InOrder)
    (hshape : X.shape = Y.shape) :
    Divides (X.div Y) Y X.shape fun i => Set.image2 (· / ·) (X.cell i) (Y.cell i) := by
  obtain ⟨R,hR⟩ := Tensor.exists_zip (α := ℝ) Bound.div hshape
  rw [div_of_shape_eq hshape,hR]
  constructor
  · rw [← zeroCount_pos_iff]
    split <;> simp_all
  · intro hzero
    obtain ⟨-,hRshape,hread⟩ := Tensor.zip_eq_ok_iff.mp hR
    refine ⟨R,if_neg (zeroCount_not_pos hzero),hRshape,fun i hi => ?_⟩
    have hi' : i < Y.shape.prod := hshape ▸ hi
    rw [hread i hi]
    exact Bound.isRange_div (hX i hi) (hY i hi') (hzero i hi')

/-- In exact arithmetic the elementary operations on intervals take the exact range of each cell,
and the hull with zero is the least bound that holds a cell and zero. Operations on two tensors are
refused exactly for different shapes; a quotient of one shape and a reciprocal are refused exactly
when a cell of the divisor contains zero. -/
theorem exact_arithmetic (hX : X.All Bound.InOrder) (hY : Y.All Bound.InOrder) (v : Tensor ℝ)
    (s : ℝ) :
    Joins (X.add Y) X.shape Y.shape (fun i => Set.image2 (· + ·) (X.cell i) (Y.cell i)) ∧
    Joins (X.sub Y) X.shape Y.shape (fun i => Set.image2 (· - ·) (X.cell i) (Y.cell i)) ∧
    Joins (X.mul Y) X.shape Y.shape (fun i => Set.image2 (· * ·) (X.cell i) (Y.cell i)) ∧
    Joins (X.sup Y) X.shape Y.shape (fun i => Set.image2 max (X.cell i) (Y.cell i)) ∧
    Joins (X.addTensor v) X.shape v.shape (fun i => (· + v.read i) '' X.cell i) ∧
    Joins (X.mulTensor v) X.shape v.shape (fun i => (· * v.read i) '' X.cell i) ∧
    (X.div Y = .error (.shapeMismatch X.shape Y.shape) ↔ X.shape ≠ Y.shape) ∧
    (X.shape = Y.shape → Divides (X.div Y) Y X.shape fun i =>
      Set.image2 (· / ·) (X.cell i) (Y.cell i)) ∧
    Divides X.reciprocal X X.shape (fun i => (1 / ·) '' X.cell i) ∧
    (X.scale s).HasRanges X.shape (fun i => (· * s) '' X.cell i) ∧
    (X.supScalar s).HasRanges X.shape (fun i => (max · s) '' X.cell i) ∧
    X.neg.HasRanges X.shape (fun i => (-·) '' X.cell i) ∧
    X.square.HasRanges X.shape (fun i => (· ^ 2) '' X.cell i) ∧
    X.abs.HasRanges X.shape (fun i => (fun u => |u|) '' X.cell i) ∧
    X.hullWithZero.shape = X.shape ∧ ∀ i < X.shape.prod,
      IsLeast {S | ∃ c : Bound ℝ, c.toSet = S ∧ X.cell i ⊆ S ∧ 0 ∈ S} (X.hullWithZero.cell i) := by
  refine ⟨joins_zip_ranges hX hY fun _ _ => Bound.isRange_add,
    joins_zip_ranges hX hY fun _ _ => Bound.isRange_sub,
    joins_zip_ranges hX hY fun _ _ => Bound.isRange_mul,
    joins_zip_ranges hX hY fun _ _ => Bound.isRange_max,
    joins_zip fun i hi _ => Bound.isRange_shift (hX i hi) (v.read i),
    joins_zip fun i hi _ => (Bound.isRange_toSet (hX i hi)).scale (v.read i),
    div_shapeMismatch_iff,divides_div hX hY,divides_reciprocal hX,
    hasRanges_map fun i hi => Bound.isRange_scale (hX i hi) s,
    hasRanges_map fun i hi => Bound.isRange_max_const (hX i hi) s,
    hasRanges_map fun i hi => Bound.isRange_neg (hX i hi),hasRanges_map fun i hi => ?_,
    hasRanges_map fun i hi => Bound.isRange_abs (hX i hi),rfl,fun i hi => ?_⟩
  · have hsquare : (fun u : ℝ => u ^ 2) = fun u => u * u := funext pow_two
    rw [hsquare]
    exact Bound.isRange_square (hX i hi)
  · have hcell : X.hullWithZero.cell i = (X.read i).hullWithZero.toSet :=
      congrArg Bound.toSet (Tensor.read_map _ _ hi)
    rw [hcell]
    exact Bound.isLeast_hullWithZero (hX i hi)

/-- Cells around and below zero, divided by cells on either side of it. -/
theorem exact_arithmetic_signs : ∃ X Y Q : Interval ℝ, X.All Bound.InOrder ∧
    Y.All Bound.InOrder ∧ X.read 0 = ⟨-1,2⟩ ∧ Y.read 0 = ⟨-2,-1⟩ ∧ X.div Y = .ok Q ∧
    (∀ i < 2, (Q.read i).IsRange (Set.image2 (· / ·) (X.cell i) (Y.cell i))) ∧
    (∃ cause, X.reciprocal = .error (.outsideDomain cause)) ∧
    (X.scale (-2)).HasRanges [2] (fun i => (· * (-2)) '' X.cell i) ∧
    X.abs.HasRanges [2] (fun i => (fun u => |u|) '' X.cell i) := by
  let X : Interval ℝ := ⟨[2],#[⟨-1,2⟩,⟨-3,-1⟩],rfl⟩
  let Y : Interval ℝ := ⟨[2],#[⟨-2,-1⟩,⟨1,3⟩],rfl⟩
  have hX : X.All Bound.InOrder := by
    intro i hi
    have hi : i < 2 := hi
    interval_cases i <;> norm_num [X,Tensor.read,Bound.InOrder]
  have hY : Y.All Bound.InOrder := by
    intro i hi
    have hi : i < 2 := hi
    interval_cases i <;> norm_num [Y,Tensor.read,Bound.InOrder]
  have hfree : ∀ i < Y.shape.prod, ¬ (Y.read i).ContainsZero := by
    intro i hi
    have hi : i < 2 := hi
    interval_cases i <;> norm_num [Y,Tensor.read,Bound.ContainsZero]
  obtain ⟨-,-,-,-,-,-,-,hdiv,hreciprocal,hscale,-,-,-,habs,-⟩ := exact_arithmetic hX hY X.lower (-2)
  obtain ⟨Q,hQ,hcells⟩ := (hdiv rfl).exact hfree
  have hzero : (X.read 0).ContainsZero := by constructor <;> norm_num [X,Tensor.read]
  exact ⟨X,Y,Q,hX,hY,rfl,rfl,hQ,hcells.cells,hreciprocal.outside.mpr ⟨0,by decide,hzero⟩,hscale,
    habs⟩

end Interval
end Sensitivity
