import Sensitivity.Interval.Power
import Sensitivity.Proofs.Exact.Sum

/-! Powers of bounds are exact. The sign and the parity of a whole exponent, and the sign of any
other one, decide on which side of zero the power grows and on which side it falls. Only the
exponent just above the limit of whole exponents is taken for another one. -/
namespace Sensitivity

namespace Scalar

variable {e : ℝ} {l : List ℝ}

theorem powerLoop_eq (acc base : ℝ) (n : ℕ) : powerLoop acc base n = acc * base ^ n := by
  have hacc : ∀ (acc base : ℝ) (n : ℕ),
      (if n % 2 = 1 then acc * base else acc) = acc * base ^ (n % 2) := by
    intro acc base n
    rcases Nat.mod_two_eq_zero_or_one n with h | h <;> simp [h]
  -- Every round keeps the product of `acc` and the power that is left.
  induction acc,base,n using powerLoop.induct with
  | case1 acc base n hhalf =>
    have hmod : n % 2 = n := by omega
    rw [powerLoop,if_pos hhalf,hacc,hmod]
  | case2 acc base n acc' hhalf ih =>
    simp only [acc',dite_eq_ite,hacc] at ih
    rw [powerLoop,if_neg hhalf,hacc,ih,← pow_two,← pow_mul,mul_assoc,← pow_add,Nat.mod_add_div]

theorem ipow_eq (base : ℝ) (n : ℤ) : ipow base n = base ^ n := by
  unfold ipow
  rw [powerLoop_eq,one_mul]
  split
  next hn =>
    have hn' : n = -(n.natAbs : ℤ) := by omega
    rw [one_div,← zpow_natCast,← zpow_neg,← hn']
  next hn =>
    have hn' : n = (n.natAbs : ℤ) := by omega
    rw [← zpow_natCast,← hn']

/-- A whole number that an exponent of whole powers can be. -/
def IsWhole (e : ℝ) : Prop := ∃ n : ℤ, |n| ≤ 2 ^ 31 ∧ e = n

/-- A value that has a power with some exponent: zero has none with a negative exponent, and a value
below zero only those with whole exponents. -/
def HasPower (v e : ℝ) : Prop := 0 < v ∨ (v = 0 ∧ 0 ≤ e) ∨ (v < 0 ∧ ∃ n : ℤ, e = n)

theorem truncate_intCast (n : ℤ) : truncate (n : ℝ) = n := by
  change (if (0 : ℝ) ≤ n then ⌊(n : ℝ)⌋ else ⌈(n : ℝ)⌉) = n
  rw [Int.floor_intCast,Int.ceil_intCast,ite_self]

theorem whole?_intCast {n : ℤ} (hn : |n| ≤ 2 ^ 31) :
    whole? (n : ℝ) = some (min n exponentLimit) := by
  have hsize : magnitude (n : ℝ) ≤ ((exponentLimit + 1 : ℕ) : ℝ) := by
    change |(n : ℝ)| ≤ ((exponentLimit + 1 : ℕ) : ℝ)
    rw [exponentLimit]
    exact_mod_cast hn
  rw [whole?,truncate_intCast,if_pos ⟨hsize,le_rfl,le_rfl⟩]

theorem whole?_eq_none (he : ¬ IsWhole e) : whole? e = none := by
  unfold whole?
  rw [if_neg]
  rintro ⟨hsize,hle,hge⟩
  have htruncate : e = (truncate e : ℤ) := le_antisymm hge hle
  refine he ⟨truncate e,?_,htruncate⟩
  have hsize : |e| ≤ ((exponentLimit + 1 : ℕ) : ℝ) := hsize
  rw [exponentLimit,htruncate] at hsize
  exact_mod_cast hsize

theorem least_spec (h : l ≠ []) : least l ∈ l ∧ ∀ v ∈ l, least l ≤ v := by
  have hfilter : l.filter (fun v => IsNumber v) = l :=
    List.filter_eq_self.mpr fun v _ => decide_eq_true (le_refl v)
  cases l with
  | nil => exact absurd rfl h
  | cons v l =>
    have hmin : (v :: l).min? = some (least (v :: l)) := by
      rw [least,hfilter]
      exact List.min?_cons'
    exact ⟨List.min?_mem hmin,fun w hw => (List.le_min?_iff hmin).mp le_rfl w hw⟩

end Scalar

namespace Bound

variable {b : Bound ℝ} {f : ℝ → ℝ} {n : ℤ} {e : ℝ}

theorem isRange_of_monotoneOn (hb : b.InOrder) (hf : MonotoneOn f b.toSet) :
    IsRange ⟨f b.lower,f b.upper⟩ (f '' b.toSet) :=
  ⟨hf.map_isLeast (isLeast_Icc hb),hf.map_isGreatest (isGreatest_Icc hb)⟩

theorem isRange_of_antitoneOn (hb : b.InOrder) (hf : AntitoneOn f b.toSet) :
    IsRange ⟨f b.upper,f b.lower⟩ (f '' b.toSet) :=
  ⟨hf.map_isGreatest (isGreatest_Icc hb),hf.map_isLeast (isLeast_Icc hb)⟩

/-- Sorting the values at the ends makes the direction of a function irrelevant. -/
theorem isRange_sorted (hb : b.InOrder) (hf : MonotoneOn f b.toSet ∨ AntitoneOn f b.toSet) :
    IsRange ⟨min (f b.lower) (f b.upper),max (f b.lower) (f b.upper)⟩ (f '' b.toSet) := by
  have hlower : b.lower ∈ b.toSet := ⟨le_rfl,hb⟩
  have hupper : b.upper ∈ b.toSet := ⟨hb,le_rfl⟩
  rcases hf with hf | hf
  · rw [min_eq_left (hf hlower hupper hb),max_eq_right (hf hlower hupper hb)]
    exact isRange_of_monotoneOn hb hf
  · rw [min_eq_right (hf hlower hupper hb),max_eq_left (hf hlower hupper hb)]
    exact isRange_of_antitoneOn hb hf

theorem isRange_of_turn {m : ℝ} (hm : b.Contains m) (hl : AntitoneOn f (Set.Icc b.lower m))
    (hr : MonotoneOn f (Set.Icc m b.upper)) :
    IsRange ⟨f m,max (f b.lower) (f b.upper)⟩ (f '' b.toSet) := by
  have hb := hm.1.trans hm.2
  have hlower : f b.lower ∈ f '' b.toSet := ⟨_,⟨le_rfl,hb⟩,rfl⟩
  have hupper : f b.upper ∈ f '' b.toSet := ⟨_,⟨hb,le_rfl⟩,rfl⟩
  refine isRange_of_contains ⟨m,hm,rfl⟩ (max_rec' (· ∈ f '' b.toSet) hlower hupper) ?_
  rintro _ ⟨v,hv,rfl⟩
  rcases le_total v m with hle | hle
  · have hv' : v ∈ Set.Icc b.lower m := ⟨hv.1,hle⟩
    exact ⟨hl hv' ⟨hm.1,le_rfl⟩ hle,(hl ⟨le_rfl,hm.1⟩ hv' hv.1).trans (le_max_left _ _)⟩
  · have hv' : v ∈ Set.Icc m b.upper := ⟨hle,hv.2⟩
    exact ⟨hr ⟨le_rfl,hm.2⟩ hv' hle,(hr hv' ⟨hm.2,le_rfl⟩ hv.2).trans (le_max_right _ _)⟩

theorem pos_or_neg_of_not_containsZero (h : ¬ b.ContainsZero) : 0 < b.lower ∨ b.upper < 0 := by
  by_contra hside
  rw [not_or,not_lt,not_lt] at hside
  exact h hside

theorem toSet_subset_Ioi (h : 0 < b.lower) : b.toSet ⊆ Set.Ioi 0 := fun _ hv => h.trans_le hv.1

theorem toSet_subset_Iio (h : b.upper < 0) : b.toSet ⊆ Set.Iio 0 := fun _ hv => hv.2.trans_lt h

theorem antitoneOn_zpow (hn : n < 0) : AntitoneOn (fun v : ℝ => v ^ n) (Set.Ioi 0) := by
  intro u hu v _ huv
  have hu : 0 < u := hu
  have h := zpow_le_zpow_left₀ (neg_pos.mpr hn).le hu.le huv
  rw [zpow_neg,zpow_neg] at h
  exact (inv_le_inv₀ (zpow_pos hu n) (zpow_pos (hu.trans_le huv) n)).mp h

theorem even_zpow_mono (hn : n < 0) (heven : Even n) :
    MonotoneOn (fun v : ℝ => v ^ n) (Set.Iio 0) := by
  intro u hu v hv huv
  have h := antitoneOn_zpow hn (Set.mem_Ioi.mpr (neg_pos.mpr hv))
    (Set.mem_Ioi.mpr (neg_pos.mpr hu)) (neg_le_neg huv)
  simpa only [heven.neg_zpow] using h

theorem even_zpow_anti (hn : 0 < n) (heven : Even n) :
    AntitoneOn (fun v : ℝ => v ^ n) (Set.Iic 0) := by
  intro u _ v hv huv
  have h := zpow_le_zpow_left₀ hn.le (neg_nonneg.mpr hv) (neg_le_neg huv)
  simpa only [heven.neg_zpow] using h

theorem odd_zpow_mono (hn : 0 < n) (hodd : Odd n) : Monotone fun v : ℝ => v ^ n := by
  lift n to ℕ using hn.le
  have hodd : Odd n := by exact_mod_cast hodd
  simpa only [zpow_natCast] using hodd.strictMono_pow.monotone

theorem odd_zpow_anti (hn : n < 0) (hodd : Odd n) :
    AntitoneOn (fun v : ℝ => v ^ n) (Set.Iio 0) := by
  intro u hu v hv huv
  have h := antitoneOn_zpow hn (Set.mem_Ioi.mpr (neg_pos.mpr hv))
    (Set.mem_Ioi.mpr (neg_pos.mpr hu)) (neg_le_neg huv)
  simp only [hodd.neg_zpow] at h
  exact neg_le_neg_iff.mp h

theorem even_zpow_direction (hn : n ≠ 0) (heven : Even n) (hb : ¬ b.ContainsZero) :
    MonotoneOn (fun v : ℝ => v ^ n) b.toSet ∨ AntitoneOn (fun v : ℝ => v ^ n) b.toSet := by
  rcases lt_or_gt_of_ne hn with hn | hn <;> rcases pos_or_neg_of_not_containsZero hb with h | h
  · exact .inr ((antitoneOn_zpow hn).mono (toSet_subset_Ioi h))
  · exact .inl ((even_zpow_mono hn heven).mono (toSet_subset_Iio h))
  · exact .inl ((zpow_left_monoOn₀ hn.le).mono ((toSet_subset_Ioi h).trans Set.Ioi_subset_Ici_self))
  · exact .inr ((even_zpow_anti hn heven).mono ((toSet_subset_Iio h).trans Set.Iio_subset_Iic_self))

theorem isRange_ipow (hb : b.InOrder) (hn : n ≠ 0) (hzero : n < 0 → ¬ b.ContainsZero) :
    (b.ipow n).IsRange ((fun v => v ^ n) '' b.toSet) := by
  simp only [ipow,Scalar.ipow_eq]
  by_cases heven : n % 2 = 0
  · have hpar : Even n := Int.even_iff.mpr heven
    rw [if_pos heven]
    by_cases hstraddle : 0 < n ∧ b.ContainsZero
    · obtain ⟨hpos,hmem⟩ := hstraddle
      rw [if_pos ⟨hpos,hmem⟩,← zero_zpow n hn]
      exact isRange_of_turn hmem
        ((even_zpow_anti hpos hpar).mono fun _ hv => hv.2)
        ((zpow_left_monoOn₀ hpos.le).mono fun _ hv => hv.1)
    · rw [if_neg hstraddle]
      have haway : ¬ b.ContainsZero := fun hmem =>
        (lt_or_gt_of_ne hn).elim (fun h => hzero h hmem) fun h => hstraddle ⟨h,hmem⟩
      exact isRange_sorted hb (even_zpow_direction hn hpar haway)
  · have hpar : Odd n := Int.not_even_iff_odd.mp (mt Int.even_iff.mp heven)
    rw [if_neg heven]
    rcases lt_or_gt_of_ne hn with hneg | hpos
    · rw [if_neg hneg.not_gt]
      refine isRange_of_antitoneOn (f := fun v => v ^ n) hb ?_
      rcases pos_or_neg_of_not_containsZero (hzero hneg) with h | h
      · exact (antitoneOn_zpow hneg).mono (toSet_subset_Ioi h)
      · exact (odd_zpow_anti hneg hpar).mono (toSet_subset_Iio h)
    · rw [if_pos hpos]
      exact isRange_of_monotoneOn (f := fun v => v ^ n) hb ((odd_zpow_mono hpos hpar).monotoneOn _)

theorem isRange_rpow (hb : b.InOrder) (hpos : 0 < e → 0 ≤ b.lower) (hneg : ¬ 0 < e → 0 < b.lower) :
    (b.rpow e).IsRange ((fun v => v ^ e) '' b.toSet) := by
  unfold rpow
  by_cases he : 0 < e
  · rw [if_pos he]
    exact isRange_of_monotoneOn hb ((Real.monotoneOn_rpow_Ici_of_exponent_nonneg he.le).mono
      fun _ hv => (hpos he).trans hv.1)
  · rw [if_neg he]
    exact isRange_of_antitoneOn hb ((Real.antitoneOn_rpow_Ioi_of_exponent_nonpos
      (not_lt.mp he)).mono (toSet_subset_Ioi (hneg he)))

/-- A bound that an exponent is refused for: it holds zero and the exponent is a negative whole one,
or it starts below zero and the exponent is not whole, or it starts at zero and the exponent is
negative and not whole. -/
def Refuses (b : Bound ℝ) (e : ℝ) : Prop :=
  (Scalar.IsWhole e ∧ e < 0 ∧ b.ContainsZero) ∨ (¬ Scalar.IsWhole e ∧ 0 < e ∧ b.lower < 0) ∨
    (¬ Scalar.IsWhole e ∧ e < 0 ∧ b.lower ≤ 0)

theorem refuses_intCast_iff (hn : |n| ≤ 2 ^ 31) : b.Refuses n ↔ n < 0 ∧ b.ContainsZero := by
  have hwhole : Scalar.IsWhole n := ⟨n,hn,rfl⟩
  simp [Refuses,hwhole]

theorem refuses_iff_of_not_isWhole (he : ¬ Scalar.IsWhole e) :
    b.Refuses e ↔ if 0 < e then b.lower < 0 else b.lower ≤ 0 := by
  have hzero : e ≠ 0 := by
    rintro rfl
    exact he ⟨0,by norm_num,by simp⟩
  rcases lt_or_gt_of_ne hzero with hneg | hpos
  · simp [Refuses,he,hneg,hneg.not_gt]
  · simp [Refuses,he,hpos,hpos.not_gt]

theorem hasPower_of_not_refuses (h : ¬ b.Refuses e) {v : ℝ} (hv : b.Contains v) :
    Scalar.HasPower v e := by
  by_cases he : Scalar.IsWhole e
  · obtain ⟨n,hn,rfl⟩ := he
    rw [refuses_intCast_iff hn] at h
    rcases lt_trichotomy v 0 with hv' | rfl | hv'
    · exact .inr (.inr ⟨hv',n,rfl⟩)
    · exact .inr (.inl ⟨rfl,Int.cast_nonneg (not_lt.mp fun hneg => h ⟨hneg,hv⟩)⟩)
    · exact .inl hv'
  · rw [refuses_iff_of_not_isWhole he] at h
    by_cases hpos : 0 < e
    · rw [if_pos hpos,not_lt] at h
      exact (h.trans hv.1).eq_or_lt.elim (fun hzero => .inr (.inl ⟨hzero.symm,hpos.le⟩)) .inl
    · rw [if_neg hpos,not_le] at h
      exact .inl (h.trans_le hv.1)

end Bound

namespace Interval

variable {X : Interval ℝ} {n : ℤ} {e : ℝ}

theorem zeroCount_pos_iff : 0 < X.zeroCount ↔ ∃ i < X.shape.prod, (X.read i).ContainsZero := by
  rw [zeroCount,List.countP_pos_iff]
  simp only [decide_eq_true_eq,Tensor.mem_toList_iff]
  constructor
  · rintro ⟨_,⟨i,hi,rfl⟩,h⟩
    exact ⟨i,hi,h⟩
  · rintro ⟨i,hi,h⟩
    exact ⟨_,⟨i,hi,rfl⟩,h⟩

theorem smallest_spec (h : X.size ≠ 0) : (∃ i < X.shape.prod, (X.read i).lower = X.smallest) ∧
    ∀ i < X.shape.prod, X.smallest ≤ (X.read i).lower := by
  have hne : X.toList.map Bound.lower ≠ [] := by
    simpa [Tensor.toList,Tensor.size] using h
  obtain ⟨hmem,hle⟩ := Scalar.least_spec hne
  obtain ⟨b,hb,hlower⟩ := List.mem_map.mp hmem
  obtain ⟨i,hi,rfl⟩ := Tensor.mem_toList_iff.mp hb
  refine ⟨⟨i,hi,hlower⟩,fun j hj => hle _ ?_⟩
  exact List.mem_map_of_mem (Tensor.mem_toList_iff.mpr ⟨j,hj,rfl⟩)

theorem power_zero (X : Interval ℝ) : X.power 0 = .ok (X.map fun _ => Bound.point 1) := by
  rw [power,if_pos ⟨le_rfl,le_rfl⟩]
  refine congrArg Except.ok (Tensor.ext rfl ?_)
  simp [Tensor.fill,Tensor.map,← X.size_cells,Array.map_const']

theorem power_intCast (X : Interval ℝ) (hn : n ≠ 0) (hsize : |n| ≤ 2 ^ 31) :
    X.power n = X.wholePower (min n Scalar.exponentLimit) := by
  have hzero : ¬ Scalar.Same (n : ℝ) 0 := fun h => hn (Int.cast_eq_zero.mp (le_antisymm h.1 h.2))
  rw [power,if_neg hzero,Scalar.whole?_intCast hsize]

theorem power_limit (X : Interval ℝ) : X.power (2 ^ 31) = X.power (2 ^ 31 - 1) := by
  have habove : (2 ^ 31 : ℝ) = (2 ^ 31 : ℤ) := by norm_num
  have hlimit : (2 ^ 31 - 1 : ℝ) = (2 ^ 31 - 1 : ℤ) := by norm_num
  rw [hlimit,habove,X.power_intCast (by norm_num) (by norm_num),
    X.power_intCast (by norm_num) (by norm_num)]
  rfl

open Classical in
theorem power_whole (X : Interval ℝ) (hn : n ≠ 0) (hsize : |n| ≤ 2 ^ 31) (hlimit : n ≠ 2 ^ 31) :
    X.power n = if ∃ i < X.shape.prod, (X.read i).Refuses n
      then .error (.outsideDomain (.wholePower n X.zeroCount))
      else .ok (X.map (Bound.ipow · n)) := by
  have hmin : min n Scalar.exponentLimit = n := by
    have hle := (abs_le.mp hsize).2
    rw [Scalar.exponentLimit]
    omega
  have hrefuses : n < 0 ∧ 0 < X.zeroCount ↔ ∃ i < X.shape.prod, (X.read i).Refuses n := by
    simp only [Bound.refuses_intCast_iff hsize,zeroCount_pos_iff]
    constructor
    · rintro ⟨hneg,i,hi,hzero⟩
      exact ⟨i,hi,hneg,hzero⟩
    · rintro ⟨i,hi,hneg,hzero⟩
      exact ⟨hneg,i,hi,hzero⟩
  rw [X.power_intCast hn hsize,hmin,wholePower]
  exact if_congr hrefuses rfl rfl

theorem refuses_iff_smallest (he : ¬ Scalar.IsWhole e) :
    (∃ i < X.shape.prod, (X.read i).Refuses e) ↔
      X.size ≠ 0 ∧ if 0 < e then X.smallest < 0 else X.smallest ≤ 0 := by
  simp only [Bound.refuses_iff_of_not_isWhole he]
  constructor
  · rintro ⟨i,hi,h⟩
    have hne : X.size ≠ 0 := X.size_eq ▸ (Nat.zero_lt_of_lt hi).ne'
    have hle := (smallest_spec hne).2 i hi
    refine ⟨hne,?_⟩
    split at h
    next hpos => exact if_pos hpos ▸ hle.trans_lt h
    next hpos => exact if_neg hpos ▸ hle.trans h
  · rintro ⟨hne,h⟩
    obtain ⟨i,hi,hlower⟩ := (smallest_spec hne).1
    exact ⟨i,hi,hlower ▸ h⟩

open Classical in
theorem power_real (X : Interval ℝ) (he : ¬ Scalar.IsWhole e) :
    X.power e = if ∃ i < X.shape.prod, (X.read i).Refuses e
      then .error (.outsideDomain (.realPower e (¬ 0 < e) X.smallest))
      else .ok (X.map (Bound.rpow · e)) := by
  have hzero : ¬ Scalar.Same e 0 := fun h => he ⟨0,by norm_num,by simpa using le_antisymm h.1 h.2⟩
  rw [power,if_neg hzero,Scalar.whole?_eq_none he]
  refine if_congr (Iff.trans ?_ (refuses_iff_smallest he).symm) rfl rfl
  split <;> simp [and_comm]

open Classical in
/-- One rule, exact for each cell, gives all cells of a power unless the exponent is refused. -/
theorem exists_power_eq (X : Interval ℝ) (he : e ≠ 2 ^ 31) : ∃ cause f,
    X.power e = (if ∃ i < X.shape.prod, (X.read i).Refuses e then .error (.outsideDomain cause)
      else .ok (X.map f)) ∧
    ∀ b : Bound ℝ, b.InOrder → ¬ b.Refuses e → (f b).IsRange ((fun v => v ^ e) '' b.toSet) := by
  by_cases hwhole : Scalar.IsWhole e
  · obtain ⟨n,hn,rfl⟩ := hwhole
    simp only [Real.rpow_intCast]
    by_cases hzero : n = 0
    · subst hzero
      refine ⟨.wholePower 0 0,fun _ => Bound.point 1,?_,fun b hb _ => ?_⟩
      · have hfree : ¬ ∃ i < X.shape.prod, (X.read i).Refuses (0 : ℤ) := by
          rintro ⟨i,-,h⟩
          exact lt_irrefl 0 ((Bound.refuses_intCast_iff hn).mp h).1
        rw [if_neg hfree,Int.cast_zero]
        exact X.power_zero
      · simpa [Bound.point] using Bound.isRange_of_monotoneOn (f := fun _ => 1) hb monotoneOn_const
    · have hlimit : n ≠ 2 ^ 31 := fun h => he (by exact_mod_cast h)
      refine ⟨_,_,X.power_whole hzero hn hlimit,fun b hb hfree => ?_⟩
      rw [Bound.refuses_intCast_iff hn] at hfree
      exact Bound.isRange_ipow hb hzero fun hneg hmem => hfree ⟨hneg,hmem⟩
  · refine ⟨_,_,X.power_real hwhole,fun b hb hfree => ?_⟩
    rw [Bound.refuses_iff_of_not_isWhole hwhole] at hfree
    exact Bound.isRange_rpow hb (fun hpos => by simpa [hpos] using hfree)
      fun hpos => by simpa [hpos] using hfree

/-- With any exponent but the one above the limit, a power fails exactly if the exponent is refused
for a cell, and otherwise each cell takes the exact range of the powers of its values. The exponent
above the limit gives the power of the limit, which is odd. -/
theorem exact_power (hX : X.All Bound.InOrder) (e : ℝ) :
    (e ≠ 2 ^ 31 →
      ((∃ cause, X.power e = .error (.outsideDomain cause)) ↔
        ∃ i < X.shape.prod, (X.read i).Refuses e) ∧
      ((¬ ∃ i < X.shape.prod, (X.read i).Refuses e) → ∃ Y, X.power e = .ok Y ∧ Y.shape = X.shape ∧
        ∀ i < X.shape.prod, (Y.read i).InOrder ∧ (Y.read i).IsRange
          ((fun v => v ^ e) '' {v | (X.read i).Contains v ∧ Scalar.HasPower v e}))) ∧
    X.power (2 ^ 31) = X.power (2 ^ 31 - 1) := by
  refine ⟨fun he => ?_,X.power_limit⟩
  obtain ⟨cause,f,hpower,hrange⟩ := X.exists_power_eq he
  by_cases hrefuses : ∃ i < X.shape.prod, (X.read i).Refuses e
  · rw [if_pos hrefuses] at hpower
    exact ⟨iff_of_true ⟨cause,hpower⟩ hrefuses,fun h => absurd hrefuses h⟩
  · rw [if_neg hrefuses] at hpower
    refine ⟨iff_of_false (by simp [hpower]) hrefuses,fun _ => ⟨_,hpower,rfl,fun i hi => ?_⟩⟩
    have hfree : ¬ (X.read i).Refuses e := fun h => hrefuses ⟨i,hi,h⟩
    have hvalues : {v | (X.read i).Contains v ∧ Scalar.HasPower v e} = (X.read i).toSet :=
      Set.ext fun v => and_iff_left_of_imp (Bound.hasPower_of_not_refuses hfree)
    rw [Tensor.read_map f X hi,hvalues]
    have hcell := hrange _ (hX i hi) hfree
    exact ⟨hcell.inOrder,hcell⟩

/-- The squares of a bound that straddles zero and of one that starts there. -/
theorem exact_power_squares : ∃ X Y : Interval ℝ, X.All Bound.InOrder ∧ X.read 0 = ⟨-2,1⟩ ∧
    X.read 1 = ⟨0,3⟩ ∧ X.power 2 = .ok Y ∧ (∀ i < 2, (Y.read i).InOrder ∧ (Y.read i).IsRange
      ((fun v => v ^ (2 : ℝ)) '' {v | (X.read i).Contains v ∧ Scalar.HasPower v 2})) ∧
    X.power (2 ^ 31) = X.power (2 ^ 31 - 1) := by
  let X : Interval ℝ := ⟨[2],#[⟨-2,1⟩,⟨0,3⟩],rfl⟩
  have hX : X.All Bound.InOrder := by
    intro i hi
    have hi : i < 2 := hi
    interval_cases i <;> norm_num [X,Tensor.read,Bound.InOrder]
  obtain ⟨hpower,hlimit⟩ := exact_power hX 2
  have hfree : ¬ ∃ i < X.shape.prod, (X.read i).Refuses 2 := by
    rintro ⟨i,-,hrefuses⟩
    have hrefuses : (X.read i).Refuses (2 : ℤ) := by exact_mod_cast hrefuses
    exact absurd ((Bound.refuses_intCast_iff (by norm_num)).mp hrefuses).1 (by norm_num)
  obtain ⟨Y,hY,-,hcells⟩ := (hpower (by norm_num)).2 hfree
  exact ⟨X,Y,hX,rfl,rfl,hY,hcells,hlimit⟩

end Interval
end Sensitivity
