import Sensitivity.Single
import Sensitivity.Proofs.Numeric.Rounding

/-! The exact values of floats. They grow with the bodies of the floats, and the float of a ratio
is one of those nearest to it. -/
namespace Sensitivity.Single

open Numeric

/-- The exact value of a finite float. -/
def toRat (x : Single) : ℚ := if x.negative then -x.size.value else x.size.value

/-- A finite float such that no other one is nearer to a value. -/
structure IsNearest (x : Single) (q : ℚ) : Prop where
  isFinite : x.isFinite
  dist_le : ∀ y : Single, y.isFinite → |x.toRat - q| ≤ |y.toRat - q|

variable {x y : Single}

theorem isFinite_iff : x.isFinite ↔ x.body < 255 * 2 ^ (23 : ℕ) := decide_eq_true_iff

theorem isNaN_of_isFinite (h : x.isFinite) : x.isNaN = false :=
  decide_eq_false (not_lt.mpr (isFinite_iff.mp h).le)

theorem toRat_of_nonneg (h : x.negative = false) : x.toRat = x.size.value := by
  simp [toRat,h]

/-- The part of the body that gives the exponent. -/
def field (x : Single) : ℕ := x.body / 2 ^ (23 : ℕ)

/-- The part of the body that gives the significand. -/
def fraction (x : Single) : ℕ := x.body % 2 ^ (23 : ℕ)

theorem body_eq (x : Single) : x.body = 2 ^ (23 : ℕ) * x.field + x.fraction :=
  (Nat.div_add_mod _ _).symm

theorem fraction_lt (x : Single) : x.fraction < 2 ^ (23 : ℕ) := Nat.mod_lt _ (Nat.two_pow_pos 23)

theorem size_eq (x : Single) : x.size =
    if x.field = 0 then ⟨x.fraction,-149⟩ else ⟨2 ^ (23 : ℕ) + x.fraction,(x.field : ℤ) - 150⟩ := rfl

theorem holds_size (h : x.isFinite) : binary32.Holds x.size := by
  have hbody := isFinite_iff.mp h
  have hfraction := x.fraction_lt
  rw [body_eq] at hbody
  rw [size_eq]
  split
  next => exact ⟨by simp only [binary32]; omega,le_rfl,by simp only [binary32]; decide,.inl rfl⟩
  next hzero => refine ⟨?_,?_,?_,.inr ?_⟩ <;> simp only [binary32] <;> omega

/-- A size is at most a power of two that the sizes of all greater exponents reach. -/
theorem value_size_bounds (x : Single) : x.size.value ≤ 2 ^ ((x.field : ℤ) - 126) ∧
    (x.field ≠ 0 → 2 ^ ((x.field : ℤ) - 127) ≤ x.size.value) := by
  have hfraction := x.fraction_lt
  have hpower : ∀ (n : ℕ) (e : ℤ), (2 : ℚ) ^ (e + n) = (2 ^ n : ℕ) * 2 ^ e := by
    intro n e
    rw [add_comm,zpow_add₀ two_ne_zero]
    push_cast
    rfl
  rw [size_eq]
  split
  next hzero =>
    refine ⟨?_,fun hne => absurd hzero hne⟩
    rw [hzero,show ((0 : ℕ) : ℤ) - 126 = -149 + (23 : ℕ) by norm_num,hpower]
    unfold Magnitude.value
    gcongr
  next hzero =>
    rw [show (x.field : ℤ) - 126 = x.field - 150 + (24 : ℕ) by ring,hpower,
      show (x.field : ℤ) - 127 = x.field - 150 + (23 : ℕ) by ring,hpower]
    unfold Magnitude.value
    constructor
    · gcongr
      simp only
      omega
    · intro _
      gcongr
      simp only
      omega

theorem value_size_le (h : x.body ≤ y.body) : x.size.value ≤ y.size.value := by
  have hx := x.body_eq
  have hy := y.body_eq
  obtain hfield | hfield := (show x.field ≤ y.field from Nat.div_le_div_right h).eq_or_lt
  · have hfraction : x.fraction ≤ y.fraction := by
      rw [hfield] at hx
      omega
    rw [size_eq,size_eq,hfield]
    unfold Magnitude.value
    split <;> simp only <;> gcongr
  · calc x.size.value ≤ 2 ^ ((x.field : ℤ) - 126) := x.value_size_bounds.1
      _ ≤ 2 ^ ((y.field : ℤ) - 127) := zpow_le_zpow_right₀ one_le_two (by omega)
      _ ≤ y.size.value := y.value_size_bounds.2 (by omega)

theorem body_ofBody (negative : Bool) {body : ℕ} (h : body < 2 ^ (31 : ℕ)) :
    (ofBody negative body).body = body := by
  cases negative <;> simp [Single.body,ofBody] <;> omega

theorem negative_ofBody (negative : Bool) {body : ℕ} (h : body < 2 ^ (31 : ℕ)) :
    (ofBody negative body).negative = negative := by
  cases negative <;> simp [Single.negative,ofBody] <;> omega

theorem size_ofSize {m : Magnitude} (negative : Bool) (hm : binary32.Holds m) :
    (ofSize negative (some m)).size = m ∧ (ofSize negative (some m)).isFinite ∧
      (ofSize negative (some m)).negative = negative := by
  obtain ⟨s,e⟩ := m
  obtain ⟨hs,hleast,hgreatest,hfull⟩ := hm
  simp only [binary32] at hs hleast hgreatest hfull
  have hfloat : ∀ body < 255 * 2 ^ (23 : ℕ), (ofBody negative body).body = body ∧
      (ofBody negative body).isFinite ∧ (ofBody negative body).negative = negative := by
    intro body hbody
    have hsame := body_ofBody negative (show body < 2 ^ (31 : ℕ) by omega)
    exact ⟨hsame,isFinite_iff.mpr (hsame.trans_lt hbody),negative_ofBody negative (by omega)⟩
  unfold ofSize
  simp only
  split
  next hsmall =>
    obtain ⟨hbody,hrest⟩ := hfloat s (by omega)
    refine ⟨?_,hrest⟩
    rw [size_eq,field,fraction,hbody,Nat.div_eq_of_lt hsmall,Nat.mod_eq_of_lt hsmall,if_pos rfl,
      hfull.resolve_right (by omega)]
  next hsmall =>
    obtain ⟨hbody,hrest⟩ :=
      hfloat ((e + 150).toNat * 2 ^ (23 : ℕ) + (s - 2 ^ (23 : ℕ))) (by omega)
    refine ⟨?_,hrest⟩
    rw [size_eq,field,fraction,hbody,if_neg (by omega),Magnitude.mk.injEq]
    omega

/-- The float of a ratio between normal values is one of those nearest to it, and agrees with it in
all digits of the significand. -/
theorem isNearest_ofRatio {num den : ℕ} (hden : 0 < den) (h : binary32.Normal (num / den)) :
    (ofRatio false num den).IsNearest (num / den) ∧
      Within (1 / 2 ^ (24 : ℕ)) (num / den) (ofRatio false num den).toRat := by
  obtain ⟨m,hm,hwithin⟩ := exists_roundRatio proper_binary32 hden h
  obtain ⟨hsize,hfinite,hsign⟩ := size_ofSize false (holds_of_roundRatio proper_binary32 hden hm)
  rw [ofRatio,hm]
  have hvalue : (ofSize false (some m)).toRat = m.value := by rw [toRat_of_nonneg hsign,hsize]
  refine ⟨⟨hfinite,fun y hy => ?_⟩,hvalue ▸ hwithin⟩
  have hnear := dist_roundRatio_le proper_binary32 hden hm (holds_size hy)
  rw [hvalue]
  cases hnegative : y.negative with
  | false => rwa [toRat_of_nonneg hnegative]
  | true =>
    have hratio : (0 : ℚ) ≤ num / den := by positivity
    have hsize := y.size.value_nonneg
    calc |m.value - num / den| ≤ |y.size.value - num / den| := hnear
      _ ≤ y.size.value + num / den := by
          rw [abs_le]
          constructor <;> linarith
      _ = |y.toRat - num / den| := by
          rw [toRat,hnegative,if_pos rfl,abs_of_nonpos] <;> linarith

theorem IsNearest.within {num den : ℕ} (hx : x.IsNearest (num / den)) (hden : 0 < den)
    (h : binary32.Normal (num / den)) : Within (1 / 2 ^ (24 : ℕ)) (num / den) x.toRat := by
  obtain ⟨hnearest,hwithin⟩ := isNearest_ofRatio hden h
  exact (hx.dist_le _ hnearest.isFinite).trans hwithin

end Sensitivity.Single
