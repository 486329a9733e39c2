import Sensitivity.Numeric.Rounding
import Sensitivity.Proofs.Error
import Mathlib.Algebra.Order.Field.Power
import Mathlib.Algebra.Order.Floor.Semifield
import Mathlib.Data.Rat.Floor
import Mathlib.Tactic.FieldSimp
import Mathlib.Tactic.Linarith
import Mathlib.Tactic.NormNum
import Mathlib.Tactic.Positivity

/-! Order and accuracy of rounding. A value is rounded to a multiple of its last place, and the
last place grows with the value. So rounding keeps the order of values, it is off by at most half a
unit in the last place of the significand, and no other magnitude of the format is nearer. -/
namespace Sensitivity.Numeric

def Magnitude.value (m : Magnitude) : ℚ := m.significand * 2 ^ m.exponent

theorem Magnitude.value_nonneg (m : Magnitude) : 0 ≤ m.value := by
  unfold value
  positivity

/-- A whole number nearest to a value, and the even one of two. -/
structure NearestEven (k : ℕ) (q : ℚ) : Prop where
  near : |(k : ℚ) - q| ≤ 1 / 2
  even : |(k : ℚ) - q| = 1 / 2 → Even k

theorem nearestEven_natCast (k : ℕ) : NearestEven k k := by
  constructor <;> norm_num

section Fraction

variable {k : ℕ} {q r : ℚ}

theorem NearestEven.of_lt_half (hq : q = k + r) (h₀ : 0 ≤ r) (h : 2 * r < 1) :
    NearestEven k q := by
  have habs : |(k : ℚ) - q| < 1 / 2 := by
    rw [hq,abs_lt]
    constructor <;> linarith
  exact ⟨habs.le,fun heq => absurd heq habs.ne⟩

theorem NearestEven.of_half_lt (hq : q = k + r) (h : 1 < 2 * r) (h₁ : r < 1) :
    NearestEven (k + 1) q := by
  have habs : |((k + 1 : ℕ) : ℚ) - q| < 1 / 2 := by
    rw [hq,abs_lt]
    push_cast
    constructor <;> linarith
  exact ⟨habs.le,fun heq => absurd heq habs.ne⟩

theorem NearestEven.of_half (hq : q = k + r) (h : 2 * r = 1) : NearestEven (k + k % 2) q := by
  have habs : |((k + k % 2 : ℕ) : ℚ) - q| = 1 / 2 := by
    rw [hq]
    push_cast
    obtain hparity | hparity := Nat.mod_two_eq_zero_or_one k <;> rw [hparity]
    · rw [abs_of_nonpos] <;> push_cast <;> linarith
    · rw [abs_of_nonneg] <;> push_cast <;> linarith
  exact ⟨habs.le,fun _ => by rw [Nat.even_iff]; omega⟩

end Fraction

theorem nearestEven_spec (num : ℕ) {den : ℕ} (hden : 0 < den) :
    NearestEven (nearestEven num den) (num / den : ℚ) := by
  have hpos : (0 : ℚ) < den := Nat.cast_pos.mpr hden
  have hnum : (num : ℚ) / den = (num / den : ℕ) + (num % den : ℕ) / (den : ℚ) := by
    have hsplit : (num : ℚ) = den * (num / den : ℕ) + (num % den : ℕ) := by
      exact_mod_cast (Nat.div_add_mod num den).symm
    field_simp
    linarith
  have htwice : 2 * ((num % den : ℕ) / (den : ℚ)) = (2 * (num % den) : ℕ) / (den : ℚ) := by
    push_cast
    ring
  unfold nearestEven
  simp only
  split
  next hbelow =>
    refine .of_lt_half hnum (by positivity) ?_
    rw [htwice,div_lt_one hpos]
    exact_mod_cast hbelow
  next hbelow =>
  split
  next habove =>
    refine .of_half_lt hnum ?_ ?_
    · rw [htwice,one_lt_div hpos]
      exact_mod_cast habove
    · rw [div_lt_one hpos]
      exact_mod_cast Nat.mod_lt num hden
  next habove =>
    refine .of_half hnum ?_
    rw [htwice,div_eq_one_iff_eq hpos.ne']
    exact_mod_cast le_antisymm (not_lt.mp habove) (not_lt.mp hbelow)

theorem NearestEven.le_of_le {k l : ℕ} {p q : ℚ} (hk : NearestEven k p) (hl : NearestEven l q)
    (h : p ≤ q) : k ≤ l := by
  by_contra hlt
  have hstep : (l : ℚ) + 1 ≤ k := by exact_mod_cast not_le.mp hlt
  obtain ⟨hk₁,hk₂⟩ := abs_le.mp hk.near
  obtain ⟨hl₁,hl₂⟩ := abs_le.mp hl.near
  -- Only two neighbours with the value halfway between them are left, and both would be even.
  have hk' : Even k := hk.even (by rw [abs_of_nonneg] <;> linarith)
  have hl' : Even l := hl.even (by rw [abs_of_nonpos] <;> linarith)
  have hnext : k = l + 1 := by
    have hcast : (k : ℚ) = l + 1 := by linarith
    exact_mod_cast hcast
  rw [Nat.even_iff] at hk' hl'
  omega

theorem NearestEven.dist_le {k : ℕ} {q : ℚ} (hk : NearestEven k q) (n : ℤ) :
    |(k : ℚ) - q| ≤ |(n : ℚ) - q| := by
  obtain rfl | hne := eq_or_ne n k
  · exact le_of_eq (by norm_cast)
  · have hone : (1 : ℚ) ≤ |(n : ℚ) - k| := by
      exact_mod_cast Int.one_le_abs (sub_ne_zero.mpr hne)
    have htriangle : |(n : ℚ) - k| ≤ |(n : ℚ) - q| + |(k : ℚ) - q| := by
      rw [abs_sub_comm (k : ℚ) q]
      exact abs_sub_le _ _ _
    linarith [hk.near]

theorem shiftRatio_spec (num : ℕ) {den : ℕ} (hden : 0 < den) (e : ℤ) :
    0 < (shiftRatio num den e).2 ∧
      ((shiftRatio num den e).1 : ℚ) / (shiftRatio num den e).2 = num / den / 2 ^ e := by
  unfold shiftRatio
  split
  next he =>
    lift e to ℕ using he
    refine ⟨Nat.mul_pos hden (Nat.pow_pos two_pos),?_⟩
    simp [div_div]
  next he =>
    obtain ⟨n,rfl⟩ := Int.eq_ofNat_of_zero_le (neg_nonneg.mpr (not_le.mp he).le) |>.imp
      fun n h => (neg_eq_iff_eq_neg.mp h)
    refine ⟨hden,?_⟩
    simp [div_eq_mul_inv,mul_right_comm]

/-- A value is below the range of significands at its last place, and fills it unless the place is
the least one of the format. -/
structure LastPlace (f : BinaryFormat) (x : ℚ) (e : ℤ) : Prop where
  least_le : f.least ≤ e
  lt : x < 2 ^ (e + f.precision)
  fills : e = f.least ∨ 2 ^ (e + f.precision - 1) ≤ x

theorem LastPlace.le_of_le {f : BinaryFormat} {x y : ℚ} {e e' : ℤ} (hx : LastPlace f x e)
    (hy : LastPlace f y e') (h : x ≤ y) : e ≤ e' := by
  obtain rfl | hfills := hx.fills
  · exact hy.least_le
  · have hlt : (2 : ℚ) ^ (e + f.precision - 1) < 2 ^ (e' + f.precision) :=
      (hfills.trans h).trans_lt hy.lt
    have hexponent := (zpow_lt_zpow_iff_right₀ (one_lt_two (α := ℚ))).mp hlt
    omega

theorem log2_ratio {num den : ℕ} (hnum : 0 < num) (hden : 0 < den) :
    (2 : ℚ) ^ ((num.log2 : ℤ) - den.log2 - 1) ≤ num / den ∧
      (num : ℚ) / den < 2 ^ ((num.log2 : ℤ) - den.log2 + 1) := by
  have hnum₁ : ((2 : ℚ) ^ (num.log2 : ℤ)) ≤ num := by
    exact_mod_cast Nat.log2_self_le hnum.ne'
  have hnum₂ : (num : ℚ) < 2 ^ ((num.log2 : ℤ) + 1) := by
    exact_mod_cast Nat.lt_log2_self
  have hden₁ : ((2 : ℚ) ^ (den.log2 : ℤ)) ≤ den := by
    exact_mod_cast Nat.log2_self_le hden.ne'
  have hden₂ : (den : ℚ) < 2 ^ ((den.log2 : ℤ) + 1) := by
    exact_mod_cast Nat.lt_log2_self
  have hpos : (0 : ℚ) < den := Nat.cast_pos.mpr hden
  constructor
  · rw [le_div_iff₀ hpos]
    calc (2 : ℚ) ^ ((num.log2 : ℤ) - den.log2 - 1) * den
        ≤ 2 ^ ((num.log2 : ℤ) - den.log2 - 1) * 2 ^ ((den.log2 : ℤ) + 1) := by gcongr
      _ = 2 ^ (num.log2 : ℤ) := by
          rw [← zpow_add₀ two_ne_zero]
          congr 1
          omega
      _ ≤ num := hnum₁
  · rw [div_lt_iff₀ hpos]
    calc (num : ℚ) < 2 ^ ((num.log2 : ℤ) + 1) := hnum₂
      _ = 2 ^ ((num.log2 : ℤ) - den.log2 + 1) * 2 ^ (den.log2 : ℤ) := by
          rw [← zpow_add₀ two_ne_zero]
          congr 1
          omega
      _ ≤ 2 ^ ((num.log2 : ℤ) - den.log2 + 1) * den := by gcongr

theorem pow_mul_le_shiftRatio (num : ℕ) {den : ℕ} (hden : 0 < den) (e : ℤ) (p : ℕ) :
    2 ^ p * (shiftRatio num den e).2 ≤ (shiftRatio num den e).1 ↔
      (2 : ℚ) ^ (e + p) ≤ num / den := by
  obtain ⟨hshift,hratio⟩ := shiftRatio_spec num hden e
  rw [add_comm e,zpow_add₀ two_ne_zero,← le_div_iff₀ (by positivity),← hratio,
    le_div_iff₀ (Nat.cast_pos.mpr hshift)]
  exact_mod_cast Iff.rfl

theorem lastPlace_spec (f : BinaryFormat) {num den : ℕ} (hnum : 0 < num) (hden : 0 < den) :
    LastPlace f (num / den) (lastPlace f num den) := by
  obtain ⟨hlow,hhigh⟩ := log2_ratio hnum hden
  set e : ℤ := (num.log2 : ℤ) - den.log2 - f.precision with he
  have hplace : lastPlace f num den = max f.least
      (if (2 : ℚ) ^ (e + f.precision) ≤ num / den then e + 1 else e) := by
    simp only [lastPlace,← he,pow_mul_le_shiftRatio num hden e f.precision]
  set e' := if (2 : ℚ) ^ (e + f.precision) ≤ num / den then e + 1 else e with he'
  have hbounds : (2 : ℚ) ^ (e' + f.precision - 1) ≤ num / den ∧
      (num : ℚ) / den < 2 ^ (e' + f.precision) := by
    split_ifs at he' with hfull
    · rw [he',show e + 1 + (f.precision : ℤ) = (num.log2 : ℤ) - den.log2 + 1 by omega,
        add_sub_cancel_right]
      rw [show e + (f.precision : ℤ) = (num.log2 : ℤ) - den.log2 by omega] at hfull
      exact ⟨hfull,hhigh⟩
    · rw [he',show e + (f.precision : ℤ) - 1 = (num.log2 : ℤ) - den.log2 - 1 by omega]
      exact ⟨hlow,not_le.mp hfull⟩
  rw [hplace]
  refine ⟨le_max_left _ _,hbounds.2.trans_le ?_,?_⟩
  · exact zpow_le_zpow_right₀ one_le_two (add_le_add_left (le_max_right _ _) _)
  · obtain h | h := max_choice f.least e' <;> rw [h]
    · exact .inl rfl
    · exact .inr hbounds.1

/-- A format with significands and more than one last place. -/
structure BinaryFormat.Proper (f : BinaryFormat) : Prop where
  precision_pos : 0 < f.precision
  least_lt : f.least < f.greatest

theorem proper_binary32 : binary32.Proper := ⟨by decide,by decide⟩

theorem proper_binary64 : binary64.Proper := ⟨by decide,by decide⟩

theorem value_carry {f : BinaryFormat} (hf : f.Proper) (k : ℕ) (e : ℤ) :
    (carry f k e).value = k * 2 ^ e := by
  unfold carry
  split
  next hk =>
    obtain ⟨p,hp⟩ := Nat.exists_eq_add_one.mpr hf.precision_pos
    rw [hk,hp,Magnitude.value,zpow_add_one₀ two_ne_zero]
    push_cast
    ring
  next => rfl

/-- A value is rounded to the nearest multiple of its last place. -/
structure Rounds (f : BinaryFormat) (x : ℚ) (e : ℤ) (k : ℕ) : Prop extends LastPlace f x e where
  nearest : NearestEven k (x / 2 ^ e)

theorem exists_rounds {f : BinaryFormat} (hf : f.Proper) (num : ℕ) {den : ℕ} (hden : 0 < den) :
    ∃ e k, Rounds f (num / den) e k ∧ roundRatio f num den =
      if (carry f k e).exponent ≤ f.greatest then some (carry f k e) else none := by
  by_cases hnum : num = 0
  · refine ⟨f.least,0,⟨⟨le_rfl,?_,.inl rfl⟩,?_⟩,?_⟩
    · simp only [hnum,Nat.cast_zero,zero_div]
      positivity
    · simpa [hnum] using nearestEven_natCast 0
    · have hcarry : carry f 0 f.least = ⟨0,f.least⟩ := if_neg (Nat.pow_pos two_pos).ne
      simp only [roundRatio,hnum,if_true,hcarry,if_pos hf.least_lt.le]
  · obtain ⟨hshift,hratio⟩ := shiftRatio_spec num hden (lastPlace f num den)
    refine ⟨lastPlace f num den,_,⟨lastPlace_spec f (Nat.pos_of_ne_zero hnum) hden,?_⟩,if_neg hnum⟩
    rw [← hratio]
    exact nearestEven_spec _ hshift

namespace Rounds

variable {f : BinaryFormat} {x y : ℚ} {e e' : ℤ} {k k' : ℕ}

theorem le_pow (h : Rounds f x e k) : k ≤ 2 ^ f.precision := by
  refine h.nearest.le_of_le (nearestEven_natCast _) ?_
  rw [div_le_iff₀ (by positivity)]
  calc x ≤ 2 ^ (e + f.precision) := h.lt.le
    _ = (2 ^ f.precision : ℕ) * 2 ^ e := by
        rw [add_comm,zpow_add₀ two_ne_zero]
        push_cast
        rfl

/-- A value that fills its place is rounded to a full significand. -/
theorem pow_le (hf : f.Proper) (h : Rounds f x e k) (hfills : 2 ^ (e + f.precision - 1) ≤ x) :
    2 ^ (f.precision - 1) ≤ k := by
  refine (nearestEven_natCast _).le_of_le h.nearest ?_
  rw [le_div_iff₀ (by positivity)]
  refine le_of_eq_of_le ?_ hfills
  rw [show e + (f.precision : ℤ) - 1 = ((f.precision - 1 : ℕ) : ℤ) + e by
    have := hf.precision_pos; omega,zpow_add₀ two_ne_zero]
  push_cast
  rfl

/-- Rounding keeps the order of values, and of their last places as well. -/
theorem carry_le_carry (hf : f.Proper) (h : Rounds f x e k) (h' : Rounds f y e' k') (hxy : x ≤ y) :
    (carry f k e).value ≤ (carry f k' e').value ∧
      (carry f k e).exponent ≤ (carry f k' e').exponent := by
  rw [value_carry hf,value_carry hf]
  obtain rfl | hlt := (h.le_of_le h'.toLastPlace hxy).eq_or_lt
  · have hk : k ≤ k' := h.nearest.le_of_le h'.nearest (by gcongr)
    refine ⟨by gcongr,?_⟩
    unfold carry
    split
    next hfull => rw [if_pos (le_antisymm h'.le_pow (hfull ▸ hk))]
    next => split <;> simp
  · have hfills : (2 : ℚ) ^ (e' + f.precision - 1) ≤ y :=
      h'.fills.resolve_left fun hleast => by have := h.least_le; omega
    constructor
    · calc (k : ℚ) * 2 ^ e ≤ 2 ^ f.precision * 2 ^ e := by
            gcongr
            exact_mod_cast h.le_pow
        _ ≤ 2 ^ (f.precision - 1) * 2 ^ e' := by
            rw [← zpow_natCast,← zpow_natCast,← zpow_add₀ two_ne_zero,← zpow_add₀ two_ne_zero]
            have hpos := hf.precision_pos
            exact zpow_le_zpow_right₀ one_le_two (by omega)
        _ ≤ k' * 2 ^ e' := by
            gcongr
            exact_mod_cast h'.pow_le hf hfills
    · unfold carry
      split <;> split <;> simp only <;> omega

theorem abs_sub_le_half (h : Rounds f x e k) : |(k : ℚ) * 2 ^ e - x| ≤ 2 ^ e / 2 := by
  have hpos : (0 : ℚ) < 2 ^ e := by positivity
  have hscale : (k : ℚ) * 2 ^ e - x = (k - x / 2 ^ e) * 2 ^ e := by
    field_simp
  rw [hscale,abs_mul,abs_of_pos hpos]
  calc |(k : ℚ) - x / 2 ^ e| * 2 ^ e ≤ 1 / 2 * 2 ^ e := by
        gcongr
        exact h.nearest.near
    _ = 2 ^ e / 2 := by ring

theorem dist_le (hf : f.Proper) (h : Rounds f x e k) {m : Magnitude}
    (hm : m.significand < 2 ^ f.precision) (hleast : f.least ≤ m.exponent) :
    |(k : ℚ) * 2 ^ e - x| ≤ |m.value - x| := by
  have hpos : (0 : ℚ) < 2 ^ e := by positivity
  have hmultiple : ∀ n : ℤ, |(k : ℚ) * 2 ^ e - x| ≤ |n * 2 ^ e - x| := by
    intro n
    have hscale : ∀ q : ℚ, |q * 2 ^ e - x| = |q - x / 2 ^ e| * 2 ^ e := by
      intro q
      rw [← abs_of_pos hpos,← abs_mul,abs_of_pos hpos]
      congr 1
      field_simp
    rw [hscale,hscale]
    exact mul_le_mul_of_nonneg_right (h.nearest.dist_le n) hpos.le
  obtain hle | hlt := le_or_gt e m.exponent
  · obtain ⟨n,hn⟩ := Int.eq_ofNat_of_zero_le (sub_nonneg.mpr hle)
    have hvalue : m.value = ((m.significand * 2 ^ n : ℕ) : ℤ) * 2 ^ e := by
      rw [Magnitude.value,show m.exponent = n + e by omega,zpow_add₀ two_ne_zero,zpow_natCast]
      push_cast
      ring
    rw [hvalue]
    exact hmultiple _
  · have hfills : (2 : ℚ) ^ (e + f.precision - 1) ≤ x :=
      h.fills.resolve_left fun he => by omega
    have hpower : (2 : ℚ) ^ (e + f.precision - 1) = ((2 ^ (f.precision - 1) : ℕ) : ℤ) * 2 ^ e := by
      rw [show e + (f.precision : ℤ) - 1 = ((f.precision - 1 : ℕ) : ℤ) + e by
        have := hf.precision_pos; omega,zpow_add₀ two_ne_zero]
      push_cast
      rfl
    have hbelow : m.value ≤ 2 ^ (e + f.precision - 1) := by
      calc m.value ≤ 2 ^ f.precision * 2 ^ m.exponent := by
            unfold Magnitude.value
            gcongr
            exact_mod_cast hm.le
        _ ≤ 2 ^ (e + f.precision - 1) := by
            rw [← zpow_natCast,← zpow_add₀ two_ne_zero]
            exact zpow_le_zpow_right₀ one_le_two (by omega)
    calc |(k : ℚ) * 2 ^ e - x| ≤ |2 ^ (e + f.precision - 1) - x| := by
          rw [hpower]
          exact hmultiple _
      _ ≤ |m.value - x| := by
          rw [abs_of_nonpos (sub_nonpos.mpr hfills),abs_of_nonpos (by linarith)]
          linarith

end Rounds

/-- The second of two results is at least the first; no magnitude is above all of them. -/
def AtMost (a b : Option Magnitude) : Prop := ∀ n ∈ b, ∃ m ∈ a, m.value ≤ n.value

theorem AtMost.bind {a b : Option Magnitude} {g : Magnitude → Option Magnitude}
    (h : AtMost a b) (hg : ∀ m n : Magnitude, m.value ≤ n.value → AtMost (g m) (g n)) :
    AtMost (a.bind g) (b.bind g) := by
  intro n' hn'
  obtain ⟨n,hn,hgn⟩ := Option.bind_eq_some_iff.mp hn'
  obtain ⟨m,hm,hle⟩ := h n hn
  obtain ⟨m',hm',hle'⟩ := hg m n hle n' hgn
  exact ⟨m',Option.bind_eq_some_iff.mpr ⟨m,hm,hm'⟩,hle'⟩

theorem atMost_roundRatio {f : BinaryFormat} (hf : f.Proper) {num den num' den' : ℕ}
    (hden : 0 < den) (hden' : 0 < den') (h : (num : ℚ) / den ≤ num' / den') :
    AtMost (roundRatio f num den) (roundRatio f num' den') := by
  obtain ⟨e,k,hk,heq⟩ := exists_rounds hf num hden
  obtain ⟨e',k',hk',heq'⟩ := exists_rounds hf num' hden'
  obtain ⟨hvalue,hexponent⟩ := hk.carry_le_carry hf hk' h
  rw [heq,heq']
  intro n hn
  split_ifs at hn with hrange
  · obtain rfl := Option.some.inj hn
    exact ⟨_,if_pos (hexponent.trans hrange),hvalue⟩
  · cases hn

/-- What a format holds: significands in range, and full ones above its least place. -/
structure BinaryFormat.Holds (f : BinaryFormat) (m : Magnitude) : Prop where
  significand_lt : m.significand < 2 ^ f.precision
  least_le : f.least ≤ m.exponent
  le_greatest : m.exponent ≤ f.greatest
  full : m.exponent = f.least ∨ 2 ^ (f.precision - 1) ≤ m.significand

theorem holds_of_roundRatio {f : BinaryFormat} (hf : f.Proper) {num den : ℕ} (hden : 0 < den)
    {m : Magnitude} (h : roundRatio f num den = some m) : f.Holds m := by
  obtain ⟨e,k,hk,heq⟩ := exists_rounds hf num hden
  rw [heq] at h
  split_ifs at h with hrange
  obtain rfl := Option.some.inj h
  have hpow : 2 ^ (f.precision - 1) < 2 ^ f.precision :=
    Nat.pow_lt_pow_right one_lt_two (Nat.sub_lt hf.precision_pos one_pos)
  have hleast := hk.least_le
  unfold carry at hrange ⊢
  split_ifs at hrange ⊢ with hfull
  · exact ⟨hpow,by simp only; omega,hrange,.inr le_rfl⟩
  · exact ⟨lt_of_le_of_ne hk.le_pow hfull,hleast,hrange,hk.fills.imp_right (hk.pow_le hf)⟩

theorem dist_roundRatio_le {f : BinaryFormat} (hf : f.Proper) {num den : ℕ} (hden : 0 < den)
    {m n : Magnitude} (h : roundRatio f num den = some m) (hn : f.Holds n) :
    |m.value - num / den| ≤ |n.value - num / den| := by
  obtain ⟨e,k,hk,heq⟩ := exists_rounds hf num hden
  rw [heq] at h
  split_ifs at h
  obtain rfl := Option.some.inj h
  rw [value_carry hf]
  exact hk.dist_le hf hn.significand_lt hn.least_le

/-- Zero, and what a format rounds to a full significand in range. -/
def BinaryFormat.Normal (f : BinaryFormat) (x : ℚ) : Prop :=
  x = 0 ∨ 2 ^ (f.least + f.precision - 1) ≤ x ∧ x < 2 ^ (f.greatest + f.precision - 1)

/-- Zero, or a value within so many powers of two around one. -/
def Moderate (k : ℕ) (x : ℚ) : Prop := x = 0 ∨ 1 ≤ 2 ^ k * x ∧ x ≤ 2 ^ k

/-- A value differs from another one by a share of that at most. -/
def Within (r x y : ℚ) : Prop := |y - x| ≤ r * x

/-- A value lies between two multiples of another one. -/
def Scaled (low high x y : ℚ) : Prop := low * x ≤ y ∧ y ≤ high * x

theorem Within.scaled {r x y : ℚ} (h : Within r x y) : Scaled (1 - r) (1 + r) x y := by
  obtain ⟨hlow,hhigh⟩ := abs_le.mp h
  constructor <;> linarith

theorem Scaled.mul_right {low high x y c : ℚ} (h : Scaled low high x y) (hc : 0 ≤ c) :
    Scaled low high (x * c) (y * c) := by
  obtain ⟨hlow,hhigh⟩ := h
  constructor
  · calc low * (x * c) = low * x * c := by ring
      _ ≤ y * c := by gcongr
  · calc y * c ≤ high * x * c := by gcongr
      _ = high * (x * c) := by ring

theorem Scaled.trans {low high low' high' x y z : ℚ} (h : Scaled low high x y)
    (h' : Scaled low' high' y z) (hlow : 0 ≤ low') (hhigh : 0 ≤ high') :
    Scaled (low' * low) (high' * high) x z := by
  constructor
  · calc low' * low * x = low' * (low * x) := by ring
      _ ≤ low' * y := by
          gcongr
          exact h.1
      _ ≤ z := h'.1
  · calc z ≤ high' * y := h'.2
      _ ≤ high' * (high * x) := by
          gcongr
          exact h.2
      _ = high' * high * x := by ring

namespace Moderate

variable {k l : ℕ} {x y : ℚ}

theorem normal {f : BinaryFormat} (h : Moderate k x) (hleast : f.least + f.precision - 1 ≤ -k)
    (hgreatest : k < f.greatest + f.precision - 1) : f.Normal x := by
  refine h.imp_right fun ⟨hlow,hhigh⟩ => ⟨?_,?_⟩
  · calc (2 : ℚ) ^ (f.least + f.precision - 1) ≤ 2 ^ (-k : ℤ) := zpow_le_zpow_right₀ one_le_two hleast
      _ ≤ x := by
          rw [zpow_neg,zpow_natCast,inv_le_iff_one_le_mul₀' (by positivity)]
          exact hlow
  · calc x ≤ 2 ^ (k : ℤ) := by exact_mod_cast hhigh
      _ < 2 ^ (f.greatest + f.precision - 1) :=
          zpow_lt_zpow_right₀ one_lt_two hgreatest

theorem natCast {n : ℕ} (h : n < 2 ^ k) : Moderate k n := by
  obtain rfl | hn := Nat.eq_zero_or_pos n
  · exact .inl Nat.cast_zero
  · right
    constructor
    · exact_mod_cast Nat.mul_pos (Nat.two_pow_pos k) hn
    · exact_mod_cast h.le

theorem mul (hx : Moderate k x) (hy : Moderate l y) : Moderate (k + l) (x * y) := by
  obtain rfl | ⟨hx₁,hx₂⟩ := hx
  · exact .inl (zero_mul y)
  obtain rfl | ⟨hy₁,hy₂⟩ := hy
  · exact .inl (mul_zero x)
  have hypos : 0 < y := pos_of_mul_pos_right (one_pos.trans_le hy₁) (by positivity)
  right
  rw [pow_add]
  constructor
  · calc (1 : ℚ) = 1 * 1 := by ring
      _ ≤ 2 ^ k * x * (2 ^ l * y) := by gcongr
      _ = 2 ^ k * 2 ^ l * (x * y) := by ring
  · gcongr

theorem of_within {r : ℚ} (hx : Moderate k x) (h : Within r x y) (hr : r ≤ 1 / 2) :
    Moderate (k + 1) y := by
  obtain ⟨hlow,hhigh⟩ := h.scaled
  obtain rfl | ⟨hx₁,hx₂⟩ := hx
  · exact .inl (by linarith)
  have hxpos : 0 < x := pos_of_mul_pos_right (one_pos.trans_le hx₁) (by positivity)
  have hhalf : r * x ≤ 1 / 2 * x := by gcongr
  right
  rw [pow_succ]
  constructor
  · calc (1 : ℚ) ≤ 2 ^ k * x := hx₁
      _ ≤ 2 ^ k * (2 * y) := by
          gcongr
          linarith
      _ = 2 ^ k * 2 * y := by ring
  · linarith

end Moderate

/-- A normal value is rounded to one that agrees with it in all digits of the significand. -/
theorem exists_roundRatio {f : BinaryFormat} (hf : f.Proper) {num den : ℕ} (hden : 0 < den)
    (h : f.Normal (num / den)) :
    ∃ m, roundRatio f num den = some m ∧ Within (1 / 2 ^ f.precision) (num / den) m.value := by
  obtain hzero | ⟨hlow,hhigh⟩ := h
  · have hnum : num = 0 := by
      have hcast := (div_eq_zero_iff.mp hzero).resolve_right (Nat.cast_ne_zero.mpr hden.ne')
      exact_mod_cast hcast
    exact ⟨⟨0,f.least⟩,by simp [roundRatio,hnum],by simp [Within,Magnitude.value,hnum]⟩
  · obtain ⟨e,k,hk,heq⟩ := exists_rounds hf num hden
    have hfills : (2 : ℚ) ^ (e + f.precision - 1) ≤ num / den := by
      obtain rfl | hfills := hk.fills
      · exact hlow
      · exact hfills
    have hrange : (carry f k e).exponent ≤ f.greatest := by
      have hlt := (zpow_lt_zpow_iff_right₀ (one_lt_two (α := ℚ))).mp (hfills.trans_lt hhigh)
      unfold carry
      split <;> simp only <;> omega
    refine ⟨_,heq.trans (if_pos hrange),?_⟩
    rw [value_carry hf]
    refine hk.abs_sub_le_half.trans ?_
    calc (2 : ℚ) ^ e / 2 = 1 / 2 ^ f.precision * 2 ^ (e + f.precision - 1) := by
          rw [zpow_sub_one₀ two_ne_zero,zpow_add₀ two_ne_zero,zpow_natCast]
          field_simp
      _ ≤ 1 / 2 ^ f.precision * (num / den) := by gcongr

namespace Magnitude

theorem ratio_spec (m : Magnitude) :
    0 < m.ratio.2 ∧ (m.ratio.1 : ℚ) / m.ratio.2 = m.value := by
  obtain ⟨hden,hratio⟩ := shiftRatio_spec m.significand one_pos (-m.exponent)
  refine ⟨hden,hratio.trans ?_⟩
  simp [value]

theorem floor_eq (m : Magnitude) : m.floor = ⌊m.value⌋₊ := by
  rw [← m.ratio_spec.2,Nat.floor_div_eq_div]
  rfl

theorem exists_mul_eq (f : BinaryFormat) (a b : Magnitude) : ∃ num den : ℕ,
    0 < den ∧ (num : ℚ) / den = a.value * b.value ∧ mul f a b = roundRatio f num den := by
  obtain ⟨hden,hratio⟩ :=
    (⟨a.significand * b.significand,a.exponent + b.exponent⟩ : Magnitude).ratio_spec
  refine ⟨_,_,hden,hratio.trans ?_,rfl⟩
  simp only [value,zpow_add₀ (two_ne_zero (α := ℚ))]
  push_cast
  ring

variable {f : BinaryFormat} {a b c : Magnitude}

theorem atMost_mul (hf : f.Proper) (h : a.value ≤ b.value) :
    AtMost (mul f a c) (mul f b c) := by
  obtain ⟨num,den,hden,hratio,heq⟩ := exists_mul_eq f a c
  obtain ⟨num',den',hden',hratio',heq'⟩ := exists_mul_eq f b c
  rw [heq,heq']
  refine atMost_roundRatio hf hden hden' ?_
  rw [hratio,hratio']
  exact mul_le_mul_of_nonneg_right h c.value_nonneg

theorem exists_mul (hf : f.Proper) (h : f.Normal (a.value * b.value)) :
    ∃ m, mul f a b = some m ∧ Within (1 / 2 ^ f.precision) (a.value * b.value) m.value := by
  obtain ⟨num,den,hden,hratio,heq⟩ := exists_mul_eq f a b
  rw [heq,← hratio]
  exact exists_roundRatio hf hden (hratio ▸ h)

end Magnitude
end Sensitivity.Numeric
