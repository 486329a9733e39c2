import Sensitivity.Proofs.Pruning
import Sensitivity.Proofs.Numeric.Single

/-! How many weights a fraction selects. More are selected by a larger fraction. Where the fraction
is the float nearest to a part of all weights, that part is met as long as the slack stays below one
weight, and exceeded once the slack makes up a weight of its own. -/
namespace Sensitivity

open Numeric

theorem flooredCount_mono {a b : Magnitude} (h : a.value ≤ b.value) (total : ℕ) :
    flooredCount a total ≤ flooredCount b total := by
  have hproduct : AtMost
      (((roundRatio binary64 total 1).bind (Magnitude.mul binary64 a)).bind
        (Magnitude.mul binary64 · countSlack))
      (((roundRatio binary64 total 1).bind (Magnitude.mul binary64 b)).bind
        (Magnitude.mul binary64 · countSlack)) := by
    refine AtMost.bind ?_ fun m n hmn => Magnitude.atMost_mul proper_binary64 hmn
    cases roundRatio binary64 total 1 with
    | none => exact fun n hn => absurd hn (by simp)
    | some t => exact Magnitude.atMost_mul proper_binary64 h
  cases hb : ((roundRatio binary64 total 1).bind (Magnitude.mul binary64 b)).bind
      (Magnitude.mul binary64 · countSlack) with
  | none =>
    have htotal : flooredCount b total = total := by simp only [flooredCount,hb]
    exact htotal.symm ▸ flooredCount_le a total
  | some n =>
    obtain ⟨m,hm,hle⟩ := hproduct n hb
    have hfloor : m.floor ≤ n.floor := by
      rw [m.floor_eq,n.floor_eq]
      exact Nat.floor_le_floor hle
    rw [Option.mem_def] at hm
    simp only [flooredCount,hm,hb]
    exact min_le_min_right total hfloor

/-- The slack, one and a millionth as a 64-bit float. -/
theorem value_countSlack : countSlack.value = 4503604130970123 / 2 ^ (52 : ℕ) := by
  norm_num [countSlack,Magnitude.value]

/-- The count is the floor of the product with the slack, rounded three times. -/
theorem exists_flooredCount {a : Magnitude} {total k : ℕ} (ha : Moderate k a.value) (hk : k ≤ 100)
    (htotal : total < 2 ^ (64 : ℕ)) : ∃ q, flooredCount a total = min ⌊q⌋₊ total ∧
      Scaled ((1 - 1 / 2 ^ (53 : ℕ)) ^ (3 : ℕ)) ((1 + 1 / 2 ^ (53 : ℕ)) ^ (3 : ℕ))
        (a.value * total * countSlack.value) q := by
  have hratio : ((total : ℕ) : ℚ) / (1 : ℕ) = total := by simp
  have hroundoff : (1 : ℚ) / 2 ^ (53 : ℕ) ≤ 1 / 2 := by norm_num
  have hslack : Moderate 1 countSlack.value := by
    rw [value_countSlack]
    exact .inr (by norm_num)
  have hnormal : ∀ {l : ℕ} {x : ℚ}, Moderate l x → l ≤ 1000 → binary64.Normal x := fun h hl =>
    h.normal (by simp only [binary64]; omega) (by simp only [binary64]; omega)
  have hm₁ : Moderate 64 (total : ℚ) := Moderate.natCast htotal
  obtain ⟨t,ht,hwithin₁⟩ := exists_roundRatio proper_binary64 one_pos
    (hratio.symm ▸ hnormal hm₁ (by norm_num))
  rw [hratio] at hwithin₁
  have hm₂ := ha.mul (hm₁.of_within hwithin₁ hroundoff)
  obtain ⟨p,hp,hwithin₂⟩ := Magnitude.exists_mul proper_binary64 (hnormal hm₂ (by omega))
  have hm₃ := (hm₂.of_within hwithin₂ hroundoff).mul hslack
  obtain ⟨q,hq,hwithin₃⟩ := Magnitude.exists_mul proper_binary64 (hnormal hm₃ (by omega))
  refine ⟨q.value,?_,?_⟩
  · simp only [flooredCount,ht,Option.bind_some,hp,hq,q.floor_eq]
  · have hpos : (0 : ℚ) ≤ 1 - 1 / 2 ^ (53 : ℕ) := by norm_num
    have hpos' : (0 : ℚ) ≤ 1 + 1 / 2 ^ (53 : ℕ) := by norm_num
    have hproduct := (hwithin₁.scaled.mul_right a.value_nonneg).trans
      (mul_comm a.value t.value ▸ hwithin₂.scaled) hpos hpos'
    have hfinal := (hproduct.mul_right countSlack.value_nonneg).trans hwithin₃.scaled hpos hpos'
    simp only [binary64] at hfinal
    convert hfinal using 1 <;> ring

theorem selectionCount_eq_flooredCount {f : Single} (hfinite : f.isFinite)
    (hsign : f.negative = false) (total : ℕ) :
    selectionCount f total = flooredCount f.size total := by
  simp [selectionCount,Single.isNaN_of_isFinite hfinite,hsign,hfinite]

theorem selectionCount_of_negative {f : Single} (h : f.negative) (total : ℕ) :
    selectionCount f total = 0 := by
  simp [selectionCount,h]

theorem selectionCount_of_body_eq_zero {f : Single} (h : f.body = 0) {total : ℕ}
    (htotal : total < 2 ^ (64 : ℕ)) : selectionCount f total = 0 := by
  cases hsign : f.negative with
  | true => exact selectionCount_of_negative hsign total
  | false =>
    have hsize : f.size.value = 0 := by
      rw [f.size_eq,Single.field,Single.fraction,h]
      simp [Magnitude.value]
    obtain ⟨q,hq,-,hhigh⟩ := exists_flooredCount (.inl hsize) (Nat.zero_le 100) htotal
    rw [hsize,zero_mul,zero_mul,mul_zero] at hhigh
    rw [selectionCount_eq_flooredCount (Single.isFinite_iff.mpr (by omega)) hsign,hq,
      Nat.floor_of_nonpos hhigh,Nat.zero_min]

theorem selectionCount_mono {f g : Single} (h : f ≤ g) {total : ℕ} (htotal : total < 2 ^ (64 : ℕ)) :
    selectionCount f total ≤ selectionCount g total := by
  obtain ⟨hf,hg,hlevel⟩ := Single.le_iff.mp h
  cases hfsign : f.negative with
  | true => exact (selectionCount_of_negative hfsign total).symm ▸ Nat.zero_le _
  | false =>
    cases hgsign : g.negative with
    | true =>
      simp only [Single.level,hfsign,hgsign,if_true,if_false,Bool.false_eq_true] at hlevel
      have hbody : f.body = 0 := by omega
      exact (selectionCount_of_body_eq_zero hbody htotal).symm ▸ Nat.zero_le _
    | false =>
      simp only [Single.level,hfsign,hgsign,if_false,Bool.false_eq_true] at hlevel
      have hbody : f.body ≤ g.body := by omega
      by_cases hfinite : g.isFinite
      · have hfinite' : f.isFinite :=
          Single.isFinite_iff.mpr (hbody.trans_lt (Single.isFinite_iff.mp hfinite))
        rw [selectionCount_eq_flooredCount hfinite hgsign,
          selectionCount_eq_flooredCount hfinite' hfsign]
        exact flooredCount_mono (Single.value_size_le hbody) total
      · have hall : selectionCount g total = total := by simp [selectionCount,hg,hgsign,hfinite]
        exact hall.symm ▸ selectionCount_le f total

theorem moderate_part {m total : ℕ} (hpos : 0 < total) (htotal : total < 2 ^ (64 : ℕ))
    (hm : m ≤ total) : Moderate 64 ((m : ℚ) / total) := by
  obtain rfl | hmpos := Nat.eq_zero_or_pos m
  · exact .inl (by simp)
  right
  have hone : (1 : ℚ) ≤ m := by exact_mod_cast hmpos
  have hpos' : (0 : ℚ) < total := by exact_mod_cast hpos
  have htotal' : (total : ℚ) ≤ 2 ^ 64 := by exact_mod_cast htotal.le
  constructor
  · rw [← mul_div_assoc,le_div_iff₀ hpos']
    calc 1 * (total : ℚ) ≤ 2 ^ 64 * 1 := by linarith
      _ ≤ 2 ^ 64 * m := by gcongr
  · rw [div_le_iff₀ hpos']
    have hm' : (m : ℚ) ≤ total := by exact_mod_cast hm
    linarith

theorem eq_zero_of_negative {f : Single} (hsign : f.negative) {m total : ℕ} (hpos : 0 < total)
    (h : Within (1 / 2 ^ (24 : ℕ)) (m / total) f.toRat) : m = 0 := by
  have hnonpos : f.toRat ≤ 0 := by
    rw [Single.toRat,if_pos hsign]
    exact neg_nonpos.mpr f.size.value_nonneg
  by_contra hne
  have hlow := h.scaled.1.trans hnonpos
  have hratio : (0 : ℚ) < (1 - 1 / 2 ^ (24 : ℕ)) * (m / total) := by
    refine mul_pos (by norm_num) (div_pos ?_ ?_)
    · exact_mod_cast Nat.pos_of_ne_zero hne
    · exact_mod_cast hpos
  exact absurd hlow hratio.not_ge

/-- The count of a fraction nearest to a part of all weights, up to the error of the fraction and
the four roundings. -/
theorem exists_selectionCount {f : Single} {m total : ℕ} (hpos : 0 < total)
    (htotal : total < 2 ^ (64 : ℕ)) (hm : m ≤ total) (hf : f.IsNearest (m / total)) :
    ∃ q, selectionCount f total = min ⌊q⌋₊ total ∧
      (1 - 1 / 2 ^ (53 : ℕ)) ^ (3 : ℕ) * (1 - 1 / 2 ^ (24 : ℕ)) * countSlack.value * m ≤ q ∧
      q ≤ (1 + 1 / 2 ^ (53 : ℕ)) ^ (3 : ℕ) * (1 + 1 / 2 ^ (24 : ℕ)) * countSlack.value * m := by
  have hpart := moderate_part hpos htotal hm
  have hwithin := hf.within hpos
    (hpart.normal (by simp only [binary32]; omega) (by simp only [binary32]; omega))
  cases hsign : f.negative with
  | true =>
    have hzero := eq_zero_of_negative hsign hpos hwithin
    exact ⟨0,by simp [selectionCount_of_negative hsign],by simp [hzero],by simp [hzero]⟩
  | false =>
    rw [Single.toRat_of_nonneg hsign] at hwithin
    obtain ⟨q,hq,hscaled⟩ := exists_flooredCount (hpart.of_within hwithin (by norm_num))
      (by norm_num) htotal
    refine ⟨q,(selectionCount_eq_flooredCount hf.isFinite hsign total).trans hq,?_⟩
    have hcancel : (m : ℚ) / total * total = m := div_mul_cancel₀ _ (by positivity)
    have hpart := (hwithin.scaled.mul_right (Nat.cast_nonneg total)).mul_right
      countSlack.value_nonneg
    obtain ⟨hlow,hhigh⟩ := hpart.trans hscaled (by norm_num) (by norm_num)
    rw [hcancel] at hlow hhigh
    constructor <;> linarith

/-- Asked for a part of all weights by the nearest float, a selection takes no fewer. It takes just
as many if they are at most 943748, or all weights; from 1063383 weights on it takes more, unless
they are all. In between it depends on the total. A float that is too large by up to one part in
`2 ^ 24` adds to the slack, and together they reach one weight at 943749 for the first time; a float
that is too small takes away from it, and can hold it below one weight up to 1063382. -/
theorem selectionCount_of_isNearest {f : Single} {m total : ℕ} (hpos : 0 < total)
    (htotal : total < 2 ^ (64 : ℕ)) (hm : m ≤ total) (hf : f.IsNearest (m / total)) :
    m ≤ selectionCount f total ∧
    (m ≤ 943748 ∨ m = total → selectionCount f total = m) ∧
    (1063383 ≤ m → m < total → m < selectionCount f total) := by
  obtain ⟨q,hcount,hlow,hhigh⟩ := exists_selectionCount hpos htotal hm hf
  rw [value_countSlack] at hlow hhigh
  have hfactor : (1 : ℚ) ≤ (1 - 1 / 2 ^ (53 : ℕ)) ^ (3 : ℕ) * (1 - 1 / 2 ^ (24 : ℕ)) *
      (4503604130970123 / 2 ^ (52 : ℕ)) := by norm_num
  have hleast : m ≤ ⌊q⌋₊ := by
    refine Nat.le_floor ((le_mul_of_one_le_left (Nat.cast_nonneg m) hfactor).trans hlow)
  refine ⟨hcount ▸ le_min hleast hm,?_,?_⟩
  · rintro (hsmall | rfl)
    · have hbelow : ⌊q⌋₊ < m + 1 := by
        refine (Nat.floor_lt' (Nat.succ_ne_zero m)).mpr (hhigh.trans_lt ?_)
        have hcast : (m : ℚ) ≤ 943748 := by exact_mod_cast hsmall
        push_cast
        norm_num
        linarith
      omega
    · rw [hcount]
      exact min_eq_right hleast
  · intro hlarge hlt
    have habove : m + 1 ≤ ⌊q⌋₊ := by
      refine Nat.le_floor (le_trans ?_ hlow)
      have hcast : (1063383 : ℚ) ≤ m := by exact_mod_cast hlarge
      push_cast
      norm_num
      linarith
    omega

/-- Seven of ten weights are met. Half of four million weights and more is exceeded. -/
theorem selectionCount_of_isNearest_half :
    (Single.ofRatio false 7 10).IsNearest ((7 : ℕ) / (10 : ℕ)) ∧
    selectionCount (Single.ofRatio false 7 10) 10 = 7 ∧
    (Single.ofRatio false 2097152 4194304).IsNearest ((2097152 : ℕ) / (4194304 : ℕ)) ∧
    2097152 < selectionCount (Single.ofRatio false 2097152 4194304) 4194304 := by
  have htenths : binary32.Normal ((7 : ℕ) / (10 : ℕ)) := .inr (by norm_num [binary32])
  have hhalf : binary32.Normal ((2097152 : ℕ) / (4194304 : ℕ)) := .inr (by norm_num [binary32])
  have hnearest := (Single.isNearest_ofRatio (by decide) htenths).1
  have hnearest' := (Single.isNearest_ofRatio (by decide) hhalf).1
  exact ⟨hnearest,
    (selectionCount_of_isNearest (by decide) (by decide) (by decide) hnearest).2.1 (.inl (by decide)),
    hnearest',(selectionCount_of_isNearest (by decide) (by decide) (by decide) hnearest').2.2
      (by decide) (by decide)⟩

-- Both ends of the gap are taken: the first count that can be exceeded, the last that can be met.
example : selectionCount (Single.ofRatio false 943749 494796128251) 494796128251 = 943750 := by
  decide +kernel

example : selectionCount (Single.ofRatio false 1063382 1115036777571) 1115036777571 = 1063382 := by
  decide +kernel

end Sensitivity
