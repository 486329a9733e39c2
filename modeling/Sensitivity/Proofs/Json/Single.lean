import Sensitivity.Proofs.Json.Number
import Mathlib.Tactic.Positivity

/-! Floats in documents. The shortest decimal of a float other than zero has digits other than
zero, so that its text is a number with a point or an exponent. -/
namespace Sensitivity

namespace Numeric

theorem Decimal.digits_strip_ne_zero {fuel : ℕ} {d : Decimal} (h : d.digits ≠ 0) :
    (Decimal.strip fuel d).digits ≠ 0 := by
  induction fuel generalizing d with
  | zero => exact h
  | succ fuel ih =>
    rw [Decimal.strip]
    split
    next hzero => exact ih (show d.digits / 10 ≠ 0 by omega)
    next => exact h

theorem onGrid_ne_zero {num den : ℕ} {k : ℤ} (h : num ≠ 0) : (onGrid num den k).1 ≠ 0 := by
  unfold onGrid
  split
  · exact h
  · exact Nat.mul_ne_zero h (by positivity)

theorem RoundingInterval.ne_zero_of_contains {r : RoundingInterval} {c : ℕ} {k : ℤ}
    (hlow : r.low ≠ 0) (hnum : r.num ≠ 0) (h : r.contains c k) : c ≠ 0 := by
  have hpos : 0 < r.low * (onGrid r.num r.den k).1 :=
    Nat.pos_of_ne_zero (Nat.mul_ne_zero hlow (onGrid_ne_zero hnum))
  rintro rfl
  simp only [RoundingInterval.contains,Nat.zero_mul] at h
  split at h <;> simp only [decide_eq_true_eq] at h <;> omega

theorem RoundingInterval.digits_best?_ne_zero {r : RoundingInterval} {tie : Tie} {k : ℤ}
    {d : Decimal} (hlow : r.low ≠ 0) (hnum : r.num ≠ 0) (h : r.best? tie k = some d) :
    d.digits ≠ 0 := by
  have hchosen : ∀ p : ℕ × ℕ, (if r.contains p.1 k then some (⟨p.1,k⟩ : Decimal)
      else if r.contains p.2 k then some ⟨p.2,k⟩ else none) = some d → d.digits ≠ 0 := by
    intro p hp
    repeat' split at hp
    next hfirst =>
      obtain rfl := Option.some.inj hp
      exact ne_zero_of_contains hlow hnum hfirst
    next hsecond =>
      obtain rfl := Option.some.inj hp
      exact ne_zero_of_contains hlow hnum hsecond
    next => cases hp
  exact hchosen _ h

theorem digits_shortest_ne_zero {tie : Tie} {limit : ℕ} {m : Magnitude} (h : m.significand ≠ 0) :
    (shortest binary32 tie limit m).digits ≠ 0 := by
  have hlow : (RoundingInterval.of binary32 m).low ≠ 0 := by
    simp only [RoundingInterval.of]
    split <;> omega
  have hnum : (RoundingInterval.of binary32 m).num ≠ 0 := by
    simp only [RoundingInterval.of,Magnitude.ratio,shiftRatio]
    split
    · exact Nat.one_ne_zero
    · exact Nat.mul_ne_zero Nat.one_ne_zero (by positivity)
  have hmiddle : (RoundingInterval.of binary32 m).middle ≠ 0 := by
    simp only [RoundingInterval.of]
    omega
  have hfound : ∀ o : Option Decimal, (∀ d, o = some d → d.digits ≠ 0) →
      (o.getD ⟨(RoundingInterval.of binary32 m).middle * (RoundingInterval.of binary32 m).num,
        0⟩).digits ≠ 0 := by
    rintro (_ | d) ho
    · exact Nat.mul_ne_zero hmiddle hnum
    · exact ho d rfl
  refine Decimal.digits_strip_ne_zero (hfound _ fun d hd => ?_)
  obtain ⟨extra,-,hbest⟩ := List.exists_of_findSome?_eq_some hd
  exact RoundingInterval.digits_best?_ne_zero hlow hnum hbest

end Numeric

namespace Json

open Numeric

variable {d : Decimal}

theorem digits_append {ds es : List Char} (hds : Digits ds) (hes : ∀ c ∈ es, c.isDigit) :
    Digits (ds ++ es) :=
  ⟨by simp [hds.ne_nil],fun c hc => (List.mem_append.mp hc).elim (hds.isDigit c) (hes c)⟩

theorem isDigit_of_mem_replicate {n : ℕ} {c : Char} (h : c ∈ List.replicate n '0') : c.isDigit := by
  rw [List.eq_of_mem_replicate h]
  decide

theorem exists_pointed {whole fraction : List Char} (hwhole : Digits whole)
    (hleading : whole.head? = some '0' → whole = ['0']) (hfraction : Digits fraction) :
    ∃ s : Spelling, s.IsReal ∧ s.chars false = whole ++ '.' :: fraction :=
  ⟨{ whole := whole
     fraction := some fraction
     exponent := none
     digits_whole := hwhole
     leading := hleading
     digits_fraction := by rintro _ ⟨⟩; exact hfraction
     digits_exponent := by simp
     sign_exponent := by simp },.inl rfl,
    by simp [Spelling.chars,Spelling.fractionChars,Spelling.exponentChars]⟩

theorem exists_positional (h : d.digits ≠ 0 ∨ d.exponent ≤ 0) :
    ∃ s : Spelling, s.IsReal ∧ s.chars false = positionalText true d := by
  have hds := digits_toDigits d.digits
  simp only [positionalText]
  split
  next hexponent =>
    -- Zeros behind a zero would be a leading zero in front of digits, which no number may have.
    have hleading : (Nat.toDigits 10 d.digits ++ List.replicate d.exponent.toNat '0').head? =
        some '0' → Nat.toDigits 10 d.digits ++ List.replicate d.exponent.toNat '0' = ['0'] := by
      intro hzero
      rw [List.head?_append,List.head?_eq_some_head hds.ne_nil,Option.some_or,
        ← List.head?_eq_some_head hds.ne_nil] at hzero
      have hdigits := head?_toDigits hzero
      have hnone : d.exponent.toNat = 0 := by
        rcases h with h | h
        · exact absurd hdigits h
        · omega
      simp [hdigits,hnone]
    obtain ⟨s,hs,hchars⟩ := exists_pointed (digits_append hds fun c => isDigit_of_mem_replicate)
      hleading (⟨by simp,by simp⟩ : Digits ['0'])
    exact ⟨s,hs,hchars⟩
  next hexponent =>
    split
    next hafter =>
      refine exists_pointed ⟨?_,fun c hc => hds.isDigit c (List.mem_of_mem_take hc)⟩ (fun hzero => ?_)
        ⟨?_,fun c hc => hds.isDigit c (List.mem_of_mem_drop hc)⟩
      · rw [Ne,List.take_eq_nil_iff,not_or]
        exact ⟨by omega,hds.ne_nil⟩
      · rw [List.head?_take,if_neg (by omega)] at hzero
        have hone : (Nat.toDigits 10 d.digits).length = 1 := by rw [head?_toDigits hzero]; rfl
        omega
      · rw [Ne,List.drop_eq_nil_iff]
        omega
    next hafter =>
      refine exists_pointed ⟨by simp,by simp⟩ (fun _ => rfl) ⟨by simp,fun c hc => ?_⟩
      exact (List.mem_append.mp hc).elim isDigit_of_mem_replicate (hds.isDigit c)

theorem exists_exponential (d : Decimal) :
    ∃ s : Spelling, s.IsReal ∧ s.chars false = exponentText true d := by
  have hds := digits_toDigits d.digits
  obtain ⟨c,cs,hc,hdigit⟩ := hds.head
  refine ⟨{ whole := [c]
            fraction := if cs = [] then none else some cs
            exponent := some (if d.leading < 0 then ['-'] else ['+'],
              Nat.toDigits 10 d.leading.natAbs)
            digits_whole := ⟨by simp,by simpa using hdigit⟩
            leading := by simp
            digits_fraction := ?_
            digits_exponent := ?_
            sign_exponent := ?_ },.inr rfl,?_⟩
  · intro ds hfraction
    split at hfraction
    next => cases hfraction
    next hne =>
      obtain rfl := Option.some.inj hfraction
      exact ⟨hne,fun c' hc' => hds.isDigit c' (hc ▸ List.mem_cons_of_mem c hc')⟩
  · rintro _ ⟨⟩
    exact digits_toDigits _
  · rintro _ ⟨⟩
    right
    split
    · exact .inl rfl
    · exact .inr rfl
  · simp only [exponentText,hc]
    cases cs <;> simp [Spelling.chars,Spelling.fractionChars,Spelling.exponentChars,pointAfter]

theorem decimalText_document (d : Decimal) :
    documentStyle.decimalText d = positionalText true d ∨
      documentStyle.decimalText d = exponentText true d := by
  by_cases h : d.digits = 0 ∨ decide (-6 ≤ d.leading ∧ d.leading ≤ 12) = true
  · exact .inl (if_pos h)
  · exact .inr (if_neg h)

/-- The text of a finite float is a number with a point or an exponent. -/
theorem exists_ofSingle {x : Single} (h : x.isFinite) :
    ∃ s : Spelling, s.IsReal ∧ ofSingle x = .number (s.chars x.negative) := by
  have hnan : x.isNaN = false := by
    simp only [Single.isFinite,Single.isNaN,decide_eq_true_eq,decide_eq_false_iff_not] at h ⊢
    omega
  have hdecimal : ∃ s : Spelling, s.IsReal ∧
      s.chars false = documentStyle.decimalText (documentStyle.shortestOf x) := by
    obtain htext | htext := decimalText_document (documentStyle.shortestOf x)
    · rw [htext]
      refine exists_positional ?_
      rw [NumberStyle.shortestOf]
      split
      next => exact .inr le_rfl
      next hsignificand => exact .inl (digits_shortest_ne_zero hsignificand)
    · rw [htext]
      exact exists_exponential _
  obtain ⟨s,hs,hchars⟩ := hdecimal
  refine ⟨s,hs,?_⟩
  rw [ofSingle,if_pos h,NumberStyle.text,hnan,← hchars]
  cases hnegative : x.negative <;> simp [Spelling.chars,h]

end Json
end Sensitivity
