import Sensitivity.Json.Scanner
import Sensitivity.Json.Decode
import Mathlib.Data.List.TakeWhile

/-! Numbers that are written are read again. A number is spelled from its whole part, fraction and
exponent; the scanner takes exactly these characters, and the reader finds the parts in them. -/
namespace Sensitivity.Json

open Numeric

/-- Nothing that continues a number stands in front. -/
def Ends (cs : List Char) : Prop :=
  ∀ c ∈ cs.head?, c.isDigit = false ∧ c ≠ '.' ∧ c ≠ 'e' ∧ c ≠ 'E'

theorem ends_nil : Ends [] := by simp [Ends]

structure Digits (cs : List Char) : Prop where
  ne_nil : cs ≠ []
  isDigit : ∀ c ∈ cs, c.isDigit

theorem digits_toDigits (n : ℕ) : Digits (Nat.toDigits 10 n) :=
  ⟨Nat.toDigits_ne_nil,fun _ h => Nat.isDigit_of_mem_toDigits (by decide) (by decide) h⟩

section

variable {ds rest : List Char}

theorem Digits.head (h : Digits ds) : ∃ d ds', ds = d :: ds' ∧ d.isDigit := by
  obtain ⟨d,ds',rfl⟩ := List.exists_cons_of_ne_nil h.ne_nil
  exact ⟨d,ds',rfl,h.isDigit d List.mem_cons_self⟩

theorem Digits.takeWhile_append (h : Digits ds) (hrest : ∀ c ∈ rest.head?, c.isDigit = false) :
    (ds ++ rest).takeWhile Char.isDigit = ds := by
  rw [List.takeWhile_append_of_pos h.isDigit]
  cases rest with
  | nil => simp
  | cons c rest => simp [hrest c rfl]

theorem Digits.dropWhile_append (h : Digits ds) (hrest : ∀ c ∈ rest.head?, c.isDigit = false) :
    (ds ++ rest).dropWhile Char.isDigit = rest := by
  rw [List.dropWhile_append_of_pos h.isDigit]
  cases rest with
  | nil => rfl
  | cons c rest => simp [hrest c rfl]

theorem scanDigits_append (h : Digits ds) (hrest : ∀ c ∈ rest.head?, c.isDigit = false) :
    scanDigits (ds ++ rest) = some (ds,rest) := by
  rw [scanDigits,h.takeWhile_append hrest,h.dropWhile_append hrest,if_neg h.ne_nil]

end

/-- The parts of a number behind its sign. -/
structure Spelling where
  whole : List Char
  fraction : Option (List Char)
  exponent : Option (List Char × List Char)
  digits_whole : Digits whole
  leading : whole.head? = some '0' → whole = ['0']
  digits_fraction : ∀ ds ∈ fraction, Digits ds
  digits_exponent : ∀ e ∈ exponent, Digits e.2
  sign_exponent : ∀ e ∈ exponent, e.1 = [] ∨ e.1 = ['-'] ∨ e.1 = ['+']

namespace Spelling

variable (s : Spelling)

def fractionChars : List Char := s.fraction.elim [] ('.' :: ·)

def exponentChars : List Char := s.exponent.elim [] fun e => 'e' :: (e.1 ++ e.2)

def chars (negative : Bool) : List Char :=
  (if negative then ['-'] else []) ++ s.whole ++ s.fractionChars ++ s.exponentChars

/-- Whether there is a point or an exponent. -/
def IsReal : Prop := s.fraction.isSome ∨ s.exponent.isSome

end Spelling

variable {s : Spelling} {rest : List Char}

theorem Spelling.head_exponentChars (hrest : Ends rest) :
    ∀ c ∈ (s.exponentChars ++ rest).head?, c.isDigit = false ∧ c ≠ '.' := by
  intro c hc
  cases he : s.exponent with
  | none =>
    simp only [exponentChars,he,Option.elim_none,List.nil_append] at hc
    exact ⟨(hrest c hc).1,(hrest c hc).2.1⟩
  | some e =>
    simp only [exponentChars,he,Option.elim_some,List.cons_append,List.head?_cons,
      Option.mem_some] at hc
    subst hc
    decide

theorem Spelling.head_fractionChars (hrest : Ends rest) :
    ∀ c ∈ (s.fractionChars ++ (s.exponentChars ++ rest)).head?, c.isDigit = false := by
  intro c hc
  cases hf : s.fraction with
  | none =>
    simp only [fractionChars,hf,Option.elim_none,List.nil_append] at hc
    exact (s.head_exponentChars hrest c hc).1
  | some ds =>
    simp only [fractionChars,hf,Option.elim_some,List.cons_append,List.head?_cons,
      Option.mem_some] at hc
    subst hc
    decide

theorem scanWhole_append (hrest : ∀ c ∈ rest.head?, c.isDigit = false) :
    scanWhole (s.whole ++ rest) = some (s.whole,rest) := by
  have hleading : ¬(s.whole.head? = some '0' ∧ s.whole ≠ ['0']) := fun h => h.2 (s.leading h.1)
  simp [scanWhole,scanDigits_append s.digits_whole hrest,hleading]

theorem scanFraction_append (hrest : ∀ c ∈ rest.head?, c.isDigit = false ∧ c ≠ '.') :
    scanFraction (s.fractionChars ++ rest) = some (s.fractionChars,rest) := by
  cases hf : s.fraction with
  | none =>
    simp only [Spelling.fractionChars,hf,Option.elim_none,List.nil_append]
    cases rest with
    | nil => rfl
    | cons c rest =>
      have hc : c ≠ '.' := (hrest c rfl).2
      simp [scanFraction,hc]
  | some ds =>
    have hscan := scanDigits_append (s.digits_fraction ds hf) fun c hc => (hrest c hc).1
    simp [Spelling.fractionChars,hf,scanFraction,hscan]

theorem Spelling.exponentChars_cases (s : Spelling) :
    (s.exponent = none ∧ s.exponentChars = []) ∨
    (∃ ds, s.exponent = some (['-'],ds) ∧ s.exponentChars = 'e' :: '-' :: ds) ∨
    (∃ ds, s.exponent = some (['+'],ds) ∧ s.exponentChars = 'e' :: '+' :: ds) ∨
    ∃ c cs, c ≠ '-' ∧ c ≠ '+' ∧ s.exponent = some ([],c :: cs) ∧
      s.exponentChars = 'e' :: c :: cs := by
  cases he : s.exponent with
  | none => exact .inl ⟨rfl,by simp [exponentChars,he]⟩
  | some e =>
    obtain ⟨sign,ds⟩ := e
    rcases s.sign_exponent _ he with h | h | h <;> simp only at h <;> subst h
    · obtain ⟨c,cs,hcs,hc⟩ := (s.digits_exponent _ he).head
      simp only at hcs
      subst hcs
      have hminus : c ≠ '-' := by rintro rfl; revert hc; decide
      have hplus : c ≠ '+' := by rintro rfl; revert hc; decide
      exact .inr (.inr (.inr ⟨c,cs,hminus,hplus,rfl,by simp [exponentChars,he]⟩))
    · exact .inr (.inl ⟨ds,rfl,by simp [exponentChars,he]⟩)
    · exact .inr (.inr (.inl ⟨ds,rfl,by simp [exponentChars,he]⟩))

theorem scanExponent_append (hrest : Ends rest) :
    scanExponent (s.exponentChars ++ rest) = some (s.exponentChars,rest) := by
  have hscan : ∀ e ∈ s.exponent, scanDigits (e.2 ++ rest) = some (e.2,rest) := fun e he =>
    scanDigits_append (s.digits_exponent e he) fun c hc => (hrest c hc).1
  obtain ⟨he,hchars⟩ | ⟨ds,he,hchars⟩ | ⟨ds,he,hchars⟩ | ⟨c,cs,hminus,hplus,he,hchars⟩ :=
    s.exponentChars_cases <;> rw [hchars]
  · cases rest with
    | nil => rfl
    | cons c rest =>
      obtain ⟨-,-,hlower,hupper⟩ := hrest c rfl
      simp [scanExponent,hlower,hupper]
  · simp [scanExponent,scanSign,hscan _ he]
  · simp [scanExponent,scanSign,hscan _ he]
  · have hdigits := hscan _ he
    simp only [List.cons_append] at hdigits
    simp [scanExponent,scanSign,hminus,hplus,hdigits]

/-- The scanner takes a number up to its end. -/
theorem scanNumber_append (negative : Bool) (hrest : Ends rest) :
    scanNumber (s.chars negative ++ rest) = some (s.chars negative,rest) := by
  have hunsigned : scanUnsigned (s.whole ++ (s.fractionChars ++ (s.exponentChars ++ rest))) =
      some (s.whole ++ s.fractionChars ++ s.exponentChars,rest) := by
    simp [scanUnsigned,scanWhole_append (s.head_fractionChars hrest),
      scanFraction_append (s.head_exponentChars hrest),scanExponent_append hrest]
  cases negative with
  | true => simpa [Spelling.chars,scanNumber] using hunsigned
  | false =>
    obtain ⟨d,ds,hd,hdigit⟩ := s.digits_whole.head
    have hminus : d ≠ '-' := by rintro rfl; revert hdigit; decide
    simp only [Spelling.chars,Bool.false_eq_true,if_false,List.nil_append,List.append_assoc]
    rw [scanNumber]
    · simpa using hunsigned
    · intro cs hcs
      rw [hd] at hcs
      exact hminus (List.cons.inj hcs).1

theorem Numeral.ofLexeme_chars (negative : Bool) :
    Numeral.ofLexeme (s.chars negative) = ⟨negative,digitValues s.whole,s.fraction.map digitValues,
      s.exponent.map fun e => (e.1 = ['-'],digitValues e.2)⟩ := by
  obtain ⟨d,ds,hd,hdigit⟩ := s.digits_whole.head
  have hminus : d ≠ '-' := by rintro rfl; revert hdigit; decide
  have hsign : decide ((s.chars negative).head? = some '-') = negative := by
    cases negative <;> simp [Spelling.chars,hd,hminus]
  have hbody : (if (s.chars negative).head? = some '-' then (s.chars negative).drop 1
      else s.chars negative) = s.whole ++ (s.fractionChars ++ s.exponentChars) := by
    cases negative <;> simp [Spelling.chars,hd,hminus]
  have hfraction : ∀ c ∈ (s.fractionChars ++ s.exponentChars).head?, c.isDigit = false := by
    simpa using s.head_fractionChars ends_nil
  have hexponent : ∀ c ∈ s.exponentChars.head?, c.isDigit = false ∧ c ≠ '.' := by
    simpa using s.head_exponentChars ends_nil
  unfold Numeral.ofLexeme
  simp only [hsign,hbody,s.digits_whole.takeWhile_append hfraction,
    s.digits_whole.dropWhile_append hfraction]
  cases hf : s.fraction with
  | none =>
    have hpoint : s.exponentChars.head? ≠ some '.' := fun h => (hexponent '.' h).2 rfl
    simp only [Spelling.fractionChars,hf,Option.elim_none,List.nil_append,if_neg hpoint,
      Option.map_none]
    obtain ⟨he,hchars⟩ | ⟨ds,he,hchars⟩ | ⟨ds,he,hchars⟩ | ⟨c,cs,hminus,hplus,he,hchars⟩ :=
      s.exponentChars_cases <;> simp_all
  | some fs =>
    have hfs := s.digits_fraction fs hf
    have hdigits : ∀ c ∈ s.exponentChars.head?, c.isDigit = false := fun c hc => (hexponent c hc).1
    simp only [Spelling.fractionChars,hf,Option.elim_some,List.cons_append,List.head?_cons,
      if_true,List.drop_succ_cons,List.drop_zero,hfs.takeWhile_append hdigits,
      hfs.dropWhile_append hdigits,Option.map_some]
    obtain ⟨he,hchars⟩ | ⟨ds,he,hchars⟩ | ⟨ds,he,hchars⟩ | ⟨c,cs,hminus,hplus,he,hchars⟩ :=
      s.exponentChars_cases <;> simp_all

theorem Numeral.absorb_digitValues {cs : List Char} {first : ℕ}
    (h : Nat.ofDigitChars 10 cs first < 2 ^ (64 : ℕ)) :
    Numeral.absorb first (digitValues cs) = (Nat.ofDigitChars 10 cs first,0) := by
  induction cs generalizing first with
  | nil => rfl
  | cons c cs ih =>
    rw [Nat.ofDigitChars_cons] at h ⊢
    have hle : first * 10 + (c.toNat - '0'.toNat) ≤
        Nat.ofDigitChars 10 cs (10 * first + (c.toNat - '0'.toNat)) := by
      rw [Nat.ofDigitChars_eq_ofDigitChars_zero,Nat.mul_comm first 10]
      have hpow : 0 < 10 ^ cs.length := Nat.pow_pos (by decide)
      exact (Nat.le_mul_of_pos_left _ hpow).trans (Nat.le_add_right _ _)
    simp only [digitValues,List.map_cons,Numeral.absorb,if_pos (hle.trans_lt h)]
    rw [Nat.mul_comm first 10]
    exact ih h

theorem Numeral.absorb_lt {ds : List ℕ} {first : ℕ} (h : first < 2 ^ (64 : ℕ)) :
    (Numeral.absorb first ds).1 < 2 ^ (64 : ℕ) := by
  induction ds generalizing first with
  | nil => exact h
  | cons d ds ih =>
    rw [Numeral.absorb]
    split
    next hfits => exact ih hfits
    next => exact h

/-- What a number can stand for: without point and exponent a whole number that 64 bits hold, and
otherwise a float. -/
theorem Numeral.value?_cases {n : Numeral} {v : Value} (h : n.value? = some v) :
    (∃ negative size, v = .real negative size) ∨
      (n.fraction = none ∧ n.exponent = none ∧
        ((∃ k < 2 ^ (64 : ℕ), v = .unsigned k) ∨ ∃ k ≤ 2 ^ (63 : ℕ), v = .negative k)) := by
  have hreal : ∀ {o : Option Magnitude} {b : Bool}, o.bind (fun m => some (Value.real b m)) = some v →
      ∃ negative size, v = .real negative size := by
    intro o b ho
    obtain ⟨m,-,ho⟩ := Option.bind_eq_some_iff.mp ho
    exact ⟨b,m,(Option.some.inj ho).symm⟩
  obtain ⟨negative,whole,fraction,exponent⟩ := n
  simp only [Numeral.value?] at h
  split at h
  next =>
    have hlt : (Numeral.absorb 0 whole).1 < 2 ^ (64 : ℕ) := Numeral.absorb_lt (by decide)
    repeat' split at h
    next => exact .inl (hreal h)
    next => exact .inr ⟨rfl,rfl,.inl ⟨_,hlt,(Option.some.inj h).symm⟩⟩
    next => exact .inl (hreal h)
    next hsmall =>
      exact .inr ⟨rfl,rfl,.inr ⟨_,not_lt.mp (not_or.mp hsmall).2,(Option.some.inj h).symm⟩⟩
  next =>
    left
    cases exponent with
    | none => exact hreal h
    | some e =>
      simp only at h
      repeat' split at h
      next => exact hreal h
      next => exact hreal h
      next => exact ⟨_,_,(Option.some.inj h).symm⟩
      next => cases h

theorem toInt?_of_isReal {negative : Bool} {v : Value} (hs : s.IsReal)
    (h : numberValue? (s.chars negative) = some v) : v.toInt? = none := by
  rw [numberValue?,Numeral.ofLexeme_chars] at h
  obtain ⟨negative,size,rfl⟩ | ⟨hfraction,hexponent,-⟩ := Numeral.value?_cases h
  · rfl
  · rcases hs with hs | hs <;> simp_all

variable {n : ℕ}

theorem head?_toDigits (h : (Nat.toDigits 10 n).head? = some '0') : n = 0 := by
  induction n using Nat.strongRecOn with
  | ind n ih =>
    rw [Nat.toDigits_eq_if (by decide)] at h
    split at h
    next => simpa using h
    next hn =>
      rw [List.head?_append,List.head?_eq_some_head Nat.toDigits_ne_nil,Option.some_or] at h
      have hzero := ih (n / 10) (by omega)
        ((List.head?_eq_some_head Nat.toDigits_ne_nil).trans h)
      omega

def Spelling.ofNat (n : ℕ) : Spelling where
  whole := Nat.toDigits 10 n
  fraction := none
  exponent := none
  digits_whole := digits_toDigits n
  leading h := by rw [head?_toDigits h]; rfl
  digits_fraction := by simp
  digits_exponent := by simp
  sign_exponent := by simp

theorem numberValue?_ofNat (h : n < 2 ^ (64 : ℕ)) :
    numberValue? ((Spelling.ofNat n).chars false) = some (.unsigned n) := by
  have habsorb : Numeral.absorb 0 (digitValues (Nat.toDigits 10 n)) = (n,0) := by
    rw [Numeral.absorb_digitValues (by rwa [Nat.ofDigitChars_ten_toDigits]),
      Nat.ofDigitChars_ten_toDigits]
  rw [numberValue?,Numeral.ofLexeme_chars]
  simp [Spelling.ofNat,Numeral.value?,habsorb]

theorem ofNat_eq_number (n : ℕ) : ofNat n = .number ((Spelling.ofNat n).chars false) := by
  simp [ofNat,Spelling.chars,Spelling.ofNat,Spelling.fractionChars,Spelling.exponentChars]

theorem ofInt_eq_number (k : ℤ) :
    ofInt k = .number ((Spelling.ofNat k.natAbs).chars (decide (k < 0))) := by
  by_cases hk : k < 0 <;>
    simp [ofInt,Spelling.chars,Spelling.ofNat,Spelling.fractionChars,Spelling.exponentChars,hk]

theorem toNat?_ofNat (h : n < 2 ^ (64 : ℕ)) : (ofNat n).toNat? = some n := by
  rw [ofNat_eq_number,toNat?,toValue?,numberValue?_ofNat h]
  rfl

theorem lt_of_toNat? {j : Json} (h : j.toNat? = some n) : n < 2 ^ (64 : ℕ) := by
  obtain ⟨v,hv,hn⟩ := Option.bind_eq_some_iff.mp h
  cases j with
  | number lexeme =>
    obtain ⟨_,_,rfl⟩ | ⟨-,-,⟨k,hk,rfl⟩ | ⟨k,-,rfl⟩⟩ := Numeral.value?_cases hv
    · cases hn
    · obtain rfl := Option.some.inj hn
      exact hk
    · cases hn
  | _ => cases hv

theorem Value.lt_of_toInt? {v : Value} {k : ℤ} (h : v.toInt? = some k) : k < 2 ^ (63 : ℕ) := by
  cases v with
  | unsigned n =>
    simp only [Value.toInt?] at h
    split at h
    next hn =>
      obtain rfl := Option.some.inj h
      exact_mod_cast hn
    next => cases h
  | negative n =>
    obtain rfl := Option.some.inj h
    omega
  | real negative size => cases h

end Sensitivity.Json
