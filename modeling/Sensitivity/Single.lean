import Sensitivity.Scalar
import Sensitivity.Numeric.Rounding

/-! 32-bit floats, kept as their bit patterns so that every NaN is told apart.
Arithmetic is the machine's; classification, both orders and conversions are
read off the bits. A NaN is in no relation to any number, and the two zeros are
equal (`le_iff`), while ranks tell all floats apart (`rank_injective`). -/
namespace Sensitivity

open Numeric

/-- A 32-bit float. -/
structure Single where
  bits : UInt32
deriving DecidableEq

namespace Single

def ofNative (x : Float32) : Single := ⟨x.toBits⟩

def toNative (x : Single) : Float32 := Float32.ofBits x.bits

def negative (x : Single) : Bool := 2 ^ (31 : Nat) ≤ x.bits.toNat

def body (x : Single) : Nat := x.bits.toNat % 2 ^ (31 : Nat)

/-- The body of both infinities; every NaN has a larger one. -/
def infinityBody : Nat := 255 * 2 ^ (23 : Nat)

def isNaN (x : Single) : Bool := infinityBody < x.body

def isFinite (x : Single) : Bool := x.body < infinityBody

def ofBody (negative : Bool) (body : Nat) : Single :=
  ⟨UInt32.ofNat (if negative then 2 ^ (31 : Nat) + body else body)⟩

def zero : Single := ofBody false 0
def infinity : Single := ofBody false infinityBody
def negInfinity : Single := ofBody true infinityBody
def nan : Single := ofBody false (infinityBody + 2 ^ (22 : Nat))

def abs (x : Single) : Single := ofBody false x.body

def neg (x : Single) : Single := ofBody (!x.negative) x.body

/-- The exact size of a finite value. -/
def size (x : Single) : Magnitude :=
  let field : Nat := x.body / 2 ^ (23 : Nat)
  let fraction : Nat := x.body % 2 ^ (23 : Nat)
  if field = 0 then ⟨fraction,-149⟩ else ⟨2 ^ (23 : Nat) + fraction,(field : Int) - 150⟩

def ofSize (negative : Bool) : Option Magnitude → Single
  | none => ofBody negative infinityBody
  | some m =>
    if m.significand < 2 ^ (23 : Nat) then ofBody negative m.significand
    else ofBody negative ((m.exponent + 150).toNat * 2 ^ (23 : Nat) + (m.significand - 2 ^ (23 : Nat)))

def ofRatio (negative : Bool) (num den : Nat) : Single :=
  ofSize negative (roundRatio binary32 num den)

def ofNat (n : Nat) : Single := ofRatio false n 1

def ofInt (n : Int) : Single := ofRatio (n < 0) n.natAbs 1

/-- The position in the total order: negative NaNs first, then the numbers from
negative to positive infinity with `-0` before `0`, and positive NaNs last. -/
def rank (x : Single) : Int :=
  if x.negative then -(x.body : Int) - 1 else x.body

theorem rank_injective {x y : Single} (h : x.rank = y.rank) : x = y := by
  obtain ⟨⟨⟨a,ha⟩⟩⟩ := x
  obtain ⟨⟨⟨b,hb⟩⟩⟩ := y
  simp only [rank,negative,body,decide_eq_true_eq] at h
  simp only [mk.injEq,UInt32.ofBitVec.injEq,BitVec.ofFin.injEq,Fin.mk.injEq]
  simp only [UInt32.toNat,BitVec.toNat] at h
  split at h <;> split at h <;> omega

def truncate (x : Single) : Int :=
  if x.isFinite then
    let whole : Int := x.size.floor
    if x.negative then -whole else whole
  else 0

def add (x y : Single) : Single := ofNative (x.toNative + y.toNative)
def sub (x y : Single) : Single := ofNative (x.toNative - y.toNative)
def mul (x y : Single) : Single := ofNative (x.toNative * y.toNative)
def div (x y : Single) : Single := ofNative (x.toNative / y.toNative)

/-- The place of a number among all numbers, which both zeros share. -/
def level (x : Single) : Int := if x.negative then -(x.body : Int) else x.body

def AtMost (x y : Single) : Prop := x.isNaN = false ∧ y.isNaN = false ∧ x.level ≤ y.level

def Below (x y : Single) : Prop := x.isNaN = false ∧ y.isNaN = false ∧ x.level < y.level

instance (x y : Single) : Decidable (AtMost x y) := inferInstanceAs (Decidable (_ ∧ _ ∧ _))

instance (x y : Single) : Decidable (Below x y) := inferInstanceAs (Decidable (_ ∧ _ ∧ _))

/-- The smaller number; a NaN gives way to the other operand. -/
def min (x y : Single) : Single :=
  if x.isNaN then y else if y.isNaN then x
  else if y.level < x.level then y else x

def max (x y : Single) : Single :=
  if x.isNaN then y else if y.isNaN then x
  else if x.level < y.level then y else x

instance : Scalar Single where
  zero := zero
  one := ofNat 1
  add := add
  sub := sub
  mul := mul
  div := div
  neg := neg
  -- Counts are words: a product of counts wraps around before it is converted.
  natCast n := ofNat (n % 2 ^ (64 : Nat))
  intCast := ofInt
  le := AtMost
  lt := Below
  min := min
  max := max
  decidableLE := inferInstanceAs (∀ x y, Decidable (AtMost x y))
  decidableLT := inferInstanceAs (∀ x y, Decidable (Below x y))
  magnitude := abs
  exp x := ofNative x.toNative.exp
  sqrt x := ofNative x.toNative.sqrt
  rpow x y := ofNative (x.toNative.pow y.toNative)
  truncate := truncate
  isFinite := isFinite
  bottom := negInfinity
  top := infinity

theorem le_iff {x y : Single} :
    x ≤ y ↔ x.isNaN = false ∧ y.isNaN = false ∧ x.level ≤ y.level := Iff.rfl

theorem lt_iff {x y : Single} :
    x < y ↔ x.isNaN = false ∧ y.isNaN = false ∧ x.level < y.level := Iff.rfl

theorem isNumber_iff {x : Single} : Scalar.IsNumber x ↔ x.isNaN = false := by
  simp [Scalar.IsNumber,le_iff]

theorem same_iff {x y : Single} :
    Scalar.Same x y ↔ x.isNaN = false ∧ y.isNaN = false ∧ x.level = y.level := by
  simp only [Scalar.Same,le_iff]
  constructor
  · rintro ⟨⟨hx,hy,hxy⟩,_,_,hyx⟩
    exact ⟨hx,hy,by omega⟩
  · rintro ⟨hx,hy,h⟩
    exact ⟨⟨hx,hy,by omega⟩,hy,hx,by omega⟩

protected theorem le_trans {x y z : Single} (hxy : x ≤ y) (hyz : y ≤ z) : x ≤ z := by
  obtain ⟨hx,_,h⟩ := le_iff.1 hxy
  obtain ⟨_,hz,k⟩ := le_iff.1 hyz
  exact le_iff.2 ⟨hx,hz,by omega⟩

protected theorem le_total {x y : Single} (hx : x.isNaN = false) (hy : y.isNaN = false) :
    x ≤ y ∨ y ≤ x := by
  simp only [le_iff,hx,hy,true_and]
  omega

theorem rank_lt_of_lt {x y : Single} (h : x < y) : x.rank < y.rank := by
  obtain ⟨_,_,h⟩ := lt_iff.1 h
  simp only [level] at h
  simp only [rank]
  by_cases hx : x.negative <;> by_cases hy : y.negative <;> simp [hx,hy] at h ⊢ <;> omega

end Single
end Sensitivity
