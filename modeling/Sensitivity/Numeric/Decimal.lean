import Sensitivity.Numeric.Rounding

/-! Decimal expansions of exact ratios: rounded to a number of digits, rounded
to a place, and the shortest one inside the interval of reals that round to a
binary magnitude. -/
namespace Sensitivity.Numeric

/-- The number `digits * 10 ^ exponent`. -/
structure Decimal where
  digits : Nat
  exponent : Int
deriving DecidableEq, Repr

inductive Tie where
  | up
  | toEven
deriving DecidableEq

def digitCount (n : Nat) : Nat := (Nat.toDigits 10 n).length

/-- The ratio `num / den` divided by `10 ^ k`, as a new numerator and denominator. -/
def onGrid (num den : Nat) (k : Int) : Nat × Nat :=
  if 0 ≤ k then (num,den * 10 ^ k.toNat) else (num * 10 ^ (-k).toNat,den)

def leadingExponent (num den : Nat) : Int :=
  if den ≤ num then (digitCount (num / den) : Int) - 1
  else -(digitCount ((den + num - 1) / num - 1) : Int)

namespace Decimal

def leading (d : Decimal) : Int := d.exponent + digitCount d.digits - 1

def strip : Nat → Decimal → Decimal
  | 0, d => d
  | fuel + 1, d =>
    if d.digits ≠ 0 ∧ d.digits % 10 = 0 then strip fuel ⟨d.digits / 10,d.exponent + 1⟩ else d

def significant (count : Nat) (num den : Nat) : Decimal :=
  let k := leadingExponent num den - (count - 1 : Nat)
  let (n,d) := onGrid num den k
  let c := nearestEven n d
  if c = 10 ^ count then ⟨10 ^ (count - 1),k + 1⟩ else ⟨c,k⟩

def places (count : Nat) (num den : Nat) : Decimal :=
  ⟨nearestEven (num * 10 ^ count) den,-count⟩

end Decimal

/-- The reals that round to a magnitude, in quarters of its last place: lower end,
the magnitude itself and upper end, all over one scale `num / den`; the ends belong
to the interval when `closed`. -/
structure RoundingInterval where
  low : Nat
  middle : Nat
  high : Nat
  num : Nat
  den : Nat
  closed : Bool

namespace RoundingInterval

/-- Below a power of two the neighbour is only half as far away. -/
def of (f : BinaryFormat) (m : Magnitude) : RoundingInterval :=
  let narrow := m.significand = 2 ^ (f.precision - 1) ∧ f.least < m.exponent
  let (num,den) := Magnitude.ratio ⟨1,m.exponent - 2⟩
  { low := 4 * m.significand - (if narrow then 1 else 2)
    middle := 4 * m.significand
    high := 4 * m.significand + 2
    num, den
    closed := m.significand % 2 = 0 }

def contains (r : RoundingInterval) (c : Nat) (k : Int) : Bool :=
  let (n,d) := onGrid r.num r.den k
  if r.closed then decide (r.low * n ≤ c * d ∧ c * d ≤ r.high * n)
  else decide (r.low * n < c * d ∧ c * d < r.high * n)

/-- The best multiple of `10 ^ k` in the interval: of the two neighbours of the
magnitude the nearer one, if it is inside, else the other. -/
def best? (r : RoundingInterval) (tie : Tie) (k : Int) : Option Decimal :=
  let (n,d) := onGrid r.num r.den k
  let c := r.middle * n / d
  let twice := 2 * r.middle * n
  let half := (2 * c + 1) * d
  let upper :=
    if half < twice then true
    else if twice < half then false
    else match tie with
      | .up => true
      | .toEven => c % 2 = 1
  let (first,second) := if upper then (c + 1,c) else (c,c + 1)
  if r.contains first k then some ⟨first,k⟩
  else if r.contains second k then some ⟨second,k⟩
  else none

end RoundingInterval

/-- The decimal with the fewest digits that rounds to a positive magnitude, at most `limit`. -/
def shortest (f : BinaryFormat) (tie : Tie) (limit : Nat) (m : Magnitude) : Decimal :=
  let r := RoundingInterval.of f m
  let e := leadingExponent (r.middle * r.num) r.den
  let found := (List.range limit).findSome? fun (extra : Nat) => r.best? tie (e - extra)
  Decimal.strip (limit + 1) (found.getD ⟨r.middle * r.num,0⟩)

end Sensitivity.Numeric
