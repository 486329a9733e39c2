import Sensitivity.Numeral

/-! Rounding exact ratios to binary floating-point formats. A magnitude is a
whole number times a power of two, and `roundRatio` picks the one nearest to a
ratio, a tie going to the even significand. -/
namespace Sensitivity.Numeric

/-- The number `significand * 2 ^ exponent`. -/
structure Magnitude where
  significand : Nat
  exponent : Int
deriving DecidableEq, Repr, Inhabited

/-- A binary format: its significand length and the range of the exponent of the last place. -/
structure BinaryFormat where
  precision : Nat
  least : Int
  greatest : Int

def binary32 : BinaryFormat := ⟨24,-149,104⟩

def binary64 : BinaryFormat := ⟨53,-1074,971⟩

/-- The nearest whole number to a ratio, an exact half going to the even neighbour. -/
def nearestEven (num den : Nat) : Nat :=
  let q := num / den
  let twice := 2 * (num % den)
  if twice < den then q
  else if den < twice then q + 1
  else q + q % 2

def shiftRatio (num den : Nat) (e : Int) : Nat × Nat :=
  if 0 ≤ e then (num,den * 2 ^ e.toNat) else (num * 2 ^ (-e).toNat,den)

/-- The last-place exponent at which a positive ratio fills the significand, kept in range below. -/
def lastPlace (f : BinaryFormat) (num den : Nat) : Int :=
  let e := (Nat.log2 num : Int) - Nat.log2 den - f.precision
  let (n,d) := shiftRatio num den e
  max f.least (if 2 ^ f.precision * d ≤ n then e + 1 else e)

/-- A rounded significand that reached the next power of two moves up one place. -/
def carry (f : BinaryFormat) (significand : Nat) (e : Int) : Magnitude :=
  if significand = 2 ^ f.precision then ⟨2 ^ (f.precision - 1),e + 1⟩ else ⟨significand,e⟩

/-- The nearest magnitude of a format, or `none` beyond its largest one. -/
def roundRatio (f : BinaryFormat) (num den : Nat) : Option Magnitude :=
  if num = 0 then some ⟨0,f.least⟩
  else
    let e := lastPlace f num den
    let (n,d) := shiftRatio num den e
    let m := carry f (nearestEven n d) e
    if m.exponent ≤ f.greatest then some m else none

namespace Magnitude

def ratio (m : Magnitude) : Nat × Nat :=
  shiftRatio m.significand 1 (-m.exponent)

def round (f : BinaryFormat) (m : Magnitude) : Option Magnitude :=
  let (n,d) := m.ratio
  roundRatio f n d

def mul (f : BinaryFormat) (a b : Magnitude) : Option Magnitude :=
  round f ⟨a.significand * b.significand,a.exponent + b.exponent⟩

def div (f : BinaryFormat) (a b : Magnitude) : Option Magnitude :=
  let (an,ad) := a.ratio
  let (bn,bd) := b.ratio
  roundRatio f (an * bd) (ad * bn)

def floor (m : Magnitude) : Nat :=
  let (n,d) := m.ratio
  n / d

end Magnitude

end Sensitivity.Numeric
