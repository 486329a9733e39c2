import Sensitivity.Numeric.Decimal
import Sensitivity.Single

/-! Texts of numbers. A `NumberStyle` fixes where positional notation ends and
how an exponent, a whole number and the special values are spelled. -/
namespace Sensitivity.Numeric

/-- How a float is written. -/
structure NumberStyle where
  tie : Tie
  /-- The range of leading exponents written positionally; `none` is all of them. -/
  positional : Option (Int × Int)
  /-- Whether a whole number ends in `.0`. -/
  wholePoint : Bool
  plus : Bool

def pointAfter (digits : List Char) (whole : Nat) : List Char :=
  digits.take whole ++ '.' :: digits.drop whole

def positionalText (wholePoint : Bool) (d : Decimal) : List Char :=
  let digits := Nat.toDigits 10 d.digits
  if 0 ≤ d.exponent then
    digits ++ List.replicate d.exponent.toNat '0' ++ (if wholePoint then ['.','0'] else [])
  else
    let after := (-d.exponent).toNat
    if after < digits.length then pointAfter digits (digits.length - after)
    else '0' :: '.' :: (List.replicate (after - digits.length) '0' ++ digits)

def exponentText (plus : Bool) (d : Decimal) : List Char :=
  let digits := Nat.toDigits 10 d.digits
  let e := d.leading
  let significand := if digits.length ≤ 1 then digits else pointAfter digits 1
  let sign := if e < 0 then ['-'] else if plus then ['+'] else []
  significand ++ 'e' :: (sign ++ Nat.toDigits 10 e.natAbs)

namespace NumberStyle

def decimalText (style : NumberStyle) (d : Decimal) : List Char :=
  let inside : Bool := match style.positional with
    | none => true
    | some (low,high) => decide (low ≤ d.leading ∧ d.leading ≤ high)
  if d.digits = 0 ∨ inside then positionalText style.wholePoint d
  else exponentText style.plus d

def shortestOf (style : NumberStyle) (x : Single) : Decimal :=
  if x.size.significand = 0 then ⟨0,0⟩ else shortest binary32 style.tie 9 x.size

/-- The text of a float: sign and shortest digits, or the name of a special value. -/
def text (style : NumberStyle) (x : Single) : String :=
  if x.isNaN then "NaN"
  else
    let body := if x.isFinite then style.decimalText (style.shortestOf x) else ['i','n','f']
    String.ofList (if x.negative then '-' :: body else body)

end NumberStyle

/-- Numbers inside messages: never an exponent, whole numbers without a point. -/
def messageStyle : NumberStyle := ⟨.up,none,false,false⟩

/-- Numbers inside quoted attribute values: a point is kept, tiny and huge ones have an exponent. -/
def attributeStyle : NumberStyle := ⟨.up,some (-4,15),true,false⟩

def documentStyle : NumberStyle := ⟨.toEven,some (-6,12),true,true⟩

/-- One digit, three decimals and an exponent, as columns of widths are written. -/
def threeDecimals (x : Single) : String :=
  if x.isNaN then "NaN"
  else
    let body :=
      if !x.isFinite then ['i','n','f']
      else if x.size.significand = 0 then ['0','.','0','0','0','e','0']
      else
        let (num,den) := x.size.ratio
        exponentText false (Decimal.significant 4 num den)
    String.ofList (if x.negative then '-' :: body else body)

def twoPlaces (m : Magnitude) : String :=
  let (num,den) := m.ratio
  let d := Decimal.places 2 num den
  let digits := Nat.toDigits 10 d.digits
  let padded := List.replicate (3 - digits.length) '0' ++ digits
  String.ofList (pointAfter padded (padded.length - 2))

end Sensitivity.Numeric
