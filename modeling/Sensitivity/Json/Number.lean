import Sensitivity.Json.Basic
import Sensitivity.Numeric.Text

/-! The values of numbers. A number without point and exponent is whole if it fits
64 bits. Every other one goes through 64-bit floats: as many leading digits as
fit 64 bits, times or divided by a power of ten. -/
namespace Sensitivity.Json

open Numeric

/-- The parts of a number: its sign, the digits before and after the point, and the
exponent with its sign, where there is one. -/
structure Numeral where
  negative : Bool
  whole : List Nat
  fraction : Option (List Nat)
  exponent : Option (Bool × List Nat)

inductive Value where
  | unsigned (n : Nat)
  | negative (n : Nat)
  | real (negative : Bool) (size : Magnitude)
deriving DecidableEq

def digitValues (cs : List Char) : List Nat := cs.map fun c => c.toNat - '0'.toNat

namespace Numeral

def ofLexeme (lexeme : List Char) : Numeral :=
  let negative := lexeme.head? = some '-'
  let cs := if negative then lexeme.drop 1 else lexeme
  let whole := cs.takeWhile Char.isDigit
  let cs := cs.dropWhile Char.isDigit
  let hasPoint := cs.head? = some '.'
  let fraction := (cs.drop 1).takeWhile Char.isDigit
  let cs := if hasPoint then (cs.drop 1).dropWhile Char.isDigit else cs
  { negative
    whole := digitValues whole
    fraction := if hasPoint then some (digitValues fraction) else none
    exponent := match cs with
      | [] => none
      | _ :: '-' :: digits => some (true,digitValues digits)
      | _ :: '+' :: digits => some (false,digitValues digits)
      | _ :: digits => some (false,digitValues digits) }

/-- Appends digits to a significand as long as it fits 64 bits. Gives the significand and
the number of digits that no longer fitted. -/
def absorb (significand : Nat) : List Nat → Nat × Nat
  | [] => (significand,0)
  | d :: digits =>
    if significand * 10 + d < 2 ^ (64 : Nat) then absorb (significand * 10 + d) digits
    else (significand,digits.length + 1)

def spelled (digits : List Nat) : Nat := digits.foldl (fun n d => n * 10 + d) 0

/-- The largest power of ten that a step multiplies or divides by. -/
def stepLimit : Nat := 308

def tenPower (e : Nat) : Option Magnitude := roundRatio binary64 (10 ^ e) 1

/-- Divides by a power of ten in steps. After three full steps every 64-bit significand
has become zero. -/
def divideSteps : Nat → Magnitude → Nat → Option Magnitude
  | 0, m, _ => some m
  | fuel + 1, m, e =>
    if e ≤ stepLimit then do Magnitude.div binary64 m (← tenPower e)
    else if m.significand = 0 then some m
    else do divideSteps fuel (← Magnitude.div binary64 m (← tenPower stepLimit)) (e - stepLimit)

/-- A 64-bit significand times a power of ten, unless the result is too large. -/
def scaled (significand : Nat) (e : Int) : Option Magnitude := do
  let m ← roundRatio binary64 significand 1
  if e < 0 then divideSteps 4 m e.natAbs
  else if e.toNat ≤ stepLimit then Magnitude.mul binary64 m (← tenPower e.toNat)
  else if significand = 0 then some m
  else none

/-- The value of a number, unless it is too large for 64-bit floats. -/
def value? (n : Numeral) : Option Value := do
  let (significand,dropped) := absorb 0 n.whole
  match n.fraction, n.exponent with
  | none, none =>
    if dropped ≠ 0 then return .real n.negative (← scaled significand dropped)
    else if !n.negative then return .unsigned significand
    else if significand = 0 ∨ 2 ^ (63 : Nat) < significand then
      return .real true (← scaled significand 0)
    else return .negative significand
  | fraction, exponent =>
    let digits := fraction.getD []
    let (significand,lost) := absorb significand digits
    let e : Int := (dropped : Int) - (digits.length - lost : Nat)
    match exponent with
    | none => return .real n.negative (← scaled significand e)
    | some (below,power) =>
      let p := spelled power
      if p < 2 ^ (31 : Nat) then
        return .real n.negative (← scaled significand (if below then e - p else e + p))
      else if significand = 0 ∨ below then return .real n.negative ⟨0,binary64.least⟩
      else none

end Numeral

namespace Value

/-- The nearest 32-bit float; beyond the largest one it is an infinity. -/
def toSingle : Value → Single
  | .unsigned n => Single.ofRatio false n 1
  | .negative n => Single.ofRatio true n 1
  | .real sign size => Single.ofSize sign (size.round binary32)

def toInt? : Value → Option Int
  | .unsigned n => if n < 2 ^ (63 : Nat) then some n else none
  | .negative n => some (-n)
  | .real _ _ => none

def toNat? : Value → Option Nat
  | .unsigned n => some n
  | _ => none

end Value

def numberValue? (lexeme : List Char) : Option Value := (Numeral.ofLexeme lexeme).value?

/-- A float as it is written in documents; what is not finite is written as null. -/
def ofSingle (x : Single) : Json :=
  if x.isFinite then .number (documentStyle.text x).toList else .null

end Sensitivity.Json
