import Sensitivity.Single

/-! Reading a float from a text, with one correct rounding. -/
namespace Sensitivity.Numeric

def digitsValue (cs : List Char) : Nat := cs.foldl (fun n c => n * 10 + (c.toNat - '0'.toNat)) 0

/-- The float nearest to `digits * 10 ^ exponent`. Far outside the range of floats the
power is not computed. -/
def ofDecimal (negative : Bool) (digits : Nat) (exponent : Int) : Single :=
  let leading : Int := exponent + ((Nat.toDigits 10 digits).length : Int)
  if digits = 0 ∨ leading < -60 then Single.ofBody negative 0
  else if 60 < leading then Single.ofBody negative Single.infinityBody
  else if 0 ≤ exponent then Single.ofRatio negative (digits * 10 ^ exponent.toNat) 1
  else Single.ofRatio negative digits (10 ^ exponent.natAbs)

def exponentValue? (cs : List Char) : Option Int :=
  let (below,digits) := match cs with
    | '-' :: rest => (true,rest)
    | '+' :: rest => (false,rest)
    | rest => (false,rest)
  if digits ≠ [] ∧ digits.all Char.isDigit then
    some (if below then -(digitsValue digits : Int) else digitsValue digits)
  else none

/-- A number without sign: digits with an optional point, of which one side may be empty,
and an optional exponent. -/
def unsigned? (negative : Bool) (cs : List Char) : Option Single :=
  let whole := cs.takeWhile Char.isDigit
  let rest := cs.dropWhile Char.isDigit
  let (fraction,rest) := match rest with
    | '.' :: more => (more.takeWhile Char.isDigit,more.dropWhile Char.isDigit)
    | _ => ([],rest)
  let exponent? := match rest with
    | [] => some 0
    | c :: more => if c = 'e' ∨ c = 'E' then exponentValue? more else none
  if whole = [] ∧ fraction = [] then none
  else exponent?.map fun e =>
    ofDecimal negative (digitsValue (whole ++ fraction)) (e - fraction.length)

def single? (text : String) : Option Single :=
  let (negative,cs) := match text.toList with
    | '-' :: rest => (true,rest)
    | '+' :: rest => (false,rest)
    | rest => (false,rest)
  let name := String.ofList (cs.map Char.toLower)
  if name = "inf" ∨ name = "infinity" then some (Single.ofBody negative Single.infinityBody)
  else if name = "nan" then some (if negative then Single.nan.neg else Single.nan)
  else unsigned? negative cs

end Sensitivity.Numeric
