import Sensitivity.Numeral

/-! The number type that bounds are computed in. Every rule of the library is
written once over `Scalar`; it runs at 32-bit floats, whose order has an
incomparable NaN, and is reasoned about at any other instance. -/
namespace Sensitivity

/-- Arithmetic, order and elementary functions, with nothing assumed about rounding. -/
class Scalar (α : Type) extends Zero α, One α, Add α, Sub α, Mul α, Div α, Neg α,
    NatCast α, IntCast α, LE α, LT α, Min α, Max α where
  decidableLE : DecidableLE α
  decidableLT : DecidableLT α
  magnitude : α → α
  exp : α → α
  sqrt : α → α
  rpow : α → α → α
  truncate : α → Int
  isFinite : α → Bool
  /-- The greatest of no numbers. -/
  bottom : α
  /-- The least of no numbers. -/
  top : α

-- A number type keeps the division that it has already.
attribute [instance (low)] Scalar.toDiv

namespace Scalar

variable {α : Type} [Scalar α]

instance : DecidableLE α := Scalar.decidableLE
instance : DecidableLT α := Scalar.decidableLT
instance (priority := high) : Inhabited α := ⟨0⟩

/-- Equal in value, which no NaN is to itself and the two zeros are. -/
abbrev Same (a b : α) : Prop := a ≤ b ∧ b ≤ a

abbrev IsNumber (a : α) : Prop := a ≤ a

def isInfinite (a : α) : Bool := decide (IsNumber a) && !isFinite a

def greatest (xs : List α) : α :=
  match xs.filter (fun x => IsNumber x) with
  | [] => bottom
  | x :: rest => rest.foldl max x

def least (xs : List α) : α :=
  match xs.filter (fun x => IsNumber x) with
  | [] => top
  | x :: rest => rest.foldl min x

/-- Square-and-multiply: the product of `acc` with the `n`-th power of `base`. -/
def powerLoop (acc base : α) (n : Nat) : α :=
  let acc' := if n % 2 = 1 then acc * base else acc
  if n / 2 = 0 then acc' else powerLoop acc' (base * base) (n / 2)
termination_by n
decreasing_by omega

def ipow (base : α) (n : Int) : α :=
  let p := powerLoop 1 base n.natAbs
  if n < 0 then 1 / p else p

def exponentLimit : Nat := 2 ^ (31 : Nat) - 1

/-- The whole number that an exponent stands for, if it is one of at most `2 ^ 31` in size.
The single value above the limit is read as the limit. -/
def whole? (e : α) : Option Int :=
  if magnitude e ≤ ((exponentLimit + 1 : Nat) : α) ∧ Same ((truncate e : Int) : α) e then
    some (min (truncate e) exponentLimit)
  else none

/-- The sum of consecutive values in eight interleaved lanes, joined pairwise,
the values beyond the last full group of eight added one by one. -/
def laneSum (xs : List α) : α :=
  let full := xs.length / 8 * 8
  let lane (k : Nat) : α :=
    (List.range (full / 8)).foldl (fun s g => s + xs.getD (8 * g + k) 0) 0
  let joined := (((0 + (lane 0 + lane 4)) + (lane 1 + lane 5)) + (lane 2 + lane 6)) +
    (lane 3 + lane 7)
  (xs.drop full).foldl (· + ·) joined

end Scalar
end Sensitivity
