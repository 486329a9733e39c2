import Sensitivity.Scalar

/-! Scalar bounds: a lower and an upper end, the ends taken as they are. -/
namespace Sensitivity

/-- All values from `lower` to `upper`. -/
structure Bound (α : Type) where
  lower : α
  upper : α
deriving DecidableEq

namespace Bound

variable {α : Type} [Scalar α]

def point (v : α) : Bound α := ⟨v,v⟩

instance : Zero (Bound α) := ⟨point 0⟩
instance : Inhabited (Bound α) := ⟨0⟩

def push (b : Bound α) (v : α) : Bound α := ⟨min b.lower v,max b.upper v⟩

def hull? : List α → Option (Bound α)
  | [] => none
  | v :: rest => some (rest.foldl push (point v))

abbrev Contains (b : Bound α) (v : α) : Prop := b.lower ≤ v ∧ v ≤ b.upper

abbrev ContainsZero (b : Bound α) : Prop := b.Contains 0

def width (b : Bound α) : α := b.upper - b.lower

abbrev IsDegenerate (b : Bound α) : Prop := Scalar.Same b.lower b.upper

def maxAbs (b : Bound α) : α := max (Scalar.magnitude b.lower) (Scalar.magnitude b.upper)

def add (a b : Bound α) : Bound α := ⟨a.lower + b.lower,a.upper + b.upper⟩

def sub (a b : Bound α) : Bound α := ⟨a.lower - b.upper,a.upper - b.lower⟩

def neg (b : Bound α) : Bound α := ⟨-b.upper,-b.lower⟩

def corners (ll lu ul uu : α) : Bound α :=
  ⟨min (min ll lu) (min ul uu),max (max ll lu) (max ul uu)⟩

def mul (a b : Bound α) : Bound α :=
  corners (a.lower * b.lower) (a.lower * b.upper) (a.upper * b.lower) (a.upper * b.upper)

def div (a b : Bound α) : Bound α :=
  corners (a.lower / b.lower) (a.lower / b.upper) (a.upper / b.lower) (a.upper / b.upper)

def scale (b : Bound α) (s : α) : Bound α :=
  ⟨min (b.lower * s) (b.upper * s),max (b.lower * s) (b.upper * s)⟩

def union (a b : Bound α) : Bound α := ⟨min a.lower b.lower,max a.upper b.upper⟩

def hullWithZero (b : Bound α) : Bound α := ⟨min b.lower 0,max b.upper 0⟩

/-- Squares; the least of them is zero when the bound straddles zero. -/
def square (b : Bound α) : Bound α :=
  let ll := b.lower * b.lower
  let uu := b.upper * b.upper
  if b.ContainsZero then ⟨0,max ll uu⟩ else ⟨min ll uu,max ll uu⟩

def abs (b : Bound α) : Bound α :=
  if 0 < b.lower then b
  else if b.upper < 0 then ⟨-b.upper,-b.lower⟩
  else ⟨0,max (-b.lower) b.upper⟩

/-- A non-zero whole power; a negative one is meant for bounds without zero. -/
def ipow (b : Bound α) (n : Int) : Bound α :=
  let le := Scalar.ipow b.lower n
  let ue := Scalar.ipow b.upper n
  if n % 2 = 0 then
    if 0 < n ∧ b.ContainsZero then ⟨0,max le ue⟩ else ⟨min le ue,max le ue⟩
  else if 0 < n then ⟨le,ue⟩ else ⟨ue,le⟩

/-- A power of a non-negative bound: increasing for a positive exponent, else decreasing. -/
def rpow (b : Bound α) (e : α) : Bound α :=
  let le := Scalar.rpow b.lower e
  let ue := Scalar.rpow b.upper e
  if 0 < e then ⟨le,ue⟩ else ⟨ue,le⟩

/-- Swaps ends that rounding left inverted. -/
def ordered (b : Bound α) : Bound α := if b.upper < b.lower then ⟨b.upper,b.lower⟩ else b

abbrev Same (a b : Bound α) : Prop := Scalar.Same a.lower b.lower ∧ Scalar.Same a.upper b.upper

end Bound
end Sensitivity
