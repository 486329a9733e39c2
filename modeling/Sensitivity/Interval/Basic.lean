import Sensitivity.Bound
import Sensitivity.Tensor

/-! Interval tensors: tensors whose cells are bounds, with the cell-wise rules
of arithmetic. -/
namespace Sensitivity

/-- A tensor of bounds. -/
abbrev Interval (α : Type) := Tensor (Bound α)

namespace Interval

variable {α : Type} [Scalar α]

def lower (x : Interval α) : Tensor α := x.map Bound.lower

def upper (x : Interval α) : Tensor α := x.map Bound.upper

/-- Pairs a lower and an upper tensor of one shape, taken as they are. -/
def ofEnds (lower upper : Tensor α) : Except (Error α) (Interval α) :=
  Tensor.zip Bound.mk lower upper

abbrev HasNaN (b : Bound α) : Prop := ¬ (Scalar.IsNumber b.lower ∧ Scalar.IsNumber b.upper)

/-- Refuses NaN ends first, then inverted ones. -/
def checkOrder (x : Interval α) : Except (Error α) (Interval α) :=
  let nan := x.toList.countP fun b => HasNaN b
  let inverted := x.toList.countP fun b => b.upper < b.lower
  if 0 < nan then .error (.badInterval (.nan nan))
  else if 0 < inverted then .error (.badInterval (.inverted inverted))
  else .ok x

def new (lower upper : Tensor α) : Except (Error α) (Interval α) := do
  checkOrder (← ofEnds lower upper)

def concrete (values : Tensor α) : Interval α := values.map Bound.point

def uniform (shape : List Nat) (b : Bound α) : Except (Error α) (Interval α) :=
  checkOrder (Tensor.fill shape b)

def zeros (shape : List Nat) : Interval α := Tensor.fill shape 0

/-- The exact identity matrix: one unit row per output. -/
def identity (n : Nat) : Interval α :=
  Tensor.ofFn [n,n] fun i => if i / n = i % n then Bound.point 1 else 0

def add (x y : Interval α) : Except (Error α) (Interval α) := Tensor.zip Bound.add x y

def sub (x y : Interval α) : Except (Error α) (Interval α) := Tensor.zip Bound.sub x y

def mul (x y : Interval α) : Except (Error α) (Interval α) := Tensor.zip Bound.mul x y

def addTensor (x : Interval α) (v : Tensor α) : Except (Error α) (Interval α) :=
  Tensor.zip (fun b s => ⟨b.lower + s,b.upper + s⟩) x v

def mulTensor (x : Interval α) (v : Tensor α) : Except (Error α) (Interval α) :=
  Tensor.zip Bound.scale x v

def neg (x : Interval α) : Interval α := x.map Bound.neg

def scale (x : Interval α) (s : α) : Interval α :=
  x.map fun b => if 0 ≤ s then ⟨b.lower * s,b.upper * s⟩ else ⟨b.upper * s,b.lower * s⟩

def zeroCount (x : Interval α) : Nat := x.toList.countP fun b => b.ContainsZero

def reciprocal (x : Interval α) : Except (Error α) (Interval α) :=
  if 0 < x.zeroCount then .error (.outsideDomain (.reciprocal x.zeroCount))
  else .ok (x.map fun b => ⟨1 / b.upper,1 / b.lower⟩)

def div (x y : Interval α) : Except (Error α) (Interval α) :=
  if x.shape ≠ y.shape then .error (.shapeMismatch x.shape y.shape)
  else if 0 < y.zeroCount then .error (.outsideDomain (.division y.zeroCount))
  else Tensor.zip Bound.div x y

def square (x : Interval α) : Interval α := x.map Bound.square

def abs (x : Interval α) : Interval α := x.map Bound.abs

def exp (x : Interval α) : Interval α :=
  x.map fun b => ⟨Scalar.exp b.lower,Scalar.exp b.upper⟩

def sup (x y : Interval α) : Except (Error α) (Interval α) :=
  Tensor.zip (fun a b => ⟨max a.lower b.lower,max a.upper b.upper⟩) x y

def supScalar (x : Interval α) (s : α) : Interval α :=
  x.map fun b => ⟨max b.lower s,max b.upper s⟩

def hullWithZero (x : Interval α) : Interval α := x.map Bound.hullWithZero

def ordered (x : Interval α) : Interval α := x.map Bound.ordered

def width (x : Interval α) : Tensor α := x.map Bound.width

def maxWidth (x : Interval α) : α := x.toList.foldl (fun acc b => max acc b.width) 0

def isDegenerate (x : Interval α) : Bool := x.toList.all fun b => b.IsDegenerate

def hasNonFinite (x : Interval α) : Bool :=
  x.toList.any fun b => !(Scalar.isFinite b.lower && Scalar.isFinite b.upper)

def hasNaN (x : Interval α) : Bool := x.toList.any fun b => HasNaN b

def hasInfinite (x : Interval α) : Bool :=
  x.toList.any fun b => Scalar.isInfinite b.lower || Scalar.isInfinite b.upper

/-- Every value lies in its cell widened by a slack. -/
def containsWithin (x : Interval α) (v : Tensor α) (slack : α) : Bool :=
  v.shape == x.shape &&
    (v.toList.zip x.toList).all fun (s,b) => b.lower - slack ≤ s ∧ s ≤ b.upper + slack

def contains (x : Interval α) (v : Tensor α) : Bool := x.containsWithin v 0

/-- Equal shapes, and cells with ends equal in value. -/
def same (x y : Interval α) : Bool :=
  x.shape == y.shape && (x.toList.zip y.toList).all fun (a,b) => a.Same b

end Interval
end Sensitivity
