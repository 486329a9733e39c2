import Sensitivity.Interval.Basic
import Sensitivity.Interval.Strides

/-! Intervals with the distances between their cells in memory. Each operation says how its
result lies in memory; what is not named here writes its result anew, in row-major order. -/
namespace Sensitivity

/-- An interval and how its cells lie in memory. -/
structure Stored (α : Type) where
  value : Interval α
  strides : Strides

namespace Stored

variable {α : Type} [Scalar α]

def fresh (x : Interval α) : Stored α := ⟨x,.rowMajor x.shape⟩

/-- An operation that goes through memory and keeps the distances. -/
def inPlace (f : Interval α → Interval α) (x : Stored α) : Stored α := ⟨f x.value,x.strides⟩

def cellwise (f : Interval α → Interval α → Except (Error α) (Interval α)) (x y : Stored α) :
    Except (Error α) (Stored α) := do
  let v ← f x.value y.value
  return ⟨v,x.strides.join y.strides v.shape⟩

def neg (x : Stored α) : Stored α := x.inPlace Interval.neg

def exp (x : Stored α) : Stored α := x.inPlace Interval.exp

def hullWithZero (x : Stored α) : Stored α := x.inPlace Interval.hullWithZero

def ordered (x : Stored α) : Stored α := x.inPlace Interval.ordered

def scale (x : Stored α) (s : α) : Stored α := x.inPlace (Interval.scale · s)

def supScalar (x : Stored α) (s : α) : Stored α := x.inPlace (Interval.supScalar · s)

def reciprocal (x : Stored α) : Except (Error α) (Stored α) := do
  return ⟨← x.value.reciprocal,x.strides⟩

def add (x y : Stored α) : Except (Error α) (Stored α) := cellwise Interval.add x y

def sub (x y : Stored α) : Except (Error α) (Stored α) := cellwise Interval.sub x y

def sup (x y : Stored α) : Except (Error α) (Stored α) := cellwise Interval.sup x y

def addTensor (x : Stored α) (v : Tensor α) : Except (Error α) (Stored α) := do
  let y ← x.value.addTensor v
  return ⟨y,x.strides.join (.rowMajor y.shape) y.shape⟩

def concat (parts : List (Stored α)) (axis : Nat) : Except (Error α) (Stored α) := do
  let v ← Tensor.concat (parts.map Stored.value) axis
  return ⟨v,.sideBySide v.shape axis⟩

def slice (x : Stored α) (axis start stop : Nat) : Except (Error α) (Stored α) := do
  let v ← x.value.slice axis start stop
  return ⟨v,x.strides.slice v.shape axis⟩

def index (x : Stored α) (axis j : Nat) : Except (Error α) (Stored α) := do
  let v ← x.value.index axis j
  return ⟨v,x.strides.index v.shape axis⟩

/-- All axes in reverse; the cells stay where they are. -/
def transpose (x : Stored α) : Stored α := ⟨x.value.transpose,x.strides.reverse⟩

/-- The sum of bounds that lie next to each other, end by end. -/
def laneSum (line : List (Bound α)) : Bound α :=
  ⟨Scalar.laneSum (line.map Bound.lower),Scalar.laneSum (line.map Bound.upper)⟩

/-- A bound on the sum of all cells, in the order of memory. -/
def sumAll (x : Stored α) : Bound α :=
  laneSum ((x.strides.walk x.value.shape).map x.value.read)

/-- The sum along an axis, which is removed: lane by lane if the axis has the closest
neighbours, or else one part after the other. -/
def sumAxis (x : Stored α) (axis : Nat) : Except (Error α) (Stored α) := do
  x.value.checkAxis axis
  let n := x.value.extent axis
  let k := Tensor.inner x.value.shape axis
  let line (i : Nat) : List (Bound α) :=
    (List.range n).map fun j => x.value.read (Tensor.axisPosition n k (i / k) j (i % k))
  let rest := x.value.shape.eraseIdx axis
  if x.strides.Closest axis then
    return ⟨Tensor.ofFn rest fun i => laneSum (line i),
      .pulled (Strides.pull (x.strides.eraseIdx axis) rest) rest⟩
  else return fresh (Tensor.ofFn rest fun i => (line i).foldl Bound.add 0)

end Stored
end Sensitivity
