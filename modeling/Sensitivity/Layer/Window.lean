import Sensitivity.Interval.Basic

/-! Sliding windows along one axis, and the shape checks that layers share. -/
namespace Sensitivity

/-- Channels, height and width of an image. -/
structure ImageShape where
  channels : Nat
  height : Nat
  width : Nat
deriving DecidableEq

namespace ImageShape

def toList (s : ImageShape) : List Nat := [s.channels,s.height,s.width]

def ofShape {α : Type} (user : String) : List Nat → Except (Error α) ImageShape
  | [c,h,w] => .ok ⟨c,h,w⟩
  | shape => .error (.badConfig (.imageShape user shape))

def area (s : ImageShape) : Nat := s.height * s.width

end ImageShape

/-- All pairs below two extents, the second one running fastest. -/
def grid2 (a b : Nat) : List (Nat × Nat) :=
  (List.range a).flatMap fun i => (List.range b).map fun j => (i,j)

def grid3 (a b c : Nat) : List (Nat × Nat × Nat) :=
  (List.range a).flatMap fun i => (grid2 b c).map fun jk => (i,jk)

namespace Window

/-- Extents are kept in words of this many values, and their sums wrap around. -/
def wordCount : Nat := 2 ^ (64 : Nat)

def padded (extent padding : Nat) : Nat := (extent + 2 * padding) % wordCount

def count {α : Type} (extent window stride padding : Nat) : Except (Error α) Nat :=
  if padded extent padding < window then
    .error (.badConfig (.window window (padded extent padding)))
  else .ok (((padded extent padding - window) / stride + 1) % wordCount)

/-- The cell that window `i` reads at offset `d`, unless it is padding. -/
def source? (stride padding i d extent : Nat) : Option Nat :=
  if padding ≤ i * stride + d ∧ i * stride + d - padding < extent then
    some (i * stride + d - padding)
  else none

def offset? (stride padding i y length : Nat) : Option Nat :=
  if i * stride ≤ y + padding ∧ y + padding - i * stride < length then
    some (y + padding - i * stride)
  else none

/-- The first cell of window `i`, and the end of its cells inside the axis. -/
def cells (stride padding size i extent : Nat) : Nat × Nat :=
  (i * stride - padding,min (i * stride + size - padding) extent)

end Window

def span (range : Nat × Nat) : List Nat := List.range' range.1 (range.2 - range.1)

abbrev Bound.IsZero {α : Type} [Scalar α] (b : Bound α) : Prop :=
  Scalar.Same b.lower 0 ∧ Scalar.Same b.upper 0

namespace Interval

variable {α : Type} [Scalar α]

def expectShape (x : Interval α) (shape : List Nat) : Except (Error α) Unit :=
  if x.shape = shape then .ok () else .error (.shapeMismatch shape x.shape)

/-- The number of rows of a derivative of shape `rows :: shape`. -/
def rowCount (d : Interval α) (shape : List Nat) : Except (Error α) Nat :=
  match d.shape with
  | rows :: rest =>
    if rest = shape then .ok rows else .error (.shapeMismatch (rows :: shape) d.shape)
  | [] => .error (.shapeMismatch (1 :: shape) d.shape)

/-- An interval of `rows` images; at least one row is needed, and the extents have to fit an
allocation. -/
def ofRows (rows : Nat) (image : ImageShape) (cell : Nat → Nat → Nat → Nat → Bound α) :
    Except (Error α) (Interval α) :=
  if rows = 0 then .error (.badConfig .emptyStack)
  else
    let c := image.channels
    let h := image.height
    let w := image.width
    Tensor.allocate .hugeStack [rows,c,h,w] fun i =>
      cell (i / w / h / c) (i / w / h % c) (i / w % h) (i % w)

def ofImage (image : ImageShape) (cell : Nat → Nat → Nat → Bound α) : Interval α :=
  let h := image.height
  let w := image.width
  Tensor.ofFn image.toList fun i => cell (i / w / h) (i / w % h) (i % w)

end Interval
end Sensitivity
