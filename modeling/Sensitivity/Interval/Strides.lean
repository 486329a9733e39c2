import Sensitivity.Tensor

/-! How the cells of a tensor lie in memory. Rounding makes a sum depend on the order of its
terms, and sums meet the cells as they lie in memory. -/
namespace Sensitivity

/-- For each axis, how far apart in memory its neighbours lie. -/
abbrev Strides := List Nat

namespace Strides

/-- The last axis varies fastest; without cells there are no distances. -/
def rowMajor (shape : List Nat) : Strides :=
  if 0 ∈ shape then shape.map fun _ => 0 else (List.range shape.length).map (Tensor.inner shape)

def columnMajor (shape : List Nat) : Strides := (rowMajor shape.reverse).reverse

/-- The axes from the widest distance to the closest one, equal ones in their order. -/
def widestFirst (s : Strides) : List Nat :=
  (List.range s.length).mergeSort fun a b => s.getD b 0 ≤ s.getD a 0

/-- The row-major positions of the cells met when the last of the axes varies fastest, counted
from `start`. -/
def positions (shape : List Nat) : List Nat → Nat → List Nat
  | [], start => [start]
  | a :: axes, start =>
    (List.range (shape.getD a 0)).flatMap fun j =>
      positions shape axes (start + j * Tensor.inner shape a)

/-- The row-major positions of the cells in the order of memory. -/
def walk (s : Strides) (shape : List Nat) : List Nat :=
  if 0 ∈ shape then [] else positions shape s.widestFirst 0

theorem range_mul (a b : Nat) :
    List.range (a * b) = (List.range a).flatMap fun j => (List.range b).map (j * b + ·) := by
  induction a with
  | zero => simp
  | succ a ih =>
    rw [Nat.succ_mul,List.range_add,ih,List.range_succ]
    simp [List.flatMap_append]

/-- Where the last axes vary as they are counted, their cells follow each other. -/
theorem positions_range' (shape : List Nat) (n : Nat) : ∀ (k start : Nat),
    k + n = shape.length → positions shape (List.range' k n) start =
      (List.range (shape.drop k).prod).map (start + ·) := by
  induction n with
  | zero =>
    intro k start h
    have hd : shape.drop k = [] := List.drop_of_length_le (by omega)
    simp [positions,hd]
  | succ n ih =>
    intro k start h
    have hk : k < shape.length := by omega
    rw [List.range'_succ,positions,List.drop_eq_getElem_cons hk,List.prod_cons,range_mul,
      List.map_flatMap]
    have hget : shape.getD k 0 = shape[k] := by simp [List.getD,hk]
    rw [hget]
    congr 1
    funext j
    rw [ih (k + 1) _ (by omega),List.map_map]
    simp only [Tensor.inner]
    congr 1
    funext i
    simp [Nat.add_assoc]

theorem prod_shape_eq_zero_iff (shape : List Nat) : shape.prod = 0 ↔ 0 ∈ shape := by
  induction shape with
  | nil => simp
  | cons n shape ih => rw [List.prod_cons,Nat.mul_eq_zero,ih,List.mem_cons,eq_comm]

theorem inner_antitone (shape : List Nat) (h : 0 ∉ shape) (a b : Nat) (hab : a ≤ b) :
    Tensor.inner shape b ≤ Tensor.inner shape a := by
  have hsplit : shape.drop (a + 1) = (shape.drop (a + 1)).take (b - a) ++ shape.drop (b + 1) := by
    have hdrop : shape.drop (b + 1) = (shape.drop (a + 1)).drop (b - a) := by
      rw [List.drop_drop]
      congr 1
      omega
    rw [hdrop,List.take_append_drop]
  rw [Tensor.inner,Tensor.inner,hsplit,List.prod_append]
  apply Nat.le_mul_of_pos_left
  rw [Nat.pos_iff_ne_zero]
  intro h0
  rw [prod_shape_eq_zero_iff] at h0
  exact h (List.mem_of_mem_drop (List.mem_of_mem_take h0))

theorem widestFirst_rowMajor (shape : List Nat) (h : 0 ∉ shape) :
    (rowMajor shape).widestFirst = List.range shape.length := by
  have hlen : (rowMajor shape).length = shape.length := by simp [rowMajor,h]
  rw [widestFirst,hlen]
  apply List.mergeSort_of_pairwise
  rw [List.pairwise_iff_getElem]
  intro i j hi hj hij
  simp only [List.length_range] at hi hj
  simp [rowMajor,h,List.getD,hi,hj,inner_antitone shape h i j (by omega)]

/-- In row-major order the cells lie in memory as they are counted. -/
theorem walk_rowMajor (shape : List Nat) : (rowMajor shape).walk shape = List.range shape.prod := by
  unfold walk
  split
  next h => simp [(prod_shape_eq_zero_iff shape).mpr h]
  next h =>
    rw [widestFirst_rowMajor shape h,List.range_eq_range',
      positions_range' shape shape.length 0 0 (by omega)]
    simp

/-- The cells lie in memory as in row-major order; an axis of one cell may have any distance. -/
def LikeRows (s : Strides) (shape : List Nat) : Prop :=
  0 ∈ shape ∨ ∀ a < shape.length, shape.getD a 0 = 1 ∨ s.getD a 0 = Tensor.inner shape a

def LikeColumns (s : Strides) (shape : List Nat) : Prop := LikeRows s.reverse shape.reverse

instance (s : Strides) (shape : List Nat) : Decidable (s.LikeRows shape) :=
  inferInstanceAs (Decidable (_ ∨ _))

instance (s : Strides) (shape : List Nat) : Decidable (s.LikeColumns shape) :=
  inferInstanceAs (Decidable (LikeRows _ _))

/-- How strongly an operand pulls a result to row-major order, or below zero to column-major
order: by its own order, or else by an outer axis of neighbours side by side. -/
def pull (s : Strides) (shape : List Nat) : Int :=
  let beside (a : Nat) : Bool := 1 < shape.getD a 0 ∧ s.getD a 0 = 1
  if s.LikeRows shape then
    if s.LikeColumns shape then 0 else 2
  else if s.LikeColumns shape then -2
  else if beside 0 then -1
  else if beside (shape.length - 1) then 1
  else 0

def pulled (pull : Int) (shape : List Nat) : Strides :=
  if pull < 0 then columnMajor shape else rowMajor shape

def join (s t : Strides) (shape : List Nat) : Strides :=
  pulled (s.pull shape + t.pull shape) shape

def sideBySide (shape : List Nat) (axis : Nat) : Strides :=
  if axis + 1 = shape.length then columnMajor shape
  else
    let moved := rowMajor (shape.getD axis 0 :: shape.eraseIdx axis)
    moved.tail.insertIdx axis (moved.headD 0)

/-- Whether the cells along axes, the closest ones first, follow each other without a gap if
`block` cells do. -/
def NoGap (s : Strides) (shape : List Nat) : List Nat → Nat → Prop
  | [], _ => True
  | a :: axes, block =>
    (shape.getD a 0 = 1 ∨ s.getD a 0 = block) ∧ NoGap s shape axes (block * shape.getD a 0)

instance decidableNoGap (s : Strides) (shape : List Nat) :
    ∀ axes block, Decidable (s.NoGap shape axes block)
  | [], _ => .isTrue trivial
  | a :: axes, block =>
    have := decidableNoGap s shape axes (block * shape.getD a 0)
    inferInstanceAs (Decidable (_ ∧ _))

/-- A copied part in one piece keeps its distances; any other one is row-major. -/
def copied (s : Strides) (shape : List Nat) : Strides :=
  if s.NoGap shape s.widestFirst.reverse 1 then s else rowMajor shape

def slice (s : Strides) (shape : List Nat) (axis : Nat) : Strides :=
  copied (if shape.getD axis 0 ≤ 1 then s.set axis 0 else s) shape

def index (s : Strides) (shape : List Nat) (axis : Nat) : Strides :=
  copied (s.eraseIdx axis) shape

/-- Whether an axis has the closest neighbours, and of several ones is the last. -/
def Closest (s : Strides) (axis : Nat) : Prop := s.widestFirst.getLast? = some axis

instance (s : Strides) (axis : Nat) : Decidable (s.Closest axis) :=
  inferInstanceAs (Decidable (_ = _))

end Strides
end Sensitivity
