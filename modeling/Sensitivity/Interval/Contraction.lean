import Sensitivity.Interval.Basic

/-! Products of interval tensors with exact matrices. Each weight is split by
sign: its positive part meets the same end of the cell, its negative part the
opposite one. -/
namespace Sensitivity.Interval

variable {α : Type} [Scalar α]

def dotSum (n : Nat) (f g : Nat → α) : α :=
  (List.range n).foldl (fun s k => s + f k * g k) 0

/-- The bound on `∑ x k * w k`, as two sign-split sums for each end. -/
def signSplit (n : Nat) (x : Nat → Bound α) (w : Nat → α) : Bound α :=
  let l k := (x k).lower
  let u k := (x k).upper
  let positive k := max (w k) 0
  let negative k := min (w k) 0
  ⟨dotSum n l positive + dotSum n u negative,dotSum n u positive + dotSum n l negative⟩

def signSplitProduct (x : Nat → Nat → Bound α) (w : Nat → Nat → α) (rows k columns : Nat) :
    Interval α :=
  Tensor.ofFn [rows,columns] fun i => signSplit k (x (i / columns)) (w · (i % columns))

/-- A matrix product of rank-2 tensors, without putting the ends in order. -/
def matrixProduct (x : Interval α) (w : Tensor α) : Interval α :=
  let rows := x.extent 0
  let k := x.extent 1
  let columns := w.extent 1
  signSplitProduct (fun r j => x.read (r * k + j)) (fun j c => w.read (j * columns + c))
    rows k columns

/-- Contracts the last axis against the vector or the rows of a matrix. -/
def contract (x : Interval α) (w : Tensor α) : Except (Error α) (Interval α) :=
  match x.shape.getLast? with
  | none => .error (.shapeMismatch [w.shape.head?.getD 0] [])
  | some k =>
    let against (height columns : Nat) (tail : List Nat) : Except (Error α) (Interval α) :=
      if height = k then
        let rows := x.size / max k 1
        let product := signSplitProduct (fun r j => x.read (r * k + j))
          (fun j c => w.read (j * columns + c)) rows k columns
        product.ordered.reshape (x.shape.dropLast ++ tail)
      else .error (.shapeMismatch [k] [height])
    match w.shape with
    | [n] => against n 1 []
    | [n,columns] => against n columns [columns]
    | shape => .error (.badConfig (.contractionRank shape.length))

end Sensitivity.Interval
