import Sensitivity.Error

/-! Tensors in row-major order, and the operations that only move cells. -/
namespace Sensitivity

/-- A shape and as many cells as the product of its extents, the last axis running fastest. -/
structure Tensor (β : Type) where
  shape : List Nat
  cells : Array β
  size_cells : cells.size = shape.prod

namespace Tensor

variable {α β γ δ : Type}

theorem ext {s t : Tensor β} (hshape : s.shape = t.shape) (hcells : s.cells = t.cells) : s = t := by
  cases s; cases t; simp_all

instance [DecidableEq β] : DecidableEq (Tensor β) := fun s t =>
  if h : s.shape = t.shape ∧ s.cells = t.cells then .isTrue (ext h.1 h.2)
  else .isFalse (fun e => h (e ▸ ⟨rfl,rfl⟩))

def ofFn (shape : List Nat) (f : Nat → β) : Tensor β :=
  ⟨shape,Array.ofFn (n := shape.prod) fun i => f i,by simp⟩

@[simp] theorem shape_ofFn (shape : List Nat) (f : Nat → β) : (ofFn shape f).shape = shape := rfl

def fill (shape : List Nat) (v : β) : Tensor β :=
  ⟨shape,Array.replicate shape.prod v,by simp⟩

@[simp] theorem shape_fill (shape : List Nat) (v : β) : (fill shape v).shape = shape := rfl

def ofArray (cells : Array β) : Tensor β := ⟨[cells.size],cells,by simp⟩

def rank (t : Tensor β) : Nat := t.shape.length

def size (t : Tensor β) : Nat := t.cells.size

def toList (t : Tensor β) : List β := t.cells.toList

/-- The cell at a row-major position, or the default beyond the last one. -/
def read [Inhabited β] (t : Tensor β) (i : Nat) : β := t.cells.getD i default

theorem read_ofFn [Inhabited β] (shape : List Nat) (f : Nat → β) {i : Nat} (h : i < shape.prod) :
    (ofFn shape f).read i = f i := by
  simp [read,ofFn,Array.getD,h]

theorem read_fill [Inhabited β] (shape : List Nat) (v : β) {i : Nat} (h : i < shape.prod) :
    (fill shape v).read i = v := by
  simp [read,fill,Array.getD,h]

def position? : List Nat → List Nat → Option Nat
  | [], [] => some 0
  | n :: shape, i :: index =>
    if i < n then (position? shape index).map (i * shape.prod + ·) else none
  | _, _ => none

def get? (t : Tensor β) (index : List Nat) : Option β :=
  (position? t.shape index).bind (t.cells[·]?)

/-- The cell of an image at channel, row and column, for extents `h` and `w`. -/
def at3 [Inhabited β] (t : Tensor β) (h w c y x : Nat) : β := t.read ((c * h + y) * w + x)

/-- The cell of a batch of images, for extents `c`, `h` and `w`. -/
def at4 [Inhabited β] (t : Tensor β) (cs h w b c y x : Nat) : β :=
  t.read (((b * cs + c) * h + y) * w + x)

def map (f : β → γ) (t : Tensor β) : Tensor γ := ⟨t.shape,t.cells.map f,by simp [t.size_cells]⟩

@[simp] theorem shape_map (f : β → γ) (t : Tensor β) : (t.map f).shape = t.shape := rfl

def mapPositions (f : Nat → β → β) (t : Tensor β) : Tensor β :=
  ⟨t.shape,t.cells.mapIdx f,by simp [t.size_cells]⟩

@[simp] theorem shape_mapPositions (f : Nat → β → β) (t : Tensor β) :
    (t.mapPositions f).shape = t.shape := rfl

def zip (f : β → γ → δ) (s : Tensor β) (t : Tensor γ) : Except (Error α) (Tensor δ) :=
  if h : s.shape = t.shape then
    .ok ⟨s.shape,Array.zipWith f s.cells t.cells,by simp [s.size_cells,t.size_cells,h]⟩
  else .error (.shapeMismatch s.shape t.shape)

theorem shape_of_zip {f : β → γ → δ} {s : Tensor β} {t : Tensor γ} {r : Tensor δ}
    (h : zip f s t = (.ok r : Except (Error α) _)) : s.shape = t.shape ∧ r.shape = s.shape := by
  unfold zip at h
  split at h
  · cases h
    exact ⟨by assumption,rfl⟩
  · cases h

/-- The number of values that one allocation can hold. -/
def sizeLimit : Nat := 2 ^ (63 : Nat)

/-- Whether the extents other than zero have a product that an allocation can hold. -/
def Addressable (shape : List Nat) : Prop := (shape.filter (· ≠ 0)).prod < sizeLimit

instance (shape : List Nat) : Decidable (Addressable shape) := inferInstanceAs (Decidable (_ < _))

/-- The tensor of a shape whose cell at each position is given, or an error where its extents
are too large to be held. -/
def allocate (cause : BadConfig α) (shape : List Nat) (f : Nat → β) :
    Except (Error α) (Tensor β) :=
  if Addressable shape then .ok (ofFn shape f) else .error (.badConfig cause)

theorem allocate_eq_ok_iff (cause : BadConfig α) (shape : List Nat) (f : Nat → β) (t : Tensor β) :
    allocate cause shape f = .ok t ↔ Addressable shape ∧ t = ofFn shape f := by
  unfold allocate
  split <;> simp_all [eq_comm]

def reshape (t : Tensor β) (shape : List Nat) : Except (Error α) (Tensor β) :=
  if h : t.shape.prod = shape.prod then
    if Addressable shape then .ok ⟨shape,t.cells,by simp [t.size_cells,h]⟩
    else .error (.shapeMismatch shape t.shape)
  else .error (.shapeMismatch shape t.shape)

def flatten (t : Tensor β) : Tensor β := ofArray t.cells

def checkAxis (t : Tensor β) (axis : Nat) : Except (Error α) Unit :=
  if axis < t.rank then .ok () else .error (.badConfig (.axis axis t.rank))

def extent (t : Tensor β) (axis : Nat) : Nat := t.shape.getD axis 0

/-- The product of the extents behind an axis. -/
def inner (shape : List Nat) (axis : Nat) : Nat := (shape.drop (axis + 1)).prod

/-- The position of cell `(o, j, k)`: `o` in front of the axis, `j` on it, `k` behind it. -/
def axisPosition (extent inner o j k : Nat) : Nat := (o * extent + j) * inner + k

def slice [Inhabited β] (t : Tensor β) (axis start stop : Nat) : Except (Error α) (Tensor β) := do
  t.checkAxis axis
  let n := t.extent axis
  if start ≤ stop ∧ stop ≤ n then
    let k := inner t.shape axis
    let m := stop - start
    return ofFn (t.shape.set axis m) fun i =>
      t.read (axisPosition n k (i / k / m) (start + i / k % m) (i % k))
  else .error (.badConfig (.slice start stop axis n))

def index [Inhabited β] (t : Tensor β) (axis j : Nat) : Except (Error α) (Tensor β) := do
  t.checkAxis axis
  let n := t.extent axis
  if j < n then
    let k := inner t.shape axis
    return ofFn (t.shape.eraseIdx axis) fun i => t.read (axisPosition n k (i / k) j (i % k))
  else .error (.badConfig (.index j axis n))

/-- The cell at `(o, j, k)` of tensors put side by side along an axis. -/
def sideBySide [Inhabited β] (axis o k : Nat) : List (Tensor β) → Nat → β
  | [], _ => default
  | t :: rest, j =>
    let n := t.extent axis
    if j < n then t.read (axisPosition n (inner t.shape axis) o j k)
    else sideBySide axis o k rest (j - n)

def crossSection (shape : List Nat) (axis : Nat) : List Nat := shape.eraseIdx axis

/-- Joins tensors along an axis; their other extents have to agree, and the extents of the
result have to fit an allocation. -/
def concat [Inhabited β] (parts : List (Tensor β)) (axis : Nat) : Except (Error α) (Tensor β) :=
  match parts with
  | [] => .error (.badConfig .emptyConcat)
  | first :: rest => do
    first.checkAxis axis
    match rest.find? fun p =>
        p.rank ≠ first.rank ∨ crossSection p.shape axis ≠ crossSection first.shape axis with
    | some p => .error (.shapeMismatch first.shape p.shape)
    | none =>
      let n := (parts.map (·.extent axis)).sum
      let k := inner first.shape axis
      allocate .hugeConcat (first.shape.set axis n) fun i =>
        sideBySide axis (i / k / n) (i % k) parts (i / k % n)

def stack [Inhabited β] (parts : List (Tensor β)) : Except (Error α) (Tensor β) :=
  match parts with
  | [] => .error (.badConfig .emptyStack)
  | first :: rest =>
    match rest.find? fun p => p.shape ≠ first.shape with
    | some p => .error (.shapeMismatch first.shape p.shape)
    | none =>
      let table := parts.toArray
      allocate .hugeStack (parts.length :: first.shape) fun i =>
        match table[i / first.shape.prod]? with
        | some t => t.read (i % first.shape.prod)
        | none => default

def unravel : List Nat → Nat → List Nat
  | [], _ => []
  | _ :: shape, i => i / shape.prod :: unravel shape (i % shape.prod)

def transpose [Inhabited β] (t : Tensor β) : Tensor β :=
  ofFn t.shape.reverse fun i =>
    match position? t.shape (unravel t.shape.reverse i).reverse with
    | some p => t.read p
    | none => default

/-- The position that a broadcast source is read at: an axis of extent one is stretched. -/
def stretched : List Nat → List Nat → Nat → Nat
  | a :: source, _ :: target, i =>
    (if a = 1 then 0 else i / target.prod) * source.prod + stretched source target (i % target.prod)
  | _, _, _ => 0

end Tensor
end Sensitivity
