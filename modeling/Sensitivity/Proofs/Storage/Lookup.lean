import Sensitivity.Proofs.Cell
import Sensitivity.Proofs.Shape.Indicator

/-! Indicators with every cell looked up. A look-up names a cell by its index and gives nothing
beyond the extents of the tensor. Where all look-ups give a cell, they give the indicators that
are computed by position; for a convolution, where one gives nothing, these are refused. -/
namespace Sensitivity

namespace Tensor

variable {β : Type} {t : Tensor β} {index : List ℕ} {p : ℕ}

theorem position?_lt {shape : List ℕ} (h : position? shape index = some p) : p < shape.prod := by
  induction shape generalizing index p with
  | nil =>
    cases index with
    | nil =>
      obtain rfl := Option.some.inj h
      exact Nat.one_pos
    | cons i index => cases h
  | cons n shape ih =>
    cases index with
    | nil => cases h
    | cons i index =>
      rw [position?] at h
      split at h
      next hi =>
        obtain ⟨q,hq,rfl⟩ := Option.map_eq_some_iff.mp h
        exact Interval.row_position_lt hi (ih hq)
      next => cases h

theorem get?_of_position? [Inhabited β] (h : position? t.shape index = some p) :
    t.get? index = some (t.read p) := by
  have hp : p < t.cells.size := t.size_cells ▸ position?_lt h
  rw [get?,h,Option.bind_some,Array.getElem?_eq_getElem hp,read_eq_getElem t hp]

theorem get?_ofFn [Inhabited β] {shape : List ℕ} (f : ℕ → β) (h : position? shape index = some p) :
    (ofFn shape f).get? index = some (f p) := by
  rw [get?_of_position? (t := ofFn shape f) h,read_ofFn shape f (position?_lt h)]

theorem isSome_position?_nil : (position? [] index).isSome ↔ index = [] := by
  cases index <;> simp [position?]

theorem isSome_position?_cons {n : ℕ} {shape : List ℕ} : (position? (n :: shape) index).isSome ↔
    ∃ i < n, ∃ rest, (position? shape rest).isSome ∧ index = i :: rest := by
  cases index with
  | nil => simp [position?]
  | cons i rest =>
    rw [position?]
    split
    next hi => simp [hi]
    next hi => simp [hi]

theorem position?_cons {n i : ℕ} {shape : List ℕ} (hi : i < n) (h : position? shape index = some p) :
    position? (n :: shape) (i :: index) = some (i * shape.prod + p) := by
  rw [position?,if_pos hi,h,Option.map_some]

theorem position?_vector {n i : ℕ} (hi : i < n) : position? [n] [i] = some i := by
  rw [position?_cons hi (position?.eq_1),List.prod_nil,Nat.mul_one,Nat.add_zero]

theorem position?_matrix {n m i j : ℕ} (hi : i < n) (hj : j < m) :
    position? [n,m] [i,j] = some (i * m + j) := by
  rw [position?_cons hi (position?_vector hj),List.prod_singleton]

theorem position?_image {image : ImageShape} {c y z : ℕ} (hc : c < image.channels)
    (hy : y < image.height) (hz : z < image.width) :
    position? image.toList [c,y,z] = some (image.position c y z) := by
  rw [ImageShape.toList,position?_cons hc (position?_matrix hy hz),List.prod_cons,
    List.prod_singleton,ImageShape.position,Nat.add_mul,Nat.mul_assoc,Nat.add_assoc]

theorem position?_rows {image : ImageShape} {rows b c y z : ℕ} (hb : b < rows)
    (hc : c < image.channels) (hy : y < image.height) (hz : z < image.width) :
    position? (rows :: image.toList) [b,c,y,z] =
      some (image.position (b * image.channels + c) y z) := by
  rw [position?_cons hb (position?_image hc hy hz),ImageShape.prod_toList,ImageShape.position,
    ImageShape.position]
  congr 1
  ring

theorem position?_image_eq_none {image : ImageShape} {c y z : ℕ}
    (h : ¬ (c < image.channels ∧ y < image.height ∧ z < image.width)) :
    position? image.toList [c,y,z] = none := by
  simp only [ImageShape.toList,position?]
  split
  next hc =>
    split
    next hy =>
      rw [if_neg fun hz => h ⟨hc,hy,hz⟩]
      rfl
    next => rfl
  next => rfl

variable [Inhabited β] {image : ImageShape} {rows b c y z : ℕ}

theorem get?_at3 (ht : t.shape = image.toList) (hc : c < image.channels) (hy : y < image.height)
    (hz : z < image.width) : t.get? [c,y,z] = some (t.at3 image.height image.width c y z) :=
  get?_of_position? (ht ▸ position?_image hc hy hz)

theorem get?_at4 (ht : t.shape = rows :: image.toList) (hb : b < rows) (hc : c < image.channels)
    (hy : y < image.height) (hz : z < image.width) :
    t.get? [b,c,y,z] = some (t.at4 image.channels image.height image.width b c y z) :=
  get?_of_position? (ht ▸ position?_rows hb hc hy hz)

end Tensor

section Fold

variable {γ β : Type} {f : γ → β → Option γ} {l : List β}

theorem foldlM_eq_some {g : γ → β → γ} (h : ∀ b ∈ l, ∀ s, f s b = some (g s b)) (s : γ) :
    l.foldlM f s = some (l.foldl g s) := by
  induction l generalizing s with
  | nil => rfl
  | cons b l ih =>
    obtain ⟨hb,hl⟩ := List.forall_mem_cons.mp h
    rw [List.foldlM_cons,hb]
    exact ih hl (g s b)

theorem foldlM_eq_none {b : β} (hb : b ∈ l) (h : ∀ s, f s b = none) (s : γ) :
    l.foldlM f s = none := by
  induction l generalizing s with
  | nil => cases hb
  | cons c l ih =>
    rw [List.foldlM_cons]
    rcases List.mem_cons.mp hb with rfl | hb
    · rw [h]
      rfl
    · cases f s c with
      | none => rfl
      | some s => exact ih hb s

end Fold

variable {α : Type} [Scalar α]

namespace Indicator

/-- The largest score over the rows, zero at least, where every row has a contribution. -/
def best? (score : Bound α → α) (rows : ℕ) (contribution? : ℕ → Option (Bound α)) : Option α :=
  (List.range rows).foldlM
    (fun best row => (contribution? row).map fun b => max best (score b)) 0

def denseContribution? (t : DenseTransform α) (x d : Interval α) (i j row : ℕ) :
    Option (Bound α) := do
  let a ← x.flatten.get? [i]
  let b ← d.get? [row,j]
  let w ← t.layer.weights.get? [i,j]
  return (a.mul b).scale w

def convolutionTerm? (t : ConvolutionTransform α) (x d : Interval α) (o ci di dj row : ℕ)
    (acc : Bound α) (position : ℕ × ℕ) : Option (Bound α) :=
  let (i,j) := position
  match t.layer.source? i di t.input.height, t.layer.source? j dj t.input.width with
  | some y, some z => do
    let a ← x.get? [t.layer.inputChannel o ci,y,z]
    let b ← d.get? [row,o,i,j]
    return acc.add (a.mul b)
  | _, _ => some acc

def convolutionContribution? (t : ConvolutionTransform α) (x d : Interval α)
    (o ci di dj row : ℕ) : Option (Bound α) := do
  let w ← t.layer.weights.get? [o,ci,di,dj]
  let sum ← (grid2 t.output.height t.output.width).foldlM (convolutionTerm? t x d o ci di dj row) 0
  return sum.scale w

section Best

variable {score : Bound α → α} {rows : ℕ} {contribution? : ℕ → Option (Bound α)}

theorem best?_eq_some {contribution : ℕ → Bound α}
    (h : ∀ row < rows, contribution? row = some (contribution row)) :
    best? score rows contribution? = some (best score rows contribution) := by
  refine foldlM_eq_some (g := fun best row => max best (score (contribution row))) ?_ 0
  intro row hrow s
  rw [h row (List.mem_range.mp hrow),Option.map_some]

theorem best?_eq_none {row : ℕ} (hrow : row < rows) (h : contribution? row = none) :
    best? score rows contribution? = none := by
  refine foldlM_eq_none (List.mem_range.mpr hrow) (fun s => ?_) 0
  rw [h,Option.map_none]

end Best

section Dense

variable {t : DenseTransform α} {x d : Interval α} {i j row rows : ℕ}

theorem denseContribution?_eq_some (hx : x.size = t.layer.inputs)
    (hd : d.shape = [rows,t.layer.outputs]) (hi : i < t.layer.inputs) (hj : j < t.layer.outputs)
    (hrow : row < rows) :
    denseContribution? t x d i j row = some (denseContribution t x d i j row) := by
  have ha : x.flatten.get? [i] = some (x.read i) := by
    refine Tensor.get?_of_position? ?_
    rw [Tensor.shape_flatten,← Tensor.size_eq,hx]
    exact Tensor.position?_vector hi
  have hb : d.get? [row,j] = some (d.read (row * t.layer.outputs + j)) := by
    refine Tensor.get?_of_position? ?_
    rw [hd]
    exact Tensor.position?_matrix hrow hj
  have hw : t.layer.weights.get? [i,j] =
      some (t.layer.weights.read (i * t.layer.outputs + j)) := by
    refine Tensor.get?_of_position? ?_
    rw [t.layer.shape_weights]
    exact Tensor.position?_matrix hi hj
  rw [denseContribution?,ha,hb,hw]
  rfl

end Dense

section Convolution

variable {t : ConvolutionTransform α} {image : ImageShape} {x d : Interval α}
  {o ci di dj i j y z row rows : ℕ}

omit [Scalar α] in
theorem mem_channelsRead {layer : Convolution α} {c : ℕ} : c ∈ channelsRead layer ↔
    ∃ o < layer.outputs, ∃ ci < layer.groupInputs, layer.inputChannel o ci = c := by
  simp [channelsRead,mem_grid2,and_assoc]

omit [Scalar α] in
theorem mem_cellsRead {layer : Convolution α} {length outputs extent : ℕ} :
    y ∈ cellsRead layer length outputs extent ↔
      ∃ d < length, ∃ i < outputs, layer.source? i d extent = some y := by
  simp [cellsRead,mem_grid2,and_assoc]

omit [Scalar α] in
/-- The check for cells inside an image is about every cell that some filter weight meets. -/
theorem readsInside_iff : ReadsInside t rows image ↔
    (rows ≠ 0 → ∀ c ∈ channelsRead t.layer,
      ∀ y ∈ cellsRead t.layer t.layer.height t.output.height t.input.height,
      ∀ z ∈ cellsRead t.layer t.layer.width t.output.width t.input.width,
        c < image.channels ∧ y < image.height ∧ z < image.width) := by
  simp only [ReadsInside]
  constructor
  · rintro (h | h | h | h | ⟨hchannels,hys,hzs⟩) hrows c hc y hy z hz
    · exact absurd h hrows
    · exact absurd hc (h ▸ List.not_mem_nil)
    · exact absurd hy (h ▸ List.not_mem_nil)
    · exact absurd hz (h ▸ List.not_mem_nil)
    · exact ⟨hchannels c hc,hys y hy,hzs z hz⟩
  · intro h
    by_contra hnot
    simp only [not_or] at hnot
    obtain ⟨hrows,hchannels,hys,hzs,hout⟩ := hnot
    obtain ⟨c,hc⟩ := List.exists_mem_of_ne_nil _ hchannels
    obtain ⟨y,hy⟩ := List.exists_mem_of_ne_nil _ hys
    obtain ⟨z,hz⟩ := List.exists_mem_of_ne_nil _ hzs
    exact hout ⟨fun c' hc' => (h hrows c' hc' y hy z hz).1,
      fun y' hy' => (h hrows c hc y' hy' z hz).2.1,fun z' hz' => (h hrows c hc y hy z' hz').2.2⟩

theorem convolutionTerm?_eq_some (hx : x.shape = image.toList)
    (hd : d.shape = rows :: t.output.toList) (ho : o < t.output.channels)
    (hi : i < t.output.height) (hj : j < t.output.width) (hrow : row < rows)
    (hinside : ∀ y z, t.layer.source? i di t.input.height = some y →
      t.layer.source? j dj t.input.width = some z →
      t.layer.inputChannel o ci < image.channels ∧ y < image.height ∧ z < image.width)
    (acc : Bound α) : convolutionTerm? t x d o ci di dj row acc (i,j) =
      some (convolutionTerm t image x d o ci di dj row acc (i,j)) := by
  simp only [convolutionTerm?,convolutionTerm]
  cases hy : t.layer.source? i di t.input.height with
  | none => rfl
  | some y =>
    cases hz : t.layer.source? j dj t.input.width with
    | none => rfl
    | some z =>
      obtain ⟨hc,hy,hz⟩ := hinside y z hy hz
      simp only [Tensor.get?_at3 hx hc hy hz,Tensor.get?_at4 hd hrow ho hi hj]
      rfl

theorem convolutionTerm?_eq_none (hx : x.shape = image.toList)
    (hy : t.layer.source? i di t.input.height = some y)
    (hz : t.layer.source? j dj t.input.width = some z)
    (h : ¬ (t.layer.inputChannel o ci < image.channels ∧ y < image.height ∧ z < image.width))
    (acc : Bound α) : convolutionTerm? t x d o ci di dj row acc (i,j) = none := by
  simp only [convolutionTerm?,hy,hz]
  rw [Tensor.get?,hx,Tensor.position?_image_eq_none h]
  rfl

theorem convolutionContribution?_eq_some (ht : t.Resolved) (hx : x.shape = image.toList)
    (hd : d.shape = rows :: t.output.toList) (hinside : ReadsInside t rows image)
    (ho : o < t.layer.outputs) (hci : ci < t.layer.groupInputs) (hdi : di < t.layer.height)
    (hdj : dj < t.layer.width) (hrow : row < rows) :
    convolutionContribution? t x d o ci di dj row =
      some (convolutionContribution t image x d o ci di dj row) := by
  have hshape : t.layer.weights.shape = t.layer.outputs ::
      (⟨t.layer.groupInputs,t.layer.height,t.layer.width⟩ : ImageShape).toList :=
    t.layer.shape_weights
  have hw : t.layer.weights.get? [o,ci,di,dj] = some (t.layer.weight o ci di dj) :=
    Tensor.get?_at4 hshape ho hci hdi hdj
  have hsum : (grid2 t.output.height t.output.width).foldlM
      (convolutionTerm? t x d o ci di dj row) 0 = some ((grid2 t.output.height
        t.output.width).foldl (convolutionTerm t image x d o ci di dj row) 0) := by
    refine foldlM_eq_some ?_ 0
    rintro ⟨i,j⟩ hij acc
    obtain ⟨hi,hj⟩ := mem_grid2.mp hij
    refine convolutionTerm?_eq_some hx hd (ht.output_channels ▸ ho) hi hj hrow ?_ acc
    intro y z hy hz
    exact readsInside_iff.mp hinside (Nat.ne_zero_of_lt hrow) _
      (mem_channelsRead.mpr ⟨o,ho,ci,hci,rfl⟩) y (mem_cellsRead.mpr ⟨di,hdi,i,hi,hy⟩) z
      (mem_cellsRead.mpr ⟨dj,hdj,j,hj,hz⟩)
  rw [convolutionContribution?,hw,hsum]
  rfl

theorem exists_convolutionContribution?_eq_none (hx : x.shape = image.toList)
    (h : ¬ ReadsInside t rows image) :
    0 < rows ∧ ∃ o < t.layer.outputs, ∃ ci < t.layer.groupInputs, ∃ di < t.layer.height,
      ∃ dj < t.layer.width, convolutionContribution? t x d o ci di dj 0 = none := by
  rw [readsInside_iff] at h
  push Not at h
  obtain ⟨hrows,c,hc,y,hy,z,hz,hout⟩ := h
  obtain ⟨o,ho,ci,hci,rfl⟩ := mem_channelsRead.mp hc
  obtain ⟨di,hdi,i,hi,hy⟩ := mem_cellsRead.mp hy
  obtain ⟨dj,hdj,j,hj,hz⟩ := mem_cellsRead.mp hz
  refine ⟨Nat.pos_of_ne_zero hrows,o,ho,ci,hci,di,hdi,dj,hdj,?_⟩
  have hterm : ∀ acc, convolutionTerm? t x d o ci di dj 0 acc (i,j) = none :=
    convolutionTerm?_eq_none hx hy hz fun hin => Nat.not_lt.mpr (hout hin.1 hin.2.1) hin.2.2
  rw [convolutionContribution?,foldlM_eq_none (mem_grid2.mpr ⟨hi,hj⟩) hterm]
  cases t.layer.weights.get? [o,ci,di,dj] <;> rfl

end Convolution

end Indicator
end Sensitivity
