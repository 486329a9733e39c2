import Sensitivity.Proofs.Position
import Sensitivity.Proofs.Relation
import Sensitivity.Proofs.Shape.Layer

/-! What the layers on images give, cell by cell, and when they give it. -/
namespace Sensitivity

variable {α : Type} [Scalar α]

theorem Tensor.at4_eq_read {β : Type} [Inhabited β] (t : Tensor β) (image : ImageShape)
    (b c y z : ℕ) : t.at4 image.channels image.height image.width b c y z =
      t.read (b * image.toList.prod + image.position c y z) := by
  rw [Tensor.at4,ImageShape.prod_toList,ImageShape.position]
  congr 1
  ring

namespace Interval

variable {image : ImageShape} {c y z : ℕ}

theorem at3_ofImage (cell : ℕ → ℕ → ℕ → Bound α) (hc : c < image.channels) (hy : y < image.height)
    (hz : z < image.width) :
    (ofImage image cell).at3 image.height image.width c y z = cell c y z := by
  have hread := Tensor.read_ofFn image.toList (fun i => cell (i / image.width / image.height)
    (i / image.width % image.height) (i % image.width)) (ImageShape.position_lt hc hy hz)
  rw [ImageShape.position_channel hy hz,ImageShape.position_row hy hz,
    ImageShape.position_column hz] at hread
  exact hread

theorem rel_ofImage {R : Bound α → Bound α → Prop} {cell cell' : ℕ → ℕ → ℕ → Bound α}
    (h : ∀ c < image.channels, ∀ y < image.height, ∀ z < image.width,
      R (cell c y z) (cell' c y z)) : Tensor.Rel R (ofImage image cell) (ofImage image cell') := by
  unfold ofImage
  refine Tensor.rel_ofFn fun i hi => ?_
  obtain ⟨c,hc,y,hy,z,hz,rfl⟩ := ImageShape.exists_position hi
  simp only [ImageShape.position_channel hy hz,ImageShape.position_row hy hz,
    ImageShape.position_column hz]
  exact h c hc y hy z hz

theorem at4_ofRows {rows b : ℕ} {cell : ℕ → ℕ → ℕ → ℕ → Bound α} {e : Interval α}
    (he : ofRows rows image cell = .ok e) (hb : b < rows) (hc : c < image.channels)
    (hy : y < image.height) (hz : z < image.width) :
    e.at4 image.channels image.height image.width b c y z = cell b c y z := by
  obtain ⟨-,-,rfl⟩ := ofRows_eq_ok_iff.mp he
  have hlt : b * image.toList.prod + image.position c y z < (rows :: image.toList).prod :=
    row_position_lt hb (ImageShape.position_lt hc hy hz)
  have hposition : b * image.toList.prod + image.position c y z =
      image.position (b * image.channels + c) y z := by
    rw [ImageShape.prod_toList,ImageShape.position,ImageShape.position]
    ring
  rw [Tensor.at4_eq_read,Tensor.read_ofFn _ _ hlt,hposition]
  simp only [ImageShape.position_channel hy hz,ImageShape.position_row hy hz,
    ImageShape.position_column hz,ImageShape.mul_add_div_of_lt hc,Nat.mul_add_mod_of_lt hc]

theorem rel_ofRows {R : Bound α → Bound α → Prop} {rows : ℕ}
    {cell cell' : ℕ → ℕ → ℕ → ℕ → Bound α} {e e' : Interval α}
    (he : ofRows rows image cell = .ok e) (he' : ofRows rows image cell' = .ok e')
    (h : ∀ b < rows, ∀ c < image.channels, ∀ y < image.height, ∀ z < image.width,
      R (cell b c y z) (cell' b c y z)) : Tensor.Rel R e e' := by
  refine ⟨(shape_of_ofRows he).trans (shape_of_ofRows he').symm,fun i hi => ?_⟩
  rw [shape_of_ofRows he',List.prod_cons] at hi
  have hcells : 0 < image.toList.prod := Nat.pos_of_ne_zero fun h0 => by simp [h0] at hi
  obtain ⟨c,hc,y,hy,z,hz,hposition⟩ := ImageShape.exists_position (Nat.mod_lt i hcells)
  have hb : i / image.toList.prod < rows := (Nat.div_lt_iff_lt_mul hcells).mpr hi
  have hat := at4_ofRows he hb hc hy hz
  have hat' := at4_ofRows he' hb hc hy hz
  rw [Tensor.at4_eq_read,← hposition,Nat.div_add_mod'] at hat hat'
  rw [hat,hat']
  exact h _ hb c hc y hy z hz

end Interval

namespace ConvolutionTransform

variable {t : ConvolutionTransform α} {x y d e : Interval α}

theorem forward_eq_ok_iff : t.forward x = .ok y ↔
    x.shape = t.input.toList ∧ (Interval.ofImage t.output (t.forwardCell x)).ordered = y := by
  simp only [forward,Error.bind_eq_ok_iff,Interval.expectShape_eq_ok_iff,Error.pure_eq_ok_iff,
    exists_const]

theorem backward_eq_ok_iff : t.backward d = .ok e ↔ ∃ rows,
    d.shape = rows :: t.output.toList ∧ Interval.ofRows rows t.input (t.backwardCell d) = .ok e := by
  simp only [backward,Error.bind_eq_ok_iff,Interval.rowCount_eq_ok_iff]

end ConvolutionTransform

namespace PoolingTransform

variable {t : PoolingTransform} {x y d e : Interval α}

theorem routes_at3 (x : Interval α) {c i j : ℕ} (hc : c < t.output.channels)
    (hi : i < t.output.height) (hj : j < t.output.width) :
    (t.routes x).at3 t.output.height t.output.width c i j = t.contenders x c i j := by
  have hread := Tensor.read_ofFn t.output.toList (fun p => t.contenders x
    (p / t.output.width / t.output.height) (p / t.output.width % t.output.height)
    (p % t.output.width)) (ImageShape.position_lt hc hi hj)
  rw [ImageShape.position_channel hi hj,ImageShape.position_row hi hj,
    ImageShape.position_column hj] at hread
  exact hread

/-- What all windows pass back to one cell. -/
def backwardCell (t : PoolingTransform) (x d : Interval α) (row c y z : ℕ) : Bound α :=
  (grid2 t.output.height t.output.width).foldl (match t.layer.mode with
    | .max => t.maxTerm (t.routes x) d row c y z
    | .avg => t.avgTerm d row c y z) 0

theorem forward_eq_ok_iff : t.forward x = .ok y ↔
    x.shape = t.input.toList ∧ Interval.ofImage t.output (t.forwardCell x) = y := by
  simp only [forward,Error.bind_eq_ok_iff,Interval.expectShape_eq_ok_iff,Error.pure_eq_ok_iff,
    exists_const]

theorem backward_eq_ok_iff : t.backward x d = .ok e ↔ x.shape = t.input.toList ∧ ∃ rows,
    d.shape = rows :: t.output.toList ∧
      Interval.ofRows rows t.input (t.backwardCell x d) = .ok e := by
  simp only [backward,Error.bind_eq_ok_iff,Interval.expectShape_eq_ok_iff,
    Interval.rowCount_eq_ok_iff,exists_const]
  refine and_congr_right fun _ => exists_congr fun rows => and_congr_right fun _ => ?_
  unfold backwardCell
  cases t.layer.mode <;> rfl

end PoolingTransform

namespace ResponseNormTransform

variable {t : ResponseNormTransform α} {x y d e : Interval α}

def outputTable (t : ResponseNormTransform α) (x : Interval α) : Array (Array (Bound α)) :=
  Array.ofFn (n := t.image.area) fun p => t.layer.outputs (t.column x p)

def jacobianTable (t : ResponseNormTransform α) (x : Interval α) :
    Array (Array (Array (Bound α))) :=
  Array.ofFn (n := t.image.area) fun p => t.layer.jacobian (t.column x p)

theorem getD_outputTable (x : Interval α) {p : ℕ} (hp : p < t.image.area) :
    (t.outputTable x).getD p #[] = t.layer.outputs (t.column x p) := by
  simp [outputTable,Array.getD_eq_getD_getElem?,hp]

theorem getD_jacobianTable (x : Interval α) {p : ℕ} (hp : p < t.image.area) :
    (t.jacobianTable x).getD p #[] = t.layer.jacobian (t.column x p) := by
  simp [jacobianTable,Array.getD_eq_getD_getElem?,hp]

theorem forward_eq_ok_iff : t.forward x = .ok y ↔ x.shape = t.image.toList ∧
    (Interval.ofImage t.image fun c i j =>
      ((t.outputTable x).getD (i * t.image.width + j) #[]).getD c 0) = y := by
  simp only [forward,Error.bind_eq_ok_iff,Interval.expectShape_eq_ok_iff,Error.pure_eq_ok_iff,
    exists_const]
  rfl

theorem backward_eq_ok_iff : t.backward x d = .ok e ↔ x.shape = t.image.toList ∧ ∃ rows,
    d.shape = rows :: t.image.toList ∧ (Interval.ofRows rows t.image fun row j i k =>
      (List.range t.image.channels).foldl (t.backwardTerm (t.jacobianTable x) d row j i k) 0) =
        .ok e := by
  simp only [backward,Error.bind_eq_ok_iff,Interval.expectShape_eq_ok_iff,
    Interval.rowCount_eq_ok_iff,exists_const]
  rfl

theorem getD_outputs (layer : ResponseNorm α) {column : Array (Bound α)} {c : ℕ}
    (hc : c < column.size) : (layer.outputs column).getD c 0 =
      ResponseNorm.output (column.getD c 0) (layer.denominator (column.map Bound.square) c [c])
        layer.alpha layer.beta := by
  simp [ResponseNorm.outputs,Array.getD_eq_getD_getElem?,hc]

/-- The table of derivatives is read at the offset of a channel from the start of the window. -/
theorem getD_jacobian (layer : ResponseNorm α) {column : Array (Bound α)} {c j n : ℕ}
    (hsize : column.size = n) (hc : c < n)
    (hj : (layer.window c n).1 ≤ j ∧ j < (layer.window c n).2) :
    ((layer.jacobian column).getD c #[]).getD (j - (layer.window c n).1) 0 =
      layer.derivative column (column.map Bound.square) c j := by
  have hlt : j - (layer.window c n).1 < (layer.window c n).2 - (layer.window c n).1 := by omega
  simp [ResponseNorm.jacobian,Array.getD_eq_getD_getElem?,hsize,hc,span,hlt,
    Nat.add_sub_cancel' hj.1]

end ResponseNormTransform

theorem Rectifier.backward_eq_ok_iff {x d e : Interval α} : backward x d = .ok e ↔
    ∃ rows shape, d.shape = rows :: shape ∧ Stretches x.shape shape ∧
      (Tensor.ofFn d.shape fun i =>
        slope (x.read (Tensor.stretched x.shape shape (i % shape.prod))) (d.read i)) = e := by
  unfold backward
  split
  next rows shape hd =>
    simp only [hd,List.cons.injEq]
    split
    next h => simp [h]
    next h => simp [h]
  next hd => simp [hd]

theorem Softmax.read_of_forward {x y : Interval α} (h : forward x = .ok y) : y.shape = x.shape ∧
    ∃ n, x.shape.getLast? = some n ∧ x.shape.prod = x.shape.dropLast.prod * n ∧
      ∀ i < x.shape.prod, 0 < n ∧ y.read i =
        (lane ((List.range n).map fun j => x.read (i / n * n + j)))[i % n]?.getD 0 := by
  unfold forward at h
  split at h
  · cases h
  next n hn =>
    obtain rfl := Except.ok.inj h
    have hshape : x.shape = x.shape.dropLast ++ [n] := (List.dropLast_append_getLast? n hn).symm
    have hprod : x.shape.prod = x.shape.dropLast.prod * n := by
      rw [congrArg List.prod hshape]
      simp
    refine ⟨rfl,n,hn,hprod,fun i hi => ?_⟩
    have hn0 : 0 < n := Nat.pos_of_ne_zero fun h0 => by simp [hprod,h0] at hi
    have hr : i / n < x.shape.dropLast.prod := (Nat.div_lt_iff_lt_mul hn0).mpr (hprod ▸ hi)
    refine ⟨hn0,?_⟩
    rw [Tensor.read_ofFn _ _ hi]
    simp [Array.getD_eq_getD_getElem?,hr]

end Sensitivity
