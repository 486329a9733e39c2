import Sensitivity.Proofs.Cell
import Sensitivity.Proofs.Relation
import Sensitivity.Proofs.Sound.Image

/-! Bounds around tensors. A bound on the input of a layer encloses one tensor; a bound on a
sensitivity has several rows, each of which encloses a tensor of its own. -/
namespace Sensitivity

namespace Interval

/-- A bound around each value of a tensor. -/
def Encloses (x : Interval ℝ) (v : Tensor ℝ) : Prop :=
  x.shape = v.shape ∧ ∀ i < v.shape.prod, (x.read i).Contains (v.read i)

/-- A row of bounds around each value of a tensor. -/
def EnclosesRow (d : Interval ℝ) (row : ℕ) (v : Tensor ℝ) : Prop :=
  ∃ rows, d.shape = rows :: v.shape ∧ row < rows ∧
    ∀ i < v.shape.prod, (d.read (row * v.shape.prod + i)).Contains (v.read i)

variable {x d : Interval ℝ} {u v : Tensor ℝ} {row : ℕ} {image : ImageShape} {c y z : ℕ}

theorem encloses_fill (shape : List ℕ) {b : Bound ℝ} {w : ℝ} (h : b.Contains w) :
    Encloses (Tensor.fill shape b) (Tensor.fill shape w) := by
  refine ⟨rfl,fun i hi => ?_⟩
  have hi : i < shape.prod := hi
  rw [Tensor.read_fill _ _ hi,Tensor.read_fill _ _ hi]
  exact h

theorem encloses_iff_rel : x.Encloses v ↔ Tensor.Rel Bound.Contains x v :=
  ⟨fun h => ⟨h.1,h.2⟩,fun h => ⟨h.shape,h.cells⟩⟩

theorem Encloses.map {f : Bound ℝ → Bound ℝ} {g : ℝ → ℝ} (h : x.Encloses v)
    (hf : ∀ b u, b.Contains u → (f b).Contains (g u)) : Encloses (x.map f) (v.map g) :=
  encloses_iff_rel.mpr ((encloses_iff_rel.mp h).map hf)

theorem Encloses.contains_read (h : x.Encloses v) (i : ℕ) : (x.read i).Contains (v.read i) :=
  (encloses_iff_rel.mp h).read Bound.contains_zero i

theorem enclosesRow_fill (shape : List ℕ) {rows : ℕ} {b : Bound ℝ} {w : ℝ} (hrow : row < rows)
    (h : b.Contains w) : EnclosesRow (Tensor.fill (rows :: shape) b) row (Tensor.fill shape w) := by
  refine ⟨rows,rfl,hrow,fun i hi => ?_⟩
  have hi : i < shape.prod := hi
  have hposition : row * shape.prod + i < (rows :: shape).prod := row_position_lt hrow hi
  rw [Tensor.read_fill _ _ hi]
  exact (Tensor.read_fill (rows :: shape) b hposition).symm ▸ h

theorem Encloses.contains_pixel (h : x.Encloses v) (c y z : ℕ) :
    (x.at3 image.height image.width c y z).Contains (v.pixel image c y z) :=
  h.contains_read _

theorem EnclosesRow.contains_pixel (h : d.EnclosesRow row v) (hv : v.shape = image.toList)
    (hc : c < image.channels) (hy : y < image.height) (hz : z < image.width) :
    (d.at4 image.channels image.height image.width row c y z).Contains (v.pixel image c y z) := by
  obtain ⟨rows,-,-,hcells⟩ := h
  have hcell := hcells _ (hv ▸ ImageShape.position_lt hc hy hz)
  rw [hv,← Tensor.at4_eq_read] at hcell
  exact hcell

theorem EnclosesRow.row_lt {rows : ℕ} {shape : List ℕ} (h : d.EnclosesRow row v)
    (hd : d.shape = rows :: shape) : row < rows := by
  obtain ⟨rows',hrows,hrow,-⟩ := h
  obtain rfl := List.head_eq_of_cons_eq (hrows.symm.trans hd)
  exact hrow

theorem encloses_ofImage {cell : ℕ → ℕ → ℕ → Bound ℝ} {f : ℕ → ℕ → ℕ → ℝ}
    (h : ∀ c < image.channels, ∀ y < image.height, ∀ z < image.width,
      (cell c y z).Contains (f c y z)) : (ofImage image cell).Encloses (Tensor.ofImage image f) := by
  refine ⟨rfl,fun i hi => ?_⟩
  rw [Tensor.shape_ofImage] at hi
  obtain ⟨c,hc,y,hy,z,hz,rfl⟩ := ImageShape.exists_position hi
  have hcell := h c hc y hy z hz
  rw [← at3_ofImage cell hc hy hz,← Tensor.pixel_ofImage f hc hy hz] at hcell
  exact hcell

theorem enclosesRow_ofRows {rows : ℕ} {cell : ℕ → ℕ → ℕ → ℕ → Bound ℝ}
    (hd : ofRows rows image cell = .ok d) (hrow : row < rows) (hv : v.shape = image.toList)
    (h : ∀ c < image.channels, ∀ y < image.height, ∀ z < image.width,
      (cell row c y z).Contains (v.pixel image c y z)) : d.EnclosesRow row v := by
  obtain ⟨-,-,hcells⟩ := ofRows_eq_ok_iff.mp hd
  refine ⟨rows,by rw [hcells,hv]; rfl,hrow,fun i hi => ?_⟩
  rw [hv] at hi ⊢
  obtain ⟨c,hc,y,hy,z,hz,rfl⟩ := ImageShape.exists_position hi
  rw [← Tensor.at4_eq_read,at4_ofRows hd hrow hc hy hz]
  exact h c hc y hy z hz

end Interval
end Sensitivity
