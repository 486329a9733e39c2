import Sensitivity.Proofs.Position
import Sensitivity.Proofs.Sound.Evaluation

/-! Images cell by cell: sums over their cells, and the slopes of layers between images. -/
namespace Sensitivity

theorem sum_range_mul (a b : ℕ) (f : ℕ → ℝ) :
    ∑ i ∈ Finset.range (a * b), f i = ∑ j ∈ Finset.range a, ∑ k ∈ Finset.range b, f (j * b + k) := by
  induction a with
  | zero => simp
  | succ a ih => rw [Nat.succ_mul,Finset.sum_range_add,ih,Finset.sum_range_succ]

theorem sum_map_range (n : ℕ) (f : ℕ → ℝ) :
    ((List.range n).map f).sum = ∑ i ∈ Finset.range n, f i := rfl

theorem sum_map_grid2 (a b : ℕ) (f : ℕ × ℕ → ℝ) :
    ((grid2 a b).map f).sum = ∑ i ∈ Finset.range a, ∑ j ∈ Finset.range b, f (i,j) := by
  rw [grid2,List.map_flatMap,List.flatMap_def,List.sum_flatten,List.map_map,← sum_map_range]
  simp only [Function.comp_def,List.map_map,← sum_map_range]

theorem sum_map_grid3 (a b c : ℕ) (f : ℕ × ℕ × ℕ → ℝ) :
    ((grid3 a b c).map f).sum =
      ∑ i ∈ Finset.range a, ∑ j ∈ Finset.range b, ∑ k ∈ Finset.range c, f (i,j,k) := by
  rw [grid3,List.map_flatMap,List.flatMap_def,List.sum_flatten,List.map_map,← sum_map_range]
  simp only [Function.comp_def,List.map_map]
  exact congrArg List.sum (List.map_congr_left fun i _ => sum_map_grid2 b c fun p => f (i,p))

namespace ImageShape

theorem sum_positions (image : ImageShape) (f : ℕ → ℝ) :
    ∑ i ∈ Finset.range image.toList.prod, f i =
      ∑ c ∈ Finset.range image.channels, ∑ y ∈ Finset.range image.height,
        ∑ z ∈ Finset.range image.width, f (image.position c y z) := by
  simp only [prod_toList,sum_range_mul,position]

end ImageShape

namespace Tensor

variable {image : ImageShape} {c y z : ℕ}

theorem pixel_ofImage (cell : ℕ → ℕ → ℕ → ℝ) (hc : c < image.channels) (hy : y < image.height)
    (hz : z < image.width) : (ofImage image cell).pixel image c y z = cell c y z := by
  have hread := read_ofFn (β := ℝ) image.toList (fun i => cell (i / image.width / image.height)
    (i / image.width % image.height) (i % image.width)) (ImageShape.position_lt hc hy hz)
  rw [ImageShape.position_channel hy hz,ImageShape.position_row hy hz,
    ImageShape.position_column hz] at hread
  exact hread

theorem pixel_eq_read (x : Tensor ℝ) (image : ImageShape) (c y z : ℕ) :
    x.pixel image c y z = x.read (image.position c y z) := rfl

end Tensor

namespace Transform

/-- The slopes of a layer whose output is an image, by the cell of the output. -/
def HasCellSlopes (t : Transform ℝ) (x : Tensor ℝ) (out : ImageShape)
    (s : ℕ → ℕ → ℕ → ℕ → ℝ) : Prop :=
  (t.eval x).shape = out.toList ∧ ∀ c < out.channels, ∀ i < out.height, ∀ j < out.width,
    ∀ k < x.shape.prod,
      HasDerivAt (fun v => (t.eval (x.update k v)).pixel out c i j) (s c i j k) (x.read k)

variable {t : Transform ℝ} {x sensitivity : Tensor ℝ} {out : ImageShape}
  {s : ℕ → ℕ → ℕ → ℕ → ℝ} {slope : ℕ → ℕ → ℝ}

theorem HasCellSlopes.hasSlopes (h : t.HasCellSlopes x out s) :
    t.HasSlopes x fun p => s (p / out.width / out.height) (p / out.width % out.height)
      (p % out.width) := by
  intro p hp k hk
  rw [h.1] at hp
  obtain ⟨c,hc,i,hi,j,hj,rfl⟩ := ImageShape.exists_position hp
  simp only [ImageShape.position_channel hi hj,ImageShape.position_row hi hj,
    ImageShape.position_column hj]
  exact h.2 c hc i hi j hj k hk

theorem HasCellSlopes.sum_eq (h : t.HasCellSlopes x out s) (hslope : t.HasSlopes x slope) {k : ℕ}
    (hk : k < x.shape.prod) :
    ∑ p ∈ Finset.range out.toList.prod, sensitivity.read p * slope p k =
      ∑ c ∈ Finset.range out.channels, ∑ i ∈ Finset.range out.height, ∑ j ∈ Finset.range out.width,
        sensitivity.pixel out c i j * s c i j k := by
  rw [ImageShape.sum_positions]
  refine Finset.sum_congr rfl fun c hc => Finset.sum_congr rfl fun i hi =>
    Finset.sum_congr rfl fun j hj => ?_
  rw [Finset.mem_range] at hc hi hj
  have hp := ImageShape.position_lt hc hi hj
  rw [← h.1] at hp
  rw [Tensor.pixel_eq_read,(hslope _ hp k hk).unique (h.2 c hc i hi j hj k hk)]

end Transform
end Sensitivity
