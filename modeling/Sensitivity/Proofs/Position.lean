import Sensitivity.Proofs.Interval

/-! Row-major positions: those of the cells of an image, and those of the rows of a batch. -/
namespace Sensitivity

theorem Interval.row_position_lt {row rows n i : ℕ} (hrow : row < rows) (hi : i < n) :
    row * n + i < rows * n :=
  calc row * n + i < row * n + n := Nat.add_lt_add_left hi _
    _ = (row + 1) * n := (Nat.succ_mul row n).symm
    _ ≤ rows * n := Nat.mul_le_mul_right n hrow

theorem Window.lt_of_source? {stride padding i d extent y : ℕ}
    (h : source? stride padding i d extent = some y) : y < extent := by
  unfold source? at h
  split at h
  next hr =>
    rw [← Option.some.inj h]
    exact hr.2
  next => cases h

theorem Window.lt_of_offset? {stride padding i y length d : ℕ}
    (h : offset? stride padding i y length = some d) : d < length := by
  unfold offset? at h
  split at h
  next hr =>
    rw [← Option.some.inj h]
    exact hr.2
  next => cases h

theorem mem_grid2 {a b i j : ℕ} : (i,j) ∈ grid2 a b ↔ i < a ∧ j < b := by
  simp [grid2]

theorem mem_grid3 {a b c i j k : ℕ} : (i,j,k) ∈ grid3 a b c ↔ i < a ∧ j < b ∧ k < c := by
  simp [grid3,mem_grid2]

namespace ImageShape

variable {image : ImageShape} {c y z c' y' z' : ℕ}

/-- The row-major position of a cell of an image. -/
def position (image : ImageShape) (c y z : ℕ) : ℕ :=
  (c * image.height + y) * image.width + z

theorem toList_injective : Function.Injective toList := by
  rintro ⟨c,h,w⟩ ⟨c',h',w'⟩ heq
  simpa [toList] using heq

theorem prod_toList (image : ImageShape) :
    image.toList.prod = image.channels * image.height * image.width := by
  simp [toList,mul_assoc]

theorem position_lt (hc : c < image.channels) (hy : y < image.height) (hz : z < image.width) :
    image.position c y z < image.toList.prod := by
  rw [prod_toList]
  exact Interval.row_position_lt (Interval.row_position_lt hc hy) hz

theorem row_lt_area (hy : y < image.height) (hz : z < image.width) :
    y * image.width + z < image.area := Interval.row_position_lt hy hz

theorem mul_add_div_of_lt {a b k : ℕ} (h : k < b) : (a * b + k) / b = a := by
  rw [Nat.mul_comm,Nat.mul_add_div (Nat.zero_lt_of_lt h),Nat.div_eq_of_lt h,Nat.add_zero]

theorem mul_add_inj {a a' b k k' : ℕ} (hk : k < b) (hk' : k' < b) :
    a * b + k = a' * b + k' ↔ a = a' ∧ k = k' := by
  constructor
  · intro h
    have hdiv := mul_add_div_of_lt (a := a) hk
    have hmod := Nat.mul_add_mod_of_lt (a := a) hk
    rw [h] at hdiv hmod
    rw [mul_add_div_of_lt hk'] at hdiv
    rw [Nat.mul_add_mod_of_lt hk'] at hmod
    exact ⟨hdiv.symm,hmod.symm⟩
  · rintro ⟨rfl,rfl⟩
    rfl

theorem position_column (hz : z < image.width) : image.position c y z % image.width = z :=
  Nat.mul_add_mod_of_lt hz

theorem position_row (hy : y < image.height) (hz : z < image.width) :
    image.position c y z / image.width % image.height = y := by
  rw [position,mul_add_div_of_lt hz,Nat.mul_add_mod_of_lt hy]

theorem position_channel (hy : y < image.height) (hz : z < image.width) :
    image.position c y z / image.width / image.height = c := by
  rw [position,mul_add_div_of_lt hz,mul_add_div_of_lt hy]

theorem position_inj (hy : y < image.height) (hz : z < image.width) (hy' : y' < image.height)
    (hz' : z' < image.width) :
    image.position c y z = image.position c' y' z' ↔ c = c' ∧ y = y' ∧ z = z' := by
  rw [position,position,mul_add_inj hz hz',mul_add_inj hy hy',and_assoc]

theorem exists_position {i : ℕ} (h : i < image.toList.prod) :
    ∃ c < image.channels, ∃ y < image.height, ∃ z < image.width, i = image.position c y z := by
  rw [prod_toList] at h
  have hwidth : 0 < image.width := Nat.pos_of_ne_zero fun h0 => by simp [h0] at h
  have hheight : 0 < image.height := Nat.pos_of_ne_zero fun h0 => by simp [h0] at h
  refine ⟨i / image.width / image.height,?_,i / image.width % image.height,Nat.mod_lt _ hheight,
    i % image.width,Nat.mod_lt _ hwidth,?_⟩
  · rw [Nat.div_lt_iff_lt_mul hheight,Nat.div_lt_iff_lt_mul hwidth]
    exact h
  · rw [position,Nat.div_add_mod',Nat.div_add_mod']

end ImageShape
end Sensitivity
