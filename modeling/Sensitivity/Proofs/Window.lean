import Sensitivity.Single
import Sensitivity.Proofs.Shape.Layer

/-! Sliding windows along one axis. A pooling window is wider than the padding on either side, so it
reaches a cell of every axis that has one. Along an axis without cells the padding alone can make
room for windows; a maximum is then the greatest of no numbers. -/
namespace Sensitivity

variable {α : Type}

namespace Window

variable {extent window stride padding n i : ℕ}

theorem end_le_padded (h : count extent window stride padding = (.ok n : Except (Error α) ℕ))
    (hi : i < n) : i * stride + window ≤ padded extent padding := by
  obtain ⟨hfits,rfl⟩ := count_eq_ok_iff.mp h
  have hi' : i ≤ (padded extent padding - window) / stride :=
    Nat.le_of_lt_succ (hi.trans_le (Nat.mod_le _ _))
  have hstart : i * stride ≤ padded extent padding - window :=
    (Nat.mul_le_mul_right stride hi').trans (Nat.div_mul_le_self _ _)
  omega

/-- The windows that fit along an axis end inside its padding. -/
theorem end_le (h : count extent window stride padding = (.ok n : Except (Error α) ℕ))
    (hi : i < n) : i * stride + window ≤ extent + 2 * padding :=
  (end_le_padded h hi).trans (Nat.mod_le _ _)

end Window

namespace Pooling

variable {layer : Pooling} {i extent n y : ℕ}

theorem mem_window_iff (h : layer.padding < layer.size) :
    y ∈ layer.window i extent ↔ y < extent ∧ i * layer.stride ≤ y + layer.padding ∧
      y + layer.padding < i * layer.stride + layer.size := by
  simp only [window,Window.cells,span,List.mem_range'_1]
  omega

theorem window_eq_nil_iff (h : layer.padding < layer.size)
    (hend : i * layer.stride + layer.size ≤ extent + 2 * layer.padding) :
    layer.window i extent = [] ↔ extent = 0 := by
  constructor
  · intro hnil
    by_contra hextent
    have hfirst : i * layer.stride - layer.padding ∈ layer.window i extent := by
      rw [mem_window_iff h]
      omega
    rw [hnil] at hfirst
    cases hfirst
  · rintro rfl
    rw [List.eq_nil_iff_forall_not_mem]
    intro y hy
    exact Nat.not_lt_zero y ((mem_window_iff h).mp hy).1

/-- Where window `i` lies on an axis: it has the cells of the axis under it, ends inside the padding
at a position that is still a word, and is only empty if the axis is. -/
structure Overlaps (layer : Pooling) (i extent : ℕ) : Prop where
  cells : ∀ y, y ∈ layer.window i extent ↔ y < extent ∧ i * layer.stride ≤ y + layer.padding ∧
    y + layer.padding < i * layer.stride + layer.size
  inside : i * layer.stride + layer.size ≤ extent + 2 * layer.padding
  word : i * layer.stride + layer.size < Window.wordCount
  empty : layer.window i extent = [] ↔ extent = 0

theorem overlaps_of_count (hpadding : layer.padding < layer.size)
    (h : Window.count extent layer.size layer.stride layer.padding =
      (.ok n : Except (Error α) ℕ)) (hi : i < n) : layer.Overlaps i extent := by
  have hend := Window.end_le h hi
  have hword : Window.padded extent layer.padding < Window.wordCount :=
    Nat.mod_lt _ (by decide)
  exact ⟨fun y => mem_window_iff hpadding,hend,(Window.end_le_padded h hi).trans_lt hword,
    window_eq_nil_iff hpadding hend⟩

end Pooling

namespace PoolingTransform

variable [Scalar α] {layer : Pooling} {shape : List ℕ} {t : PoolingTransform}

theorem window_eq_nil_of_empty (hpadding : t.layer.padding < t.layer.size)
    (h : t.input.height = 0 ∨ t.input.width = 0) (i j : ℕ) : t.window i j = [] := by
  rw [window,List.eq_nil_iff_forall_not_mem]
  intro p hp
  obtain ⟨y,hy,hp⟩ := List.mem_flatMap.mp hp
  obtain ⟨z,hz,-⟩ := List.mem_map.mp hp
  have hy := ((Pooling.mem_window_iff hpadding).mp hy).1
  have hz := ((Pooling.mem_window_iff hpadding).mp hz).1
  omega

/-- The windows of a pooling layer lie inside the padding along both axes and hold the cells under
them. They hold at least one unless the image has no rows or no columns. Layers are fitted to such
images as well where the padding alone has room for a window, and a maximum then has no cell to be
taken from. -/
theorem windows_overlap (h : build layer shape = (.ok t : Except (Error α) _)) :
    t.layer = layer ∧ t.input.toList = shape ∧
    (∀ i < t.output.height, layer.Overlaps i t.input.height) ∧
    (∀ j < t.output.width, layer.Overlaps j t.input.width) ∧
    (layer.mode = .max → t.input.height = 0 ∨ t.input.width = 0 →
      ∀ (X : Interval α) (c i j : ℕ), t.forwardCell X c i j = ⟨Scalar.bottom,Scalar.bottom⟩) := by
  obtain ⟨rfl,ht,hshape⟩ := build_eq_ok h
  refine ⟨rfl,hshape,fun i hi => Pooling.overlaps_of_count ht.padding_lt ht.output_height hi,
    fun j hj => Pooling.overlaps_of_count ht.padding_lt ht.output_width hj,?_⟩
  intro hmode hempty X c i j
  simp [forwardCell,hmode,windowBounds,window_eq_nil_of_empty ht.padding_lt hempty,Scalar.greatest]

/-- A window over nothing but padding, beside three windows along an axis of three cells. -/
theorem windows_overlap_padding : ∃ t : PoolingTransform,
    build ⟨.max,3,2,2⟩ [1,0,3] = (.ok t : Except (Error Single) _) ∧ t.output = ⟨1,1,3⟩ ∧
      Pooling.window ⟨.max,3,2,2⟩ 0 0 = [] ∧ Pooling.window ⟨.max,3,2,2⟩ 2 3 = [2] ∧
      Pooling.Overlaps ⟨.max,3,2,2⟩ 0 0 ∧ Pooling.Overlaps ⟨.max,3,2,2⟩ 2 3 ∧
      t.forwardCell (Tensor.fill [1,0,3] (0 : Bound Single)) 0 0 2 =
        ⟨Single.negInfinity,Single.negInfinity⟩ := by
  obtain ⟨t,ht,hinput,houtput⟩ : ∃ t : PoolingTransform,
      build ⟨.max,3,2,2⟩ [1,0,3] = (.ok t : Except (Error Single) _) ∧ t.input = ⟨1,0,3⟩ ∧
        t.output = ⟨1,1,3⟩ := ⟨_,rfl,rfl,rfl⟩
  obtain ⟨-,-,hrows,hcolumns,hempty⟩ := windows_overlap ht
  rw [hinput,houtput] at hrows hcolumns
  rw [hinput] at hempty
  exact ⟨t,ht,houtput,by decide,by decide,hrows 0 (by decide),hcolumns 2 (by decide),
    hempty rfl (.inl rfl) _ 0 0 2⟩

end PoolingTransform
end Sensitivity
