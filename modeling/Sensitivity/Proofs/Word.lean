import Sensitivity.Plan
import Sensitivity.Proofs.Shape.Layer
import Mathlib.Data.Set.Card

/-! Words. Extents are kept in words, and so are the sums and products that they enter. A number of
windows and the area of a window are what they stand for as long as no sum or product on the way is
too large for a word. -/
namespace Sensitivity

variable {α : Type}

namespace Window

variable {extent window stride padding n : ℕ}

theorem lt_wordCount (h : n < 2 ^ (63 : ℕ)) : n < wordCount := h.trans (by decide)

theorem margins_lt_wordCount (h : padding < 2 ^ (63 : ℕ)) : 2 * padding < wordCount := by
  have hword : wordCount = 2 * 2 ^ (63 : ℕ) := rfl
  omega

/-- The windows that end inside the padding, whatever a word can hold. -/
def fitting (extent window stride padding : ℕ) : Set ℕ :=
  {i | i * stride + window ≤ extent + 2 * padding}

@[simp] theorem mem_fitting {i : ℕ} :
    i ∈ fitting extent window stride padding ↔ i * stride + window ≤ extent + 2 * padding :=
  Iff.rfl

/-- Every product and sum on the way to the number of windows is a word. -/
structure InWords (extent window stride padding : ℕ) : Prop where
  margins : 2 * padding < wordCount
  padded : extent + 2 * padding < wordCount
  number : window ≤ extent + 2 * padding →
    (extent + 2 * padding - window) / stride + 1 < wordCount

instance (extent window stride padding : ℕ) : Decidable (InWords extent window stride padding) :=
  decidable_of_iff (2 * padding < wordCount ∧ extent + 2 * padding < wordCount ∧
      (window ≤ extent + 2 * padding →
        (extent + 2 * padding - window) / stride + 1 < wordCount))
    ⟨fun h => ⟨h.1,h.2.1,h.2.2⟩,fun h => ⟨h.margins,h.padded,h.number⟩⟩

/-- There is a number of windows exactly if one fits, and it is the number of those that fit. -/
structure Counted (α : Type) (extent window stride padding : ℕ) : Prop where
  isOk : (∃ n, (count extent window stride padding : Except (Error α) ℕ) = .ok n) ↔
    window ≤ extent + 2 * padding
  number : ∀ n, (count extent window stride padding : Except (Error α) ℕ) = .ok n →
    (fitting extent window stride padding).encard = n

/-- Windows fit, but none are found, or too few. -/
structure Undercounted (α : Type) (extent window stride padding : ℕ) : Prop where
  fits : window ≤ extent + 2 * padding
  number : ∀ n, (count extent window stride padding : Except (Error α) ℕ) = .ok n →
    n < (fitting extent window stride padding).encard

theorem fitting_eq_Iio (hstride : stride ≠ 0) (hfits : window ≤ extent + 2 * padding) :
    fitting extent window stride padding =
      Set.Iio ((extent + 2 * padding - window) / stride + 1) := by
  ext i
  have hquotient : i < (extent + 2 * padding - window) / stride + 1 ↔
      i * stride ≤ extent + 2 * padding - window := by
    rw [Nat.lt_succ_iff,Nat.le_div_iff_mul_le (Nat.pos_of_ne_zero hstride)]
  rw [mem_fitting,Set.mem_Iio,hquotient]
  omega

theorem encard_fitting (hstride : stride ≠ 0) (hfits : window ≤ extent + 2 * padding) :
    (fitting extent window stride padding).encard =
      ((extent + 2 * padding - window) / stride + 1 : ℕ) := by
  rw [fitting_eq_Iio hstride hfits,← Finset.coe_range,Set.encard_coe_eq_coe_finsetCard,
    Finset.card_range]

theorem padded_of_inWords (h : InWords extent window stride padding) :
    Window.padded extent padding = extent + 2 * padding :=
  Nat.mod_eq_of_lt h.padded

theorem counted_of_inWords (hstride : stride ≠ 0) (h : InWords extent window stride padding) :
    Counted α extent window stride padding := by
  constructor
  · constructor
    · rintro ⟨n,hn⟩
      exact padded_of_inWords h ▸ (count_eq_ok_iff.mp hn).1
    · intro hfits
      exact ⟨_,count_eq_ok_iff.mpr ⟨(padded_of_inWords h).symm ▸ hfits,rfl⟩⟩
  · intro n hn
    obtain ⟨hfits,rfl⟩ := count_eq_ok_iff.mp hn
    rw [padded_of_inWords h] at hfits ⊢
    rw [encard_fitting hstride hfits,Nat.mod_eq_of_lt (h.number hfits)]

/-- A padded extent that is too large for a word loses at least the windows of a whole stride. -/
theorem lt_number_of_le (hstride : stride ≠ 0) (hsmall : stride < wordCount)
    (hlarge : wordCount ≤ extent + 2 * padding)
    (hn : (count extent window stride padding : Except (Error α) ℕ) = .ok n) :
    n < (extent + 2 * padding - window) / stride + 1 := by
  obtain ⟨hfits,rfl⟩ := count_eq_ok_iff.mp hn
  have hpos : 0 < stride := Nat.pos_of_ne_zero hstride
  have hpadded : Window.padded extent padding ≤ extent + 2 * padding - wordCount := by
    rw [Window.padded,Nat.mod_eq_sub_mod hlarge]
    exact Nat.mod_le _ _
  calc ((Window.padded extent padding - window) / stride + 1) % wordCount
      ≤ (Window.padded extent padding - window) / stride + 1 := Nat.mod_le _ _
    _ = (Window.padded extent padding - window + stride) / stride :=
        (Nat.add_div_right _ hpos).symm
    _ ≤ (extent + 2 * padding - window) / stride := Nat.div_le_div_right (by omega)
    _ < (extent + 2 * padding - window) / stride + 1 := Nat.lt_succ_self _

theorem undercounted_of_not_inWords (hstride : stride ≠ 0) (hsmall : stride < wordCount)
    (hwindow : window < wordCount) (hmargins : 2 * padding < wordCount)
    (h : ¬ InWords extent window stride padding) : Undercounted α extent window stride padding := by
  by_cases hpadded : extent + 2 * padding < wordCount
  · obtain ⟨hfits,hnumber⟩ : window ≤ extent + 2 * padding ∧
        wordCount ≤ (extent + 2 * padding - window) / stride + 1 := by
      by_contra hcontra
      exact h ⟨hmargins,hpadded,fun hfits => by omega⟩
    refine ⟨hfits,fun n hn => ?_⟩
    obtain ⟨-,rfl⟩ := count_eq_ok_iff.mp hn
    rw [encard_fitting hstride hfits,Nat.cast_lt]
    exact (Nat.mod_lt _ (by decide)).trans_le hnumber
  · have hlarge := not_lt.mp hpadded
    have hfits : window ≤ extent + 2 * padding := hwindow.le.trans hlarge
    refine ⟨hfits,fun n hn => ?_⟩
    rw [encard_fitting hstride hfits,Nat.cast_lt]
    exact lt_number_of_le hstride hsmall hlarge hn

/-- Besides the padded extent only the number of empty windows, one at each position, can be too
large. -/
theorem inWords_iff (hstride : stride ≠ 0) (hmargins : 2 * padding < wordCount) :
    InWords extent window stride padding ↔ extent + 2 * padding < wordCount ∧
      (window = 0 → stride = 1 → extent + 2 * padding + 1 < wordCount) := by
  constructor
  · intro h
    refine ⟨h.padded,?_⟩
    rintro rfl rfl
    simpa using h.number (Nat.zero_le _)
  · rintro ⟨hpadded,hempty⟩
    refine ⟨hmargins,hpadded,fun hfits => ?_⟩
    have hle : (extent + 2 * padding - window) / stride ≤ extent + 2 * padding - window :=
      Nat.div_le_self _ _
    obtain hzero | hpos := Nat.eq_zero_or_pos window
    · obtain rfl | hone := eq_or_ne stride 1
      · have := hempty hzero rfl
        omega
      · have hhalf : (extent + 2 * padding - window) / stride ≤
            (extent + 2 * padding - window) / 2 := Nat.div_le_div_left (by omega) (by omega)
        have hword : 2 < wordCount := by decide
        omega
    · omega

end Window

structure Windows where
  height : ℕ
  width : ℕ
  stride : ℕ
  padding : ℕ

def Operation.windows? : Operation α → Option Windows
  | .convolution layer => some ⟨layer.height,layer.width,layer.stride,layer.padding⟩
  | .pooling layer => some ⟨layer.size,layer.size,layer.stride,layer.padding⟩
  | _ => none

namespace Windows

/-- The sums along both axes of an image are words. -/
def InWords (w : Windows) (image : ImageShape) : Prop :=
  Window.InWords image.height w.height w.stride w.padding ∧
    Window.InWords image.width w.width w.stride w.padding

instance (w : Windows) (image : ImageShape) : Decidable (w.InWords image) :=
  inferInstanceAs (Decidable (_ ∧ _))

end Windows

/-- The number of cells of an averaging window is a word. -/
def Pooling.AreaInWord (layer : Pooling) : Prop :=
  layer.mode = .avg → layer.size * layer.size < Window.wordCount

theorem PoolingTransform.area_eq_mul {t : PoolingTransform} (hmode : t.layer.mode = .avg)
    (h : t.layer.AreaInWord) : t.area = t.layer.size * t.layer.size :=
  Nat.mod_eq_of_lt (h hmode)

/-- Whatever a layer computes from extents is a word. -/
def Transform.InWords (t : Transform α) : Prop :=
  match t with
  | .convolution t =>
    (Windows.mk t.layer.height t.layer.width t.layer.stride t.layer.padding).InWords t.input
  | .pooling t =>
    (Windows.mk t.layer.size t.layer.size t.layer.stride t.layer.padding).InWords t.input ∧
      t.layer.AreaInWord
  | _ => True

instance (layer : Pooling) : Decidable layer.AreaInWord := inferInstanceAs (Decidable (_ → _))

instance : (t : Transform α) → Decidable t.InWords
  | .convolution t =>
    inferInstanceAs (Decidable (Windows.InWords ⟨t.layer.height,_,_,_⟩ t.input))
  | .pooling t => inferInstanceAs (Decidable (Windows.InWords ⟨t.layer.size,_,_,_⟩ t.input ∧ _))
  | .dense _ | .responseNorm _ | .relu | .softmax | .dropout _ => inferInstanceAs (Decidable True)

/-- Whatever the layers of a network compute from extents is a word. -/
def Engine.InWords (e : Engine α) : Prop := ∀ entry ∈ e.listing, ∀ t ∈ entry.2, t.InWords

instance (e : Engine α) : Decidable e.InWords :=
  inferInstanceAs (Decidable (∀ entry ∈ e.listing, ∀ t ∈ entry.2, t.InWords))

/-- The area of an averaging window is not zero as a word. -/
def Transform.HasArea (t : Transform α) : Prop :=
  match t with
  | .pooling t => t.layer.mode = .avg → t.area ≠ 0
  | _ => True

instance : (t : Transform α) → Decidable t.HasArea
  | .pooling t => inferInstanceAs (Decidable (t.layer.mode = .avg → t.area ≠ 0))
  | .dense _ | .convolution _ | .responseNorm _ | .relu | .softmax | .dropout _ =>
    inferInstanceAs (Decidable True)

def Engine.HasAreas (e : Engine α) : Prop := ∀ entry ∈ e.listing, ∀ t ∈ entry.2, t.HasArea

instance (e : Engine α) : Decidable e.HasAreas :=
  inferInstanceAs (Decidable (∀ entry ∈ e.listing, ∀ t ∈ entry.2, t.HasArea))

theorem Transform.InWords.hasArea [Scalar α] {t : Transform α} {shape out : List ℕ} (h : t.InWords)
    (ht : t.Fits shape out) : t.HasArea := by
  cases t with
  | pooling t =>
    intro hmode
    rw [PoolingTransform.area_eq_mul hmode h.2]
    exact Nat.mul_ne_zero ht.1.size_ne_zero ht.1.size_ne_zero
  | _ => trivial

end Sensitivity
