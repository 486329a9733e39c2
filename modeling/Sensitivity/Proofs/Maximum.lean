import Sensitivity.Layer.Pooling
import Sensitivity.Proofs.Tensor
import Sensitivity.Single

/-! Greatest numbers, and the cells of a window that can hold its maximum. Only the order of numbers
matters here, so all of this holds of floats as well. -/
namespace Sensitivity

theorem Single.max_cases {x : Single} (y : Single) (hx : x ≤ x) :
    (Max.max x y = x ∧ (y ≤ y → y ≤ x)) ∨ (Max.max x y = y ∧ x ≤ y) := by
  have hx : x.isNaN = false := isNumber_iff.mp hx
  have hmax : Max.max x y = if y.isNaN then x else if x.level < y.level then y else x := by
    change Single.max x y = _
    rw [Single.max,if_neg (by simp [hx])]
  rw [hmax]
  cases hy : y.isNaN with
  | true => exact .inl ⟨rfl,fun h => absurd (isNumber_iff.mp h) (by simp [hy])⟩
  | false =>
    by_cases h : x.level < y.level
    · exact .inr ⟨by simp [h],le_iff.mpr ⟨hx,hy,h.le⟩⟩
    · exact .inl ⟨by simp [h],fun _ => le_iff.mpr ⟨hy,hx,not_lt.mp h⟩⟩

theorem Single.isNumber_of_le {x y : Single} (h : x ≤ y) : x ≤ x ∧ y ≤ y :=
  ⟨isNumber_iff.mpr (le_iff.mp h).1,isNumber_iff.mpr (le_iff.mp h).2.1⟩

namespace Scalar

/-- Only numbers are in order, zero is one of them, and of two numbers the larger one is one that the
other is not above. -/
class Ordered (α : Type) [Scalar α] : Prop where
  isNumber_zero : IsNumber (0 : α)
  isNumber_of_le : ∀ {v w : α}, v ≤ w → IsNumber v ∧ IsNumber w
  le_trans : ∀ {u v w : α}, u ≤ v → v ≤ w → u ≤ w
  max_cases : ∀ {v w : α}, IsNumber v → IsNumber w →
    (max v w = v ∧ w ≤ v) ∨ (max v w = w ∧ v ≤ w)

instance : Ordered Single where
  isNumber_zero := by decide
  isNumber_of_le := Single.isNumber_of_le
  le_trans := Single.le_trans
  max_cases {_ w} hv hw := (Single.max_cases w hv).imp_left fun h => ⟨h.1,h.2 hw⟩

variable {α : Type} [Scalar α] [Ordered α] {l : List α} {v : α}

theorem foldl_max_spec (hv : IsNumber v) (hl : ∀ w ∈ l, IsNumber w) :
    l.foldl max v ∈ v :: l ∧ ∀ w ∈ v :: l, w ≤ l.foldl max v := by
  induction l generalizing v with
  | nil => exact ⟨List.mem_singleton_self v,by simpa using hv⟩
  | cons w l ih =>
    obtain ⟨hw,hl⟩ := List.forall_mem_cons.mp hl
    rw [List.foldl_cons]
    rcases Ordered.max_cases hv hw with ⟨hlarger,hle⟩ | ⟨hlarger,hle⟩
    · rw [hlarger]
      obtain ⟨hmem,hmax⟩ := ih hv hl
      obtain ⟨hfirst,hrest⟩ := List.forall_mem_cons.mp hmax
      refine ⟨(List.mem_cons.mp hmem).elim (by simp [·]) (by simp [·]),?_⟩
      exact List.forall_mem_cons.mpr
        ⟨hfirst,List.forall_mem_cons.mpr ⟨Ordered.le_trans hle hfirst,hrest⟩⟩
    · rw [hlarger]
      obtain ⟨hmem,hmax⟩ := ih hw hl
      obtain ⟨hfirst,hrest⟩ := List.forall_mem_cons.mp hmax
      exact ⟨List.mem_cons_of_mem v hmem,List.forall_mem_cons.mpr ⟨Ordered.le_trans hle hfirst,hmax⟩⟩

theorem greatest_spec (h : l ≠ []) (hl : ∀ v ∈ l, IsNumber v) :
    greatest l ∈ l ∧ ∀ v ∈ l, v ≤ greatest l := by
  have hfilter : l.filter (fun v => IsNumber v) = l :=
    List.filter_eq_self.mpr fun v hv => decide_eq_true (hl v hv)
  cases l with
  | nil => exact absurd rfl h
  | cons v l =>
    obtain ⟨hv,hl⟩ := List.forall_mem_cons.mp hl
    simp only [greatest,hfilter]
    exact foldl_max_spec hv hl

end Scalar

namespace PoolingTransform

variable {α : Type} [Scalar α] [Scalar.Ordered α] {t : PoolingTransform} {X : Interval α}
  {c i j : ℕ} {p : ℕ × ℕ}

theorem greatest_lower_spec (hp : p ∈ t.window i j) (hX : ∀ q ∈ t.window i j,
      Scalar.IsNumber (X.at3 t.input.height t.input.width c q.1 q.2).lower) :
    (∃ q ∈ t.window i j, (X.at3 t.input.height t.input.width c q.1 q.2).lower =
        Scalar.greatest ((t.windowBounds X c i j).map Bound.lower)) ∧
      ∀ q ∈ t.window i j, (X.at3 t.input.height t.input.width c q.1 q.2).lower ≤
        Scalar.greatest ((t.windowBounds X c i j).map Bound.lower) := by
  have hends : (t.windowBounds X c i j).map Bound.lower =
      (t.window i j).map fun q => (X.at3 t.input.height t.input.width c q.1 q.2).lower := by
    rw [windowBounds,List.map_map]
    rfl
  have hne : (t.windowBounds X c i j).map Bound.lower ≠ [] := by
    rw [hends]
    exact List.ne_nil_of_mem (List.mem_map_of_mem hp)
  obtain ⟨hmem,hmax⟩ := Scalar.greatest_spec hne (by simpa only [hends,List.forall_mem_map] using hX)
  rw [hends] at hmem hmax ⊢
  exact ⟨List.mem_map.mp hmem,List.forall_mem_map.mp hmax⟩

/-- A cell can hold the maximum of a window when no lower end is above its upper end. -/
theorem mem_contenders_iff (hX : ∀ q ∈ t.window i j,
      Scalar.IsNumber (X.at3 t.input.height t.input.width c q.1 q.2).lower) :
    p ∈ t.contenders X c i j ↔ p ∈ t.window i j ∧ ∀ q ∈ t.window i j,
      (X.at3 t.input.height t.input.width c q.1 q.2).lower ≤
        (X.at3 t.input.height t.input.width c p.1 p.2).upper := by
  rw [contenders,List.mem_filter,decide_eq_true_eq]
  refine and_congr_right fun hp => ?_
  obtain ⟨⟨q,hq,hbest⟩,hmax⟩ := greatest_lower_spec hp hX
  constructor
  · exact fun hreaches q hq => Scalar.Ordered.le_trans (hmax q hq) hreaches
  · exact fun h => hbest ▸ h q hq

theorem contenders_ne_nil (hp : p ∈ t.window i j) (hX : ∀ q ∈ t.window i j,
      (X.at3 t.input.height t.input.width c q.1 q.2).lower ≤
        (X.at3 t.input.height t.input.width c q.1 q.2).upper) : t.contenders X c i j ≠ [] := by
  have hnumber : ∀ q ∈ t.window i j,
      Scalar.IsNumber (X.at3 t.input.height t.input.width c q.1 q.2).lower :=
    fun q hq => (Scalar.Ordered.isNumber_of_le (hX q hq)).1
  obtain ⟨⟨q,hq,hbest⟩,hmax⟩ := greatest_lower_spec hp hnumber
  refine List.ne_nil_of_mem (a := q) ((mem_contenders_iff hnumber).mpr ⟨hq,fun q' hq' => ?_⟩)
  exact Scalar.Ordered.le_trans (hmax q' hq') (hbest ▸ hX q hq)

end PoolingTransform
end Sensitivity
