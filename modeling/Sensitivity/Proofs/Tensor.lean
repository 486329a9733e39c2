import Sensitivity.Tensor
import Sensitivity.Proofs.Error
import Mathlib.Algebra.BigOperators.Group.List.Lemmas
import Mathlib.Algebra.BigOperators.Ring.List
import Mathlib.Tactic.Ring

/-! What the operations on tensors give, cell by cell. An operation that can fail has one
statement: it ends well exactly under a condition on shapes, and then with one result. -/
namespace Sensitivity
namespace Tensor

variable {α β γ δ : Type}

@[simp] theorem shape_ofArray (cells : Array β) : (ofArray cells).shape = [cells.size] := rfl

@[simp] theorem shape_flatten (t : Tensor β) : t.flatten.shape = [t.shape.prod] := by
  simp [flatten,t.size_cells]

theorem size_eq (t : Tensor β) : t.size = t.shape.prod := t.size_cells

theorem checkAxis_eq_ok_iff {t : Tensor β} {axis : ℕ} {u : Unit} :
    t.checkAxis axis = (.ok u : Except (Error α) _) ↔ axis < t.rank := by
  unfold checkAxis
  split <;> simp_all

theorem exists_zip (f : β → γ → δ) {s : Tensor β} {t : Tensor γ} (h : s.shape = t.shape) :
    ∃ r, zip f s t = (.ok r : Except (Error α) _) := by
  unfold zip
  exact ⟨_,dif_pos h⟩

/-- A shape without empty axes is addressable as soon as its flat form is, also behind rows. -/
theorem addressable_flat {rows : ℕ} {shape : List ℕ} (h : shape.prod ≠ 0) :
    Addressable [rows,shape.prod] ↔ Addressable (rows :: shape) := by
  have hfilter : shape.filter (· ≠ 0) = shape := by
    rw [List.filter_eq_self]
    intro n hn
    have hne : n ≠ 0 := by
      rintro rfl
      exact h (List.prod_eq_zero hn)
    simpa using hne
  unfold Addressable
  by_cases hrows : rows = 0 <;> simp only [List.filter_cons,hrows,h,hfilter,ne_eq,not_true,
    not_false_eq_true,decide_true,decide_false,List.filter_nil,List.prod_cons,List.prod_nil,
    Nat.mul_one,if_true,if_false,Bool.false_eq_true]

theorem Addressable.mem_lt {shape : List ℕ} (h : Addressable shape) {n : ℕ} (hn : n ∈ shape) :
    n < sizeLimit := by
  by_cases hzero : n = 0
  · subst hzero
    decide
  · have hmem : n ∈ shape.filter (· ≠ 0) := List.mem_filter.mpr ⟨hn,by simpa using hzero⟩
    have hprod : (shape.filter (· ≠ 0)).prod ≠ 0 := by
      intro hp
      have := List.prod_eq_zero_iff.mp hp
      simp at this
    exact (Nat.le_of_dvd (Nat.pos_of_ne_zero hprod) (List.dvd_prod hmem)).trans_lt h

theorem Addressable.prod_lt {shape : List ℕ} (h : Addressable shape) : shape.prod < sizeLimit := by
  by_cases hzero : 0 ∈ shape
  · rw [List.prod_eq_zero hzero]
    decide
  · have hfilter : shape.filter (· ≠ 0) = shape :=
      List.filter_eq_self.mpr fun n hn => decide_eq_true fun h0 => hzero (h0 ▸ hn)
    rw [← hfilter]
    exact h

theorem exists_reshape {t : Tensor β} {shape : List ℕ} (h : t.shape.prod = shape.prod)
    (ha : Addressable shape) : ∃ r, t.reshape shape = (.ok r : Except (Error α) _) := by
  unfold reshape
  rw [dif_pos h]
  exact ⟨_,if_pos ha⟩

theorem ofFn_congr {shape : List ℕ} {f g : ℕ → β} (h : ∀ i < shape.prod, f i = g i) :
    ofFn shape f = ofFn shape g := by
  refine ext rfl ?_
  simp only [ofFn]
  congr 1
  funext i
  exact h i i.isLt

variable [Inhabited β] [Inhabited γ] [Inhabited δ]

theorem read_of_le (t : Tensor β) {i : ℕ} (h : t.shape.prod ≤ i) : t.read i = default := by
  simp [read,Array.getD,t.size_cells,h]

theorem read_eq_getElem (t : Tensor β) {i : ℕ} (h : i < t.cells.size) : t.read i = t.cells[i] := by
  simp [read,Array.getD,h]

theorem mem_toList_iff {t : Tensor β} {b : β} : b ∈ t.toList ↔ ∃ i < t.shape.prod, t.read i = b := by
  rw [toList,Array.mem_toList_iff,Array.mem_iff_getElem,← t.size_cells]
  constructor
  · rintro ⟨i,hi,rfl⟩
    exact ⟨i,hi,t.read_eq_getElem hi⟩
  · rintro ⟨i,hi,rfl⟩
    exact ⟨i,hi,(t.read_eq_getElem hi).symm⟩

theorem ext_read {s t : Tensor β} (hshape : s.shape = t.shape)
    (hread : ∀ i < s.shape.prod, s.read i = t.read i) : s = t := by
  refine ext hshape (Array.ext ?_ ?_)
  · rw [s.size_cells,t.size_cells,hshape]
  · intro i hs ht
    rw [← read_eq_getElem s hs,← read_eq_getElem t ht]
    exact hread i (s.size_cells ▸ hs)

theorem read_map (f : β → γ) (t : Tensor β) {i : ℕ} (h : i < t.shape.prod) :
    (t.map f).read i = f (t.read i) := by
  have hs : i < t.cells.size := t.size_cells ▸ h
  rw [read_eq_getElem t hs,read_eq_getElem (t.map f) (by simpa [map] using hs)]
  simp [map]

theorem read_mapPositions (f : ℕ → β → β) (t : Tensor β) {i : ℕ} (h : i < t.shape.prod) :
    (t.mapPositions f).read i = f i (t.read i) := by
  have hs : i < t.cells.size := t.size_cells ▸ h
  rw [read_eq_getElem t hs,read_eq_getElem (t.mapPositions f) (by simpa [mapPositions] using hs)]
  simp [mapPositions]

@[simp] theorem read_ofArray (cells : Array β) (i : ℕ) :
    (ofArray cells).read i = cells.getD i default := rfl

@[simp] theorem read_flatten (t : Tensor β) (i : ℕ) : t.flatten.read i = t.read i := rfl

theorem zip_eq_ok_iff {f : β → γ → δ} {s : Tensor β} {t : Tensor γ} {r : Tensor δ} :
    zip f s t = (.ok r : Except (Error α) _) ↔
      s.shape = t.shape ∧ r.shape = s.shape ∧
        ∀ i < s.shape.prod, r.read i = f (s.read i) (t.read i) := by
  unfold zip
  split
  next h =>
    have hread : ∀ i < s.shape.prod, (⟨s.shape,Array.zipWith f s.cells t.cells,
        by simp [s.size_cells,t.size_cells,h]⟩ : Tensor δ).read i = f (s.read i) (t.read i) := by
      intro i hi
      have hs : i < s.cells.size := s.size_cells ▸ hi
      have ht : i < t.cells.size := by rw [t.size_cells,← h]; exact hi
      rw [read_eq_getElem s hs,read_eq_getElem t ht,read_eq_getElem _ (by simp [hs,ht])]
      simp
    rw [Except.ok.injEq]
    constructor
    · rintro rfl
      exact ⟨h,rfl,hread⟩
    · rintro ⟨-,hshape,hr⟩
      exact ext_read hshape.symm fun i hi => (hread i hi).trans (hr i hi).symm
  next h => simp [h]

theorem reshape_eq_ok_iff {t r : Tensor β} {shape : List ℕ} :
    t.reshape shape = (.ok r : Except (Error α) _) ↔
      t.shape.prod = shape.prod ∧ Addressable shape ∧ r.shape = shape ∧
        ∀ i < shape.prod, r.read i = t.read i := by
  unfold reshape
  split
  next h =>
    split
    next ha =>
      rw [Except.ok.injEq]
      constructor
      · rintro rfl
        exact ⟨h,ha,rfl,fun i _ => rfl⟩
      · rintro ⟨-,-,hshape,hr⟩
        exact ext_read hshape.symm fun i hi => (hr i hi).symm
    next ha => simp [ha]
  next h => simp [h]

theorem slice_eq_ok_iff {t r : Tensor β} {axis start stop : ℕ} :
    t.slice axis start stop = (.ok r : Except (Error α) _) ↔
      axis < t.rank ∧ start ≤ stop ∧ stop ≤ t.extent axis ∧
        r = ofFn (t.shape.set axis (stop - start)) fun i =>
          t.read (axisPosition (t.extent axis) (inner t.shape axis)
            (i / inner t.shape axis / (stop - start))
            (start + i / inner t.shape axis % (stop - start)) (i % inner t.shape axis)) := by
  simp only [slice,Error.bind_eq_ok_iff,checkAxis_eq_ok_iff]
  constructor
  · rintro ⟨-,haxis,h⟩
    split at h
    next hrange => exact ⟨haxis,hrange.1,hrange.2,(Error.pure_eq_ok_iff.mp h).symm⟩
    next => cases h
  · rintro ⟨haxis,hstart,hstop,hr⟩
    refine ⟨(),haxis,?_⟩
    rw [if_pos ⟨hstart,hstop⟩]
    exact Error.pure_eq_ok_iff.mpr hr.symm

theorem concat_eq_ok_iff {parts : List (Tensor β)} {axis : ℕ} {r : Tensor β} :
    concat parts axis = (.ok r : Except (Error α) _) ↔
      ∃ first rest, parts = first :: rest ∧ axis < first.rank ∧
        (∀ p ∈ rest, p.rank = first.rank ∧
          crossSection p.shape axis = crossSection first.shape axis) ∧
        Addressable (first.shape.set axis (parts.map (·.extent axis)).sum) ∧
        r = ofFn (first.shape.set axis (parts.map (·.extent axis)).sum) fun i =>
          sideBySide axis (i / inner first.shape axis / (parts.map (·.extent axis)).sum)
            (i % inner first.shape axis) parts
            (i / inner first.shape axis % (parts.map (·.extent axis)).sum) := by
  unfold concat
  cases parts with
  | nil => simp
  | cons first rest =>
    simp only [Error.bind_eq_ok_iff,checkAxis_eq_ok_iff,List.cons.injEq]
    constructor
    · rintro ⟨-,haxis,h⟩
      split at h
      · cases h
      next hfind =>
        rw [allocate_eq_ok_iff] at h
        refine ⟨first,rest,⟨rfl,rfl⟩,haxis,?_,h.1,h.2⟩
        intro p hp
        simpa [not_or] using List.find?_eq_none.mp hfind p hp
    · rintro ⟨first',rest',⟨rfl,rfl⟩,haxis,hrest,ha,hr⟩
      refine ⟨(),haxis,?_⟩
      have hfind : rest.find? (fun p => decide (p.rank ≠ first.rank ∨
          crossSection p.shape axis ≠ crossSection first.shape axis)) = none := by
        rw [List.find?_eq_none]
        intro p hp
        simpa [not_or] using hrest p hp
      rw [hfind]
      exact (allocate_eq_ok_iff _ _ _ _).mpr ⟨ha,hr⟩

end Tensor
end Sensitivity
