import Sensitivity.Proofs.Tensor
import Mathlib.Data.List.Forall2

/-! Tensors related cell by cell. Operations that only move cells keep any relation between the
cells of two tensors; the others keep it when they keep it at one cell. -/
namespace Sensitivity
namespace Tensor

variable {α β β' β'' γ γ' γ'' : Type} [Inhabited β] [Inhabited β'] [Inhabited β''] [Inhabited γ]
  [Inhabited γ'] [Inhabited γ'']

/-- Tensors of one shape, each cell of the first one related to that of the second one. -/
structure Rel (R : β → γ → Prop) (s : Tensor β) (t : Tensor γ) : Prop where
  shape : s.shape = t.shape
  cells : ∀ i < t.shape.prod, R (s.read i) (t.read i)

variable {R : β → γ → Prop} {R' : β' → γ' → Prop} {R'' : β'' → γ'' → Prop} {s : Tensor β}
  {t : Tensor γ} {s' : Tensor β'} {t' : Tensor γ'}

theorem rel_eq (s : Tensor β) : Rel (· = ·) s s := ⟨rfl,fun _ _ => rfl⟩

theorem rel_ofFn {shape : List ℕ} {f : ℕ → β} {g : ℕ → γ} (h : ∀ i < shape.prod, R (f i) (g i)) :
    Rel R (ofFn shape f) (ofFn shape g) := by
  refine ⟨rfl,fun i hi => ?_⟩
  have hi : i < shape.prod := hi
  rw [read_ofFn _ _ hi,read_ofFn _ _ hi]
  exact h i hi

namespace Rel

theorem read (h : Rel R s t) (hdefault : R default default) (i : ℕ) : R (s.read i) (t.read i) := by
  by_cases hi : i < t.shape.prod
  · exact h.cells i hi
  · rw [read_of_le t (not_lt.mp hi),read_of_le s (h.shape ▸ not_lt.mp hi)]
    exact hdefault

theorem map (h : Rel R s t) {f : β → β'} {g : γ → γ'} (hfg : ∀ b c, R b c → R' (f b) (g c)) :
    Rel R' (s.map f) (t.map g) := by
  refine ⟨h.shape,fun i hi => ?_⟩
  have hi : i < t.shape.prod := hi
  rw [read_map f s (h.shape ▸ hi),read_map g t hi]
  exact hfg _ _ (h.cells i hi)

theorem zip (h : Rel R s t) (h' : Rel R' s' t') {f : β → β' → β''} {g : γ → γ' → γ''}
    (hfg : ∀ b c b' c', R b c → R' b' c' → R'' (f b b') (g c c')) {r : Tensor β''} {u : Tensor γ''}
    (hr : Tensor.zip f s s' = (.ok r : Except (Error α) _))
    (hu : Tensor.zip g t t' = (.ok u : Except (Error α) _)) : Rel R'' r u := by
  obtain ⟨-,hrshape,hrcells⟩ := zip_eq_ok_iff.mp hr
  obtain ⟨hsame,hushape,hucells⟩ := zip_eq_ok_iff.mp hu
  refine ⟨by rw [hrshape,hushape,h.shape],fun i hi => ?_⟩
  rw [hushape] at hi
  rw [hrcells i (h.shape ▸ hi),hucells i hi]
  exact hfg _ _ _ _ (h.cells i hi) (h'.cells i (hsame ▸ hi))

theorem reshape (h : Rel R s t) {shape : List ℕ} {r : Tensor β} {u : Tensor γ}
    (hr : s.reshape shape = (.ok r : Except (Error α) _))
    (hu : t.reshape shape = (.ok u : Except (Error α) _)) : Rel R r u := by
  obtain ⟨-,-,hrshape,hrcells⟩ := reshape_eq_ok_iff.mp hr
  obtain ⟨hsize,-,hushape,hucells⟩ := reshape_eq_ok_iff.mp hu
  refine ⟨hrshape.trans hushape.symm,fun i hi => ?_⟩
  rw [hushape] at hi
  rw [hrcells i hi,hucells i hi]
  exact h.cells i (hsize ▸ hi)

theorem slice (h : Rel R s t) (hdefault : R default default) {axis start stop : ℕ} {r : Tensor β}
    {u : Tensor γ} (hr : s.slice axis start stop = (.ok r : Except (Error α) _))
    (hu : t.slice axis start stop = (.ok u : Except (Error α) _)) : Rel R r u := by
  obtain ⟨-,-,-,rfl⟩ := slice_eq_ok_iff.mp hr
  obtain ⟨-,-,-,rfl⟩ := slice_eq_ok_iff.mp hu
  have hextent : s.extent axis = t.extent axis := congrArg (·.getD axis 0) h.shape
  rw [h.shape,hextent]
  exact rel_ofFn fun i _ => h.read hdefault _

end Rel

theorem rel_sideBySide {ss : List (Tensor β)} {ts : List (Tensor γ)}
    (h : List.Forall₂ (Rel R) ss ts) (hdefault : R default default) (axis o k j : ℕ) :
    R (sideBySide axis o k ss j) (sideBySide axis o k ts j) := by
  induction h generalizing j with
  | nil => exact hdefault
  | @cons s t _ _ hs _ ih =>
    have hextent : s.extent axis = t.extent axis := congrArg (·.getD axis 0) hs.shape
    simp only [sideBySide,hextent,hs.shape]
    by_cases hj : j < t.extent axis
    · rw [if_pos hj,if_pos hj]
      exact hs.read hdefault _
    · rw [if_neg hj,if_neg hj]
      exact ih _

theorem shapes_of_rel {ss : List (Tensor β)} {ts : List (Tensor γ)}
    (h : List.Forall₂ (Rel R) ss ts) : ss.map shape = ts.map shape := by
  rw [← List.forall₂_eq_eq_eq,List.forall₂_map_left_iff,List.forall₂_map_right_iff]
  exact h.imp fun _ _ h => h.shape

theorem rel_concat {ss : List (Tensor β)} {ts : List (Tensor γ)} (h : List.Forall₂ (Rel R) ss ts)
    (hdefault : R default default) {axis : ℕ} {r : Tensor β} {u : Tensor γ}
    (hr : concat ss axis = (.ok r : Except (Error α) _))
    (hu : concat ts axis = (.ok u : Except (Error α) _)) : Rel R r u := by
  obtain ⟨first,rest,rfl,-,-,-,rfl⟩ := concat_eq_ok_iff.mp hr
  obtain ⟨first',rest',rfl,-,-,-,rfl⟩ := concat_eq_ok_iff.mp hu
  obtain ⟨hfirst,-⟩ := List.forall₂_cons.mp h
  have hextents := congrArg (List.map fun shape => shape.getD axis 0) (shapes_of_rel h)
  rw [List.map_map,List.map_map] at hextents
  have hextents : (first :: rest).map (extent · axis) = (first' :: rest').map (extent · axis) :=
    hextents
  rw [hextents,hfirst.shape]
  exact rel_ofFn fun i _ => rel_sideBySide h hdefault _ _ _ _

end Tensor
end Sensitivity
