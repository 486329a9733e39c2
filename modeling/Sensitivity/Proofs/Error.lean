import Sensitivity.Error
import Mathlib.Data.List.Forall2

/-! Computations that end without an error, and those that end in one. A chain of steps ends well
exactly when each of its steps does, and otherwise in the error of one step; naming the layer of an
error changes no result, and names no layer twice. -/
namespace Sensitivity
namespace Error

variable {ε α β γ : Type}

theorem bind_eq_ok_iff {x : Except ε β} {f : β → Except ε γ} {c : γ} :
    (x >>= f) = .ok c ↔ ∃ b, x = .ok b ∧ f b = .ok c := by
  cases x <;> simp [bind,Except.bind]

theorem bind_eq_error_iff {x : Except ε β} {f : β → Except ε γ} {e : ε} :
    (x >>= f) = .error e ↔ x = .error e ∨ ∃ b, x = .ok b ∧ f b = .error e := by
  cases x <;> simp [bind,Except.bind]

theorem exists_error_iff {x : Except ε β} : (∃ e, x = .error e) ↔ ¬ ∃ b, x = .ok b := by
  cases x <;> simp

theorem pure_eq_ok_iff {b c : β} : (pure b : Except ε β) = .ok c ↔ b = c := by
  simp [pure,Except.pure]

theorem map_eq_ok_iff {f : β → γ} {x : Except ε β} {c : γ} :
    (f <$> x) = .ok c ↔ ∃ b, x = .ok b ∧ f b = c := by
  cases x <;> simp [Functor.map,Except.map]

theorem exists_of_isOk {x : Except ε β} (h : x.isOk) : ∃ b, x = .ok b := by
  cases x with
  | error => cases h
  | ok b => exact ⟨b,rfl⟩

theorem exists_of_any {x : Except ε β} {p : β → Bool} (h : x.toOption.any p) :
    ∃ b, x = .ok b ∧ p b := by
  cases x with
  | error => cases h
  | ok b => exact ⟨b,rfl,h⟩

@[simp] theorem within_ok (index : Nat) (path : String) (b : β) :
    within index path (.ok b : Except (Error α) β) = .ok b := rfl

theorem within_eq_ok_iff {index : Nat} {path : String} {x : Except (Error α) β} {b : β} :
    within index path x = .ok b ↔ x = .ok b := by
  cases x <;> simp [within,Except.mapError]

theorem foldlM_cons_eq_ok_iff {f : γ → β → Except ε γ} {s t : γ} {b : β} {bs : List β} :
    (b :: bs).foldlM f s = .ok t ↔ ∃ u, f s b = .ok u ∧ bs.foldlM f u = .ok t := by
  rw [List.foldlM_cons,bind_eq_ok_iff]

theorem mapM_eq_ok_iff {f : β → Except ε γ} {bs : List β} {cs : List γ} :
    bs.mapM f = .ok cs ↔ List.Forall₂ (fun b c => f b = .ok c) bs cs := by
  induction bs generalizing cs with
  | nil =>
    rw [List.mapM_nil,pure_eq_ok_iff]
    constructor
    · rintro rfl
      exact .nil
    · intro h
      cases h
      rfl
  | cons b bs ih =>
    rw [List.mapM_cons,bind_eq_ok_iff]
    simp only [bind_eq_ok_iff,pure_eq_ok_iff,ih]
    constructor
    · rintro ⟨c,hc,cs,hcs,rfl⟩
      exact .cons hc hcs
    · intro h
      cases h with
      | cons hc hcs => exact ⟨_,hc,_,hcs,rfl⟩

def IsInLayer : Error α → Prop
  | .inLayer .. => True
  | _ => False

/-- Every error of a computation is yet to be given a layer. -/
def Plain (x : Except (Error α) β) : Prop := ∀ e, x = .error e → ¬ e.IsInLayer

theorem plain_ok (b : β) : Plain (.ok b : Except (Error α) β) := fun _ h => by cases h

theorem plain_error {e : Error α} (h : ¬ e.IsInLayer) : Plain (.error e : Except (Error α) β) :=
  fun _ he => Except.error.inj he ▸ h

theorem Plain.bind {x : Except (Error α) β} {f : β → Except (Error α) γ} (hx : Plain x)
    (hf : ∀ b, Plain (f b)) : Plain (x >>= f) := by
  intro e he
  rcases bind_eq_error_iff.mp he with he | ⟨b,-,he⟩
  · exact hx e he
  · exact hf b e he

theorem plain_ite {c : Prop} [Decidable c] {x y : Except (Error α) β} (hx : Plain x)
    (hy : Plain y) : Plain (if c then x else y) := by
  split
  · exact hx
  · exact hy

theorem atLayer_of_plain {e : Error α} (h : ¬ e.IsInLayer) (index : Nat) (path : String) :
    e.atLayer index path = .inLayer index path e := by
  cases e <;> first | rfl | exact absurd trivial h

theorem within_eq_error_iff {index : Nat} {path : String} {x : Except (Error α) β} {e : Error α} :
    within index path x = .error e ↔ ∃ cause, x = .error cause ∧ cause.atLayer index path = e := by
  cases x <;> simp [within,Except.mapError]

end Error
end Sensitivity
