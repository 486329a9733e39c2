import Sensitivity.Proofs.Json.Text
import Mathlib.Data.List.Forall2

/-! Records and lists that are written are read again. Each field of a record is found in the object
that its present fields make, and each item of a list is read by itself. -/
namespace Sensitivity.Json

theorem mapM_eq_some_iff {β γ : Type} {f : β → Option γ} {bs : List β} {cs : List γ} :
    bs.mapM f = some cs ↔ List.Forall₂ (fun b c => f b = some c) bs cs := by
  induction bs generalizing cs with
  | nil => cases cs <;> simp
  | cons b bs ih =>
    cases cs with
    | nil => simp [List.mapM_cons,Option.bind_eq_some_iff]
    | cons c cs => simp [List.mapM_cons,Option.bind_eq_some_iff,ih]

theorem mapM_eq_some {β γ : Type} {f : β → Option γ} {bs : List β} {g : β → γ}
    (h : ∀ b ∈ bs, f b = some (g b)) : bs.mapM f = some (bs.map g) := by
  rw [mapM_eq_some_iff,List.forall₂_map_right_iff,List.forall₂_same]
  exact h

theorem exists_of_mapM {β γ : Type} {f : β → Option γ} {bs : List β} {cs : List γ}
    (h : bs.mapM f = some cs) {b : β} (hb : b ∈ bs) : ∃ c, f b = some c := by
  induction mapM_eq_some_iff.mp h with
  | nil => cases hb
  | cons hc _ ih =>
    rcases List.mem_cons.mp hb with rfl | hb
    · exact ⟨_,hc⟩
    · exact ih (mapM_eq_some_iff.mpr ‹_›) hb

section

variable {β γ : Type} {f : ℕ → Json → Option β} {room : ℕ} {write : γ → Json} {xs : List γ}

theorem toList?_array (items : List Json) :
    toList? f (room + 1) (.array items) = items.mapM (f room) := rfl

/-- A list of values that are each read again is read again. -/
theorem toList?_map {g : γ → β} (h : ∀ x ∈ xs, f room (write x) = some (g x)) :
    toList? f (room + 1) (.array (xs.map write)) = some (xs.map g) := by
  rw [toList?_array,List.mapM_map]
  exact mapM_eq_some h

theorem of_toList?_map {ys : List β} (h : toList? f room (.array (xs.map write)) = some ys) :
    ∃ inner, room = inner + 1 ∧ ∀ x ∈ xs, ∃ y, f inner (write x) = some y := by
  cases room with
  | zero => cases h
  | succ inner =>
    rw [toList?_array,List.mapM_map] at h
    exact ⟨inner,rfl,fun x hx => exists_of_mapM h hx⟩

end

def present (fields : List (String × Option Json)) : List (Literal × Json) :=
  fields.filterMap fun field => field.2.map fun j => (some field.1,j)

theorem filter_present {fields : List (String × Option Json)} (hnodup : (fields.map (·.1)).Nodup)
    {key : String} {value : Option Json} (h : (key,value) ∈ fields) :
    (present fields).filter (fun m => m.1 = some key) = value.toList.map fun j => (some key,j) := by
  induction fields with
  | nil => cases h
  | cons field fields ih =>
    obtain ⟨name,content⟩ := field
    obtain ⟨hname,hfields⟩ := List.nodup_cons.mp hnodup
    have hcons : present ((name,content) :: fields) =
        content.toList.map (fun j => (some name,j)) ++ present fields := by
      cases content <;> rfl
    rw [hcons,List.filter_append]
    rcases List.mem_cons.mp h with heq | hmem
    · obtain ⟨rfl,rfl⟩ := Prod.mk.inj heq
      have hrest : (present fields).filter (fun m => m.1 = some key) = [] := by
        rw [List.filter_eq_nil_iff]
        intro m hm
        obtain ⟨⟨name,content⟩,hfield,hj⟩ := List.mem_filterMap.mp hm
        obtain ⟨j,-,rfl⟩ := Option.map_eq_some_iff.mp hj
        have hne : name ≠ key := fun h => hname (List.mem_map.mpr ⟨_,hfield,h⟩)
        simpa using hne
      rw [hrest]
      cases value <;> simp
    · have hne : name ≠ key := fun h => hname (List.mem_map.mpr ⟨_,hmem,h.symm⟩)
      rw [ih hfields hmem]
      cases content <;> simp [hne]

theorem record?_present (fields : List (String × Option Json))
    (hnodup : (fields.map (·.1)).Nodup) (room : ℕ) :
    record? (fields.map (·.1)) (room + 1) (.object (present fields)) =
      some (room,fields.map (·.2)) := by
  have hkeys : (present fields).all (fun m => m.1.isSome) := by
    rw [List.all_eq_true]
    intro m hm
    obtain ⟨field,-,hj⟩ := List.mem_filterMap.mp hm
    obtain ⟨j,-,rfl⟩ := Option.map_eq_some_iff.mp hj
    rfl
  have hmembers : (fields.map (·.1)).mapM (member? (present fields)) = some (fields.map (·.2)) := by
    rw [List.mapM_map]
    refine mapM_eq_some fun field hfield => ?_
    have hfilter := filter_present hnodup (show (field.1,field.2) ∈ fields from hfield)
    change member? (present fields) field.1 = some field.2
    unfold member?
    rw [hfilter]
    cases field.2 <;> rfl
  rw [record?,if_pos hkeys,hmembers]
  rfl

end Sensitivity.Json
