import Sensitivity.Proofs.Pruning

/-! What a removal leaves behind. References are looked up and written one after the other, so a
reference that names no weight ends the removal only after the writes before it. -/
namespace Sensitivity

namespace Selection

variable {α : Type}

theorem inRange_mapWeights {net : Network α} {f : ℕ → ℕ → α → α} {r : WeightRef} :
    InRange (net.mapWeights f).weighted r ↔ InRange net.weighted r := by
  rw [InRange,InRange,Network.weighted_mapWeights,List.getElem?_mapIdx]
  cases net.weighted[r.layer]? with
  | none => simp
  | some w => simp [Tensor.size_eq]

variable [Scalar α]

theorem zero_nil (net : Network α) : zero [] net = net := by
  simp only [zero,List.not_mem_nil,if_false]
  exact net.mapWeights_self

theorem zero_setWeight (r : WeightRef) (refs : List WeightRef) (net : Network α) :
    zero refs (net.setWeight r.layer r.index 0) = zero (r :: refs) net := by
  rw [zero,zero,Network.setWeight,Network.mapWeights_mapWeights]
  congr 1
  funext layer index w
  obtain ⟨rlayer,rindex⟩ := r
  by_cases hrefs : (⟨layer,index⟩ : WeightRef) ∈ refs <;> simp [hrefs]

/-- Removes weights one after the other, up to the first reference that names none. -/
def removeEach : List WeightRef → Network α → Network α × Option WeightRef
  | [],net => (net,none)
  | r :: refs,net =>
    if InRange net.weighted r then removeEach refs (net.setWeight r.layer r.index 0)
    else (net,some r)

/-- The two ends of a removal: all references are written, or those before the first bad one. -/
inductive Removed (refs : List WeightRef) (net : Network α) : Network α × Option WeightRef → Prop
  | all (h : ∀ r ∈ refs, InRange net.weighted r) : Removed refs net (zero refs net,none)
  | upTo {done rest : List WeightRef} {bad : WeightRef} (hrefs : refs = done ++ bad :: rest)
      (hdone : ∀ r ∈ done, InRange net.weighted r) (hbad : ¬ InRange net.weighted bad) :
      Removed refs net (zero done net,some bad)

theorem Removed.cons {r : WeightRef} {refs : List WeightRef} {net : Network α}
    {result : Network α × Option WeightRef} (hr : InRange net.weighted r)
    (h : Removed refs (net.setWeight r.layer r.index 0) result) :
    Removed (r :: refs) net result := by
  cases h with
  | all h =>
    rw [zero_setWeight]
    refine .all (List.forall_mem_cons.mpr ⟨hr,?_⟩)
    exact fun s hs => inRange_mapWeights.mp (h s hs)
  | @upTo done rest bad hrefs hdone hbad =>
    rw [zero_setWeight]
    refine .upTo (by rw [hrefs,List.cons_append]) (List.forall_mem_cons.mpr ⟨hr,?_⟩) ?_
    · exact fun s hs => inRange_mapWeights.mp (hdone s hs)
    · exact fun hb => hbad (inRange_mapWeights.mpr hb)

theorem removed_removeEach (refs : List WeightRef) (net : Network α) :
    Removed refs net (removeEach refs net) := by
  induction refs generalizing net with
  | nil =>
    have hall : Removed [] net (zero [] net,none) := .all (by simp)
    rwa [zero_nil] at hall
  | cons r refs ih =>
    rw [removeEach]
    split
    · next hr => exact (ih _).cons hr
    · next hr =>
      have hnone : Removed (r :: refs) net (zero [] net,some r) := .upTo rfl (by simp) hr
      rwa [zero_nil] at hnone

theorem apply_eq_removeEach {s : Selection} {net : Network α}
    (hshapes : s.layerShapes = net.weighted.map (·.2.shape)) :
    s.apply net = ((removeEach s.weights net).1,match (removeEach s.weights net).2 with
      | none => .ok (report net.weighted s.weights)
      | some bad => .error (.badConfig (.weightIndex bad.index bad.layer))) := by
  have hremoved := removed_removeEach s.weights net
  generalize removeEach s.weights net = result at hremoved ⊢
  cases hremoved with
  | all h => exact apply_eq_ok hshapes h
  | @upTo done rest bad hrefs hdone hbad =>
    have hwhile : s.weights.takeWhile (fun r => InRange net.weighted r) = done := by
      rw [hrefs,List.takeWhile_append_of_pos (by simpa using hdone)]
      simp [hbad]
    have hfind : s.weights.find? (fun r => ¬ InRange net.weighted r) = some bad := by
      rw [hrefs,List.find?_append,List.find?_eq_none.mpr (by simpa using hdone)]
      simp [hbad]
    simp only [apply,checkShapes_eq_ok hshapes,hwhile,hfind]

/-- The given weights have become zero, and nothing else about the network has changed. -/
structure Zeroed (refs : List WeightRef) (net after : Network α) : Prop where
  weighted : after.weighted = net.weighted.mapIdx fun layer w =>
    (w.1,w.2.mapPositions fun index v => if ⟨layer,index⟩ ∈ refs then 0 else v)
  others : after.mapWeights (fun _ _ _ => 0) = net.mapWeights fun _ _ _ => 0

theorem zeroed_zero (refs : List WeightRef) (net : Network α) :
    Zeroed refs net (zero refs net) where
  weighted := Network.weighted_mapWeights net _
  others := by rw [zero,Network.mapWeights_mapWeights]

/-- A removal that succeeds has checked every reference and sets exactly the weights that they name
to zero. One that fails leaves the network alone if it was selected for other shapes; otherwise the
weights before the first bad reference stay zero, so the network is left alone if that one is the
first of all. -/
theorem apply_outcome (s : Selection) (net : Network α) :
    match s.apply net with
    | (after,.ok report) => s.layerShapes = net.weighted.map (·.2.shape) ∧
      (∀ r ∈ s.weights, InRange net.weighted r) ∧ Zeroed s.weights net after ∧
      report = Selection.report net.weighted s.weights
    | (after,.error e) =>
      (s.layerShapes ≠ net.weighted.map (·.2.shape) ∧ after = net ∧
        ∃ expected got, e = .shapeMismatch expected got) ∨
      (s.layerShapes = net.weighted.map (·.2.shape) ∧ ∃ done bad rest,
        s.weights = done ++ bad :: rest ∧ (∀ r ∈ done, InRange net.weighted r) ∧
        ¬ InRange net.weighted bad ∧ e = .badConfig (.weightIndex bad.index bad.layer) ∧
        Zeroed done net after ∧ (done = [] → after = net)) := by
  obtain ⟨hshapes,-⟩ | ⟨hshapes,expected,got,hcheck⟩ := s.checkShapes_spec net.weighted
  · rw [apply_eq_removeEach hshapes]
    have hremoved := removed_removeEach s.weights net
    generalize removeEach s.weights net = result at hremoved ⊢
    cases hremoved with
    | all h => exact ⟨hshapes,h,zeroed_zero _ net,rfl⟩
    | @upTo done rest bad hrefs hdone hbad =>
      refine .inr ⟨hshapes,done,bad,rest,hrefs,hdone,hbad,rfl,zeroed_zero done net,?_⟩
      rintro rfl
      exact zero_nil net
  · have happly : s.apply net = (net,.error (.shapeMismatch expected got)) := by
      simp only [apply,hcheck]
    rw [happly]
    exact .inl ⟨hshapes,rfl,expected,got,rfl⟩

end Selection
end Sensitivity
