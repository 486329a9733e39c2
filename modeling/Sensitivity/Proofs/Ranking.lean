import Sensitivity.Proofs.Count

/-! What a selection by fraction takes. The weights of all layers together stand in one strict
order, a fraction takes as many of them as it counts from its start, and so a larger fraction only
adds to what a smaller one takes. -/
namespace Sensitivity
namespace Selection

theorem weights_prefix_of_le {ind : Indicators Single} {f g : Single} {s t : Selection}
    (hsize : ind.total < 2 ^ (64 : ℕ)) (h : f ≤ g) (hs : ofFraction ind f = .ok s)
    (ht : ofFraction ind g = .ok t) : s.weights <+: t.weights := by
  rw [ofFraction_eq] at hs ht
  split at hs <;> cases hs
  split at ht <;> cases ht
  exact List.take_prefix_take_left (selectionCount_mono h hsize)

/-- A fraction between zero and one takes the least of all weights, as many as it counts, and
nothing is lost or taken twice, whatever the indicators are. Any other fraction is refused. As long
as the number of weights is a word, smaller fractions take what larger ones take first. -/
theorem takes_least (ind : Indicators Single) :
    (∀ f : Single, 0 ≤ f → f ≤ 1 → ∃ s, ofFraction ind f = .ok s ∧
      s.layerShapes = ind.layers.map (·.values.shape) ∧
      ind.TakesLeast (selectionCount f ind.total) s.weights) ∧
    (∀ f : Single, ¬ (0 ≤ f ∧ f ≤ 1) → ofFraction ind f = .error (.badConfig (.fraction f))) ∧
    (ind.total < 2 ^ (64 : ℕ) → ∀ f g : Single, 0 ≤ f → f ≤ g → g ≤ 1 →
      ∃ s t, ofFraction ind f = .ok s ∧ ofFraction ind g = .ok t ∧ s.weights <+: t.weights) := by
  have hok : ∀ {f : Single}, 0 ≤ f → f ≤ 1 → ofFraction ind f =
      .ok ⟨ind.ranking.take (selectionCount f ind.total),ind.layers.map (·.values.shape)⟩ :=
    fun hlow hhigh => (ofFraction_eq ind _).trans (if_pos ⟨hlow,hhigh⟩)
  refine ⟨?_,?_,?_⟩
  · intro f hlow hhigh
    exact ⟨_,hok hlow hhigh,rfl,ind.takesLeast_take (selectionCount_le f ind.total)⟩
  · intro f hf
    exact (ofFraction_eq ind f).trans (if_neg hf)
  · intro hsize f g hlow hfg hhigh
    have hf := hok hlow (Single.le_trans hfg hhigh)
    have hg := hok (Single.le_trans hlow hfg) hhigh
    exact ⟨_,_,hf,hg,weights_prefix_of_le hsize hfg hf hg⟩

/-- Two layers with ties between them, both zeros, an infinity and NaNs of both signs. -/
def mixedIndicators : Indicators Single :=
  .ofValues [.ofFn [2,2] fun i => [.nan,1,.neg 0,0].getD i 0,
    .ofFn [3] fun i => [1,.negInfinity,.neg .nan].getD i 0]

/-- Half of seven weights are three. -/
theorem takes_least_mixed :
    (∃ s, ofFraction mixedIndicators (Single.ofRatio false 1 2) = .ok s ∧
      s.layerShapes = [[2,2],[3]] ∧ mixedIndicators.TakesLeast 3 s.weights) ∧
    (∃ s t, ofFraction mixedIndicators (Single.ofRatio false 1 2) = .ok s ∧
      ofFraction mixedIndicators 1 = .ok t ∧ s.weights <+: t.weights) ∧
    ofFraction mixedIndicators .nan = .error (.badConfig (.fraction .nan)) := by
  have hcount : selectionCount (Single.ofRatio false 1 2) mixedIndicators.total = 3 := by
    decide +kernel
  have hshapes : mixedIndicators.layers.map (·.values.shape) = [[2,2],[3]] := by decide +kernel
  obtain ⟨hleast,hrefused,hnested⟩ := takes_least mixedIndicators
  refine ⟨?_,?_,hrefused _ (by decide +kernel)⟩
  · obtain ⟨s,hs,hlayers,htakes⟩ := hleast (.ofRatio false 1 2) (by decide +kernel)
      (by decide +kernel)
    exact ⟨s,hs,hlayers.trans hshapes,hcount ▸ htakes⟩
  · exact hnested (by decide +kernel) (.ofRatio false 1 2) 1 (by decide +kernel) (by decide +kernel)
      (by decide +kernel)

end Selection
end Sensitivity
