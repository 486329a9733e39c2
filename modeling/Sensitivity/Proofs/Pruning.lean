import Sensitivity.Pruning
import Sensitivity.Proofs.Network
import Sensitivity.Proofs.Indicator
import Mathlib

/-! What pruning changes. The selected weights are those that come first by indicator, layer and
index, they become zero, and nothing else about the network changes; a pruning that ends in an
error changes nothing at all. -/
namespace Sensitivity

theorem flooredCount_le (size : Numeric.Magnitude) (total : ℕ) :
    flooredCount size total ≤ total := by
  simp only [flooredCount]
  split
  · exact min_le_right _ _
  · exact le_rfl

theorem selectionCount_le (fraction : Single) (total : ℕ) :
    selectionCount fraction total ≤ total := by
  unfold selectionCount
  split
  · exact Nat.zero_le total
  split
  · exact flooredCount_le _ _
  · exact le_rfl

namespace Indicators

/-- The indicator of a weight. -/
def value (ind : Indicators Single) (r : WeightRef) : Single :=
  (ind.layers[r.layer]?.map fun l => l.values.read r.index).getD 0

/-- The place of a weight among all weights: by its indicator in the total order of floats, then
by its layer, then by its index in the layer. -/
def place (ind : Indicators Single) (r : WeightRef) : ℤ ×ₗ ℕ ×ₗ ℕ :=
  toLex ((ind.value r).rank,toLex (r.layer,r.index))

theorem place_injective (ind : Indicators Single) : Function.Injective ind.place := by
  rintro ⟨l,i⟩ ⟨l',i'⟩ h
  have hplace := Prod.mk.inj (toLex_inj.mp h)
  obtain ⟨rfl,rfl⟩ := Prod.mk.inj (toLex_inj.mp hplace.2)
  rfl

/-- A reference names a weight that has an indicator. -/
def Holds (ind : Indicators Single) (r : WeightRef) : Prop :=
  ∃ l ∈ ind.layers[r.layer]?, r.index < l.values.size

theorem Match.inRange_iff {ind : Indicators Single} {net : Network Single} (h : ind.Match net)
    {r : WeightRef} : Selection.InRange net.weighted r ↔ ind.Holds r := by
  have hlength := h.length_eq
  unfold Selection.InRange Holds
  by_cases hr : r.layer < net.weighted.length
  · have hshape := (h.get hr (hlength ▸ hr)).2
    simp only [List.get_eq_getElem] at hshape
    have hsize : ind.layers[r.layer].values.size = net.weighted[r.layer].2.size := by
      rw [Tensor.size_eq,Tensor.size_eq,hshape]
    simp [hr,hlength ▸ hr,hsize]
  · have hr' : ¬ r.layer < ind.layers.length := hlength ▸ hr
    simp [hr,hr']

theorem Match.shapes {ind : Indicators Single} {net : Network Single} (h : ind.Match net) :
    net.weighted.map (·.2.shape) = ind.layers.map (·.values.shape) := by
  refine List.ext_getElem (by simpa using h.length_eq) ?_
  intro i hi hi'
  simp only [List.length_map] at hi hi'
  simpa using ((h.get hi hi').2).symm

theorem Match.total_eq {ind : Indicators Single} {net : Network Single} (h : ind.Match net) :
    ind.total = net.weightCount := by
  have hsizes := congrArg (List.map List.prod) h.shapes
  rw [List.map_map,List.map_map] at hsizes
  simp only [total,Network.weightCount,Tensor.size_eq]
  exact congrArg List.sum hsizes.symm

end Indicators

namespace Selection

theorem before_trans (a b c : Single × WeightRef) (hab : before a b) (hbc : before b c) :
    before a c := by
  simp only [before,decide_eq_true_eq] at hab hbc ⊢
  omega

theorem before_total (a b : Single × WeightRef) : before a b || before b a := by
  simp only [before,Bool.or_eq_true,decide_eq_true_eq]
  omega

theorem before_iff_place_le {ind : Indicators Single} {r s : WeightRef} :
    before (ind.value r,r) (ind.value s,s) = true ↔ ind.place r ≤ ind.place s := by
  simp only [before,decide_eq_true_eq,Indicators.place,Prod.Lex.toLex_le_toLex]

def layerEntries (layer : ℕ) (l : LayerIndicators Single) : List (Single × WeightRef) :=
  l.values.toList.mapIdx fun index v => (v,⟨layer,index⟩)

theorem entries_eq (ind : Indicators Single) :
    entries ind = (ind.layers.mapIdx layerEntries).flatten := rfl

theorem mem_layerEntries_iff {layer : ℕ} {l : LayerIndicators Single} {v : Single} {r : WeightRef} :
    (v,r) ∈ layerEntries layer l ↔
      r.layer = layer ∧ r.index < l.values.size ∧ v = l.values.read r.index := by
  obtain ⟨rlayer,rindex⟩ := r
  simp only [layerEntries,List.mem_mapIdx,Prod.mk.injEq,WeightRef.mk.injEq,Tensor.toList,
    Array.length_toList,Array.getElem_toList]
  constructor
  · rintro ⟨i,hi,hv,rfl,rfl⟩
    exact ⟨rfl,hi,hv.symm.trans (Tensor.read_eq_getElem _ hi).symm⟩
  · rintro ⟨rfl,hi,hv⟩
    exact ⟨rindex,hi,(hv.trans (Tensor.read_eq_getElem _ hi)).symm,rfl,rfl⟩

theorem mem_entries_iff {ind : Indicators Single} {v : Single} {r : WeightRef} :
    (v,r) ∈ entries ind ↔ v = ind.value r ∧ ind.Holds r := by
  rw [entries_eq,List.mem_flatten]
  constructor
  · rintro ⟨line,hline,hmem⟩
    obtain ⟨layer,hlayer,rfl⟩ := List.mem_mapIdx.mp hline
    obtain ⟨rfl,hindex,hv⟩ := mem_layerEntries_iff.mp hmem
    exact ⟨by simp [Indicators.value,hlayer,hv],_,List.getElem?_eq_getElem hlayer,hindex⟩
  · rintro ⟨rfl,l,hl,hindex⟩
    obtain ⟨hlayer,rfl⟩ := List.getElem?_eq_some_iff.mp hl
    refine ⟨_,List.mem_mapIdx.mpr ⟨r.layer,hlayer,rfl⟩,mem_layerEntries_iff.mpr ⟨rfl,hindex,?_⟩⟩
    simp [Indicators.value,hlayer]

theorem nodup_entries (ind : Indicators Single) : ((entries ind).map (·.2)).Nodup := by
  rw [entries_eq,List.map_flatten,List.nodup_flatten]
  constructor
  · intro line hline
    obtain ⟨entries,hentries,rfl⟩ := List.mem_map.mp hline
    obtain ⟨layer,hlayer,rfl⟩ := List.mem_mapIdx.mp hentries
    rw [List.Nodup,List.pairwise_map,List.pairwise_iff_getElem]
    intro i j hi hj hij
    simpa [layerEntries] using hij.ne
  · rw [List.pairwise_map,List.pairwise_iff_getElem]
    intro i j hi hj hij r hr hr'
    obtain ⟨⟨v,s⟩,hv,rfl⟩ := List.mem_map.mp hr
    obtain ⟨⟨v',s'⟩,hv',hs⟩ := List.mem_map.mp hr'
    rw [List.getElem_mapIdx] at hv hv'
    simp only at hs
    subst hs
    have hlayer := (mem_layerEntries_iff.mp hv).1
    have hlayer' := (mem_layerEntries_iff.mp hv').1
    omega

theorem length_entries (ind : Indicators Single) : (entries ind).length = ind.total := by
  rw [entries_eq,List.length_flatten,Indicators.total]
  congr 1
  refine List.ext_getElem (by simp) ?_
  intro i hi hi'
  simp [layerEntries,Tensor.toList,Tensor.size]

end Selection

namespace Indicators

open Selection

/-- The weights in the order of their places. -/
def ranking (ind : Indicators Single) : List WeightRef :=
  ((entries ind).mergeSort before).map (·.2)

theorem length_ranking (ind : Indicators Single) : ind.ranking.length = ind.total := by
  rw [ranking,List.length_map,List.length_mergeSort,length_entries]

/-- The ranking loses no weight and invents none. -/
theorem mem_ranking_iff {ind : Indicators Single} {r : WeightRef} :
    r ∈ ind.ranking ↔ ind.Holds r := by
  simp only [ranking,List.mem_map,List.mem_mergeSort]
  constructor
  · rintro ⟨⟨v,r⟩,hmem,rfl⟩
    exact (mem_entries_iff.mp hmem).2
  · intro hr
    exact ⟨(ind.value r,r),mem_entries_iff.mpr ⟨rfl,hr⟩,rfl⟩

theorem pairwise_ranking (ind : Indicators Single) :
    ind.ranking.Pairwise (ind.place · < ind.place ·) := by
  have hperm := List.mergeSort_perm (entries ind) before
  have hnodup : ind.ranking.Nodup := (hperm.map _).nodup_iff.mpr (nodup_entries ind)
  have hsorted : ind.ranking.Pairwise (ind.place · ≤ ind.place ·) := by
    have hbefore : ((entries ind).mergeSort before).Pairwise (before · ·) :=
      List.pairwise_mergeSort before_trans before_total _
    rw [ranking,List.pairwise_map]
    refine hbefore.imp_of_mem ?_
    rintro ⟨v,r⟩ ⟨w,s⟩ hr hs hle
    obtain ⟨rfl,-⟩ := mem_entries_iff.mp (hperm.mem_iff.mp hr)
    obtain ⟨rfl,-⟩ := mem_entries_iff.mp (hperm.mem_iff.mp hs)
    exact before_iff_place_le.mp hle
  refine (hsorted.and hnodup).imp ?_
  rintro r s ⟨hle,hne⟩
  exact hle.lt_of_ne (ind.place_injective.ne hne)

example : ranking (.ofValues [.ofFn [3] fun i => [.nan,0,.neg 0].getD i 0,.fill [1] 0]) =
    [⟨0,2⟩,⟨0,1⟩,⟨1,0⟩,⟨0,0⟩] := by cbv

/-- So many weights in the order of their places, and no weight left out comes before any of
them. -/
structure TakesLeast (ind : Indicators Single) (count : ℕ) (chosen : List WeightRef) : Prop where
  length : chosen.length = count
  nodup : chosen.Nodup
  holds : ∀ r ∈ chosen, ind.Holds r
  ascending : chosen.Pairwise (ind.place · < ind.place ·)
  least : ∀ r ∈ chosen, ∀ s, ind.Holds s → s ∉ chosen → ind.place r < ind.place s

theorem takesLeast_take (ind : Indicators Single) {count : ℕ} (h : count ≤ ind.total) :
    ind.TakesLeast count (ind.ranking.take count) := by
  have hranking := ind.pairwise_ranking
  have hascending := hranking.sublist (List.take_sublist count _)
  refine ⟨?_,hascending.imp fun hlt heq => (heq ▸ hlt).false,?_,hascending,?_⟩
  · rw [List.length_take,length_ranking,min_eq_left h]
  · intro r hr
    exact mem_ranking_iff.mp (List.mem_of_mem_take hr)
  · intro r hr s hs hnot
    have hsplit := List.take_append_drop count ind.ranking
    have hmem := mem_ranking_iff.mpr hs
    rw [← hsplit,List.mem_append] at hmem
    rw [← hsplit,List.pairwise_append] at hranking
    exact hranking.2.2 r hr s (hmem.resolve_left hnot)

end Indicators

namespace Selection

/-- A fraction between zero and one selects the start of the ranking, and no other fraction
selects anything. -/
theorem ofFraction_eq (ind : Indicators Single) (fraction : Single) :
    ofFraction ind fraction =
      if 0 ≤ fraction ∧ fraction ≤ 1 then
        .ok ⟨ind.ranking.take (selectionCount fraction ind.total),ind.layers.map (·.values.shape)⟩
      else .error (.badConfig (.fraction fraction)) := by
  simp only [ofFraction,checkFraction]
  split
  · rw [← Indicators.length_ranking,Indicators.ranking,List.length_map,List.map_take]
    rfl
  · rfl

/-- So many weights of a network, and those that come first among all of its weights. -/
structure TakesFirst (ind : Indicators Single) (net : Network Single) (count : ℕ)
    (chosen : List WeightRef) : Prop where
  nodup : chosen.Nodup
  length : chosen.length = count
  inRange : ∀ r ∈ chosen, InRange net.weighted r
  first : ∀ r ∈ chosen, ∀ s, InRange net.weighted s → s ∉ chosen → ind.place r < ind.place s

theorem takesFirst_of_ofFraction {ind : Indicators Single} {net : Network Single}
    {fraction : Single} {s : Selection} (hmatch : ind.Match net)
    (h : ofFraction ind fraction = .ok s) :
    TakesFirst ind net (selectionCount fraction net.weightCount) s.weights ∧
      s.layerShapes = net.weighted.map (·.2.shape) := by
  rw [ofFraction_eq] at h
  split at h
  · cases h
    have hleast := ind.takesLeast_take (selectionCount_le fraction ind.total)
    rw [← hmatch.total_eq]
    refine ⟨⟨hleast.nodup,hleast.length,?_,?_⟩,hmatch.shapes.symm⟩
    · intro r hr
      exact hmatch.inRange_iff.mpr (hleast.holds r hr)
    · intro r hr t ht
      exact hleast.least r hr t (hmatch.inRange_iff.mp ht)
  · cases h

section Apply

variable {α : Type}

theorem checkShapes_spec (s : Selection) (weighted : List (String × Tensor α)) :
    (s.layerShapes = weighted.map (·.2.shape) ∧ s.checkShapes weighted = .ok ()) ∨
    (s.layerShapes ≠ weighted.map (·.2.shape) ∧
      ∃ expected got, s.checkShapes weighted = .error (.shapeMismatch expected got)) := by
  unfold checkShapes
  split
  · next hlength =>
    refine .inr ⟨fun heq => hlength ?_,_,_,rfl⟩
    rw [heq,List.length_map]
  · next hlength =>
    rw [not_not] at hlength
    split
    · next p hp =>
      refine .inr ⟨fun heq => ?_,_,_,rfl⟩
      obtain ⟨hne,i,hi,rfl,-⟩ := List.find?_eq_some_iff_getElem.mp hp
      simp [heq] at hne
    · next hnone =>
      rw [List.find?_eq_none] at hnone
      refine .inl ⟨List.ext_getElem (by rw [List.length_map,hlength]) ?_,rfl⟩
      intro i hi hi'
      rw [List.length_map] at hi'
      have hi'' : i < (weighted.zip s.layerShapes).length := by
        rw [List.length_zip]
        exact lt_min hi' hi
      have hshape := hnone _ (List.getElem_mem hi'')
      rw [List.getElem_zip] at hshape
      rw [List.getElem_map]
      simpa using (not_not.mp (mt decide_eq_true hshape)).symm

theorem checkShapes_eq_ok {s : Selection} {weighted : List (String × Tensor α)}
    (h : s.layerShapes = weighted.map (·.2.shape)) : s.checkShapes weighted = .ok () :=
  ((s.checkShapes_spec weighted).resolve_right fun hne => hne.1 h).2

variable [Scalar α]

theorem apply_eq_ok {s : Selection} {net : Network α}
    (hshapes : s.layerShapes = net.weighted.map (·.2.shape))
    (hrange : ∀ r ∈ s.weights, InRange net.weighted r) :
    s.apply net = (zero s.weights net,.ok (report net.weighted s.weights)) := by
  have hwhile : s.weights.takeWhile (fun r => InRange net.weighted r) = s.weights := by
    rw [List.takeWhile_eq_self_iff]
    simpa using hrange
  have hnone : s.weights.find? (fun r => ¬ InRange net.weighted r) = none := by
    rw [List.find?_eq_none]
    simpa using hrange
  simp only [apply,checkShapes_eq_ok hshapes,hwhile,hnone]

end Apply

theorem sum_countP_range {β : Type} (l : List β) (f : β → ℕ) (n : ℕ) (h : ∀ b ∈ l, f b < n) :
    ((List.range n).map fun k => l.countP (f · = k)).sum = l.length := by
  have hfinset : ((List.range n).map fun k => l.countP (f · = k)).sum =
      ∑ k ∈ Finset.range n, l.countP (f · = k) := rfl
  rw [hfinset]
  induction l with
  | nil => simp
  | cons b l ih =>
    obtain ⟨hb,hl⟩ := List.forall_mem_cons.mp h
    have hone : ∑ k ∈ Finset.range n, (if f b = k then 1 else 0) = 1 := by
      rw [Finset.sum_ite_eq,if_pos (Finset.mem_range.mpr hb)]
    simp only [List.countP_cons,decide_eq_true_eq,Finset.sum_add_distrib,ih hl rfl,hone,
      List.length_cons]

theorem sum_zeroed_report {weighted : List (String × Tensor Single)} {refs : List WeightRef}
    (h : ∀ r ∈ refs, InRange weighted r) :
    ((report weighted refs).layers.map (·.zeroed)).sum = refs.length := by
  have hlayer : ∀ r ∈ refs, r.layer < weighted.length := by
    intro r hr
    obtain ⟨w,hw,-⟩ := h r hr
    exact (List.getElem?_eq_some_iff.mp hw).1
  rw [← sum_countP_range refs WeightRef.layer weighted.length hlayer]
  congr 1
  refine List.ext_getElem (by simp [report]) ?_
  intro i hi hi'
  simp [report]

end Selection

theorem Network.match_of_indicators {α : Type} [Scalar α] {net : Network α} {range : Bound α}
    {score : Bound α → α} {ind : Indicators α} (h : net.indicators range score = .ok ind) :
    ind.Match net := by
  simp only [Network.indicators,Error.bind_eq_ok_iff] at h
  obtain ⟨e,he,r,-,hind⟩ := h
  exact Indicators.match_of_compute he hind

namespace Config

theorem select_eq_ok {c : Config} {net : Network Single} {s : Selection}
    (h : c.select net = .ok s) : ∃ ind,
      net.indicators ⟨c.inputMin,c.inputMax⟩ c.score.apply = .ok ind ∧
      Selection.ofFraction ind c.fraction = .ok s := by
  simp only [select,Error.bind_eq_ok_iff] at h
  obtain ⟨-,-,ind,hind,hs⟩ := h
  exact ⟨ind,hind,hs⟩

/-- Pruning either ends in an error and leaves the network alone, or sets exactly those weights
to zero that come first by their indicators on the network as it was. Apart from these weights
the network stays as it is, and the report counts them layer by layer. -/
theorem prune_zeroes_first (c : Config) (net : Network Single) :
    match c.prune net with
    | (after,.error _) => after = net
    | (after,.ok report) => ∃ ind chosen,
      net.indicators ⟨c.inputMin,c.inputMax⟩ c.score.apply = .ok ind ∧ ind.Match net ∧
      Selection.TakesFirst ind net (selectionCount c.fraction net.weightCount) chosen ∧
      after.weighted = (net.weighted.mapIdx fun layer w =>
        (w.1,w.2.mapPositions fun index v => if ⟨layer,index⟩ ∈ chosen then 0 else v)) ∧
      after.mapWeights (fun _ _ _ => 0) = net.mapWeights (fun _ _ _ => 0) ∧
      report.totalWeights = net.weightCount ∧
      report.zeroed = selectionCount c.fraction net.weightCount ∧
      report.layers = (net.weighted.mapIdx fun layer w =>
        ⟨w.1,w.2.size,chosen.countP fun r => r.layer = layer⟩) ∧
      (report.layers.map (·.zeroed)).sum = selectionCount c.fraction net.weightCount := by
  cases hselect : c.select net with
  | error e =>
    have hprune : c.prune net = (net,.error e) := by simp only [prune,hselect]
    rw [hprune]
  | ok s =>
    obtain ⟨ind,hind,hs⟩ := select_eq_ok hselect
    have hmatch := Network.match_of_indicators hind
    obtain ⟨hfirst,hshapes⟩ := Selection.takesFirst_of_ofFraction hmatch hs
    have hprune : c.prune net =
        (Selection.zero s.weights net,.ok (Selection.report net.weighted s.weights)) := by
      simp only [prune,hselect,Selection.apply_eq_ok hshapes hfirst.inRange]
    rw [hprune]
    have hsum := Selection.sum_zeroed_report hfirst.inRange
    refine ⟨ind,s.weights,hind,hmatch,hfirst,?_,?_,rfl,hfirst.length,rfl,hsum.trans hfirst.length⟩
    · exact Network.weighted_mapWeights net _
    · rw [Selection.zero,Network.mapWeights_mapWeights]

end Config
end Sensitivity
