import Sensitivity.Proofs.Position
import Sensitivity.Proofs.Indicator
import Sensitivity.Proofs.Shape.Passage

/-! The indicators of a finished run. The checks made for indicators only repeat what the shapes
of the run guarantee, so they never fail, and each indicator is the best score of the
contributions of one weight. -/
namespace Sensitivity

variable {α : Type}

theorem Indicator.readsInside_of_resolved {t : ConvolutionTransform α} (ht : t.Resolved) (rows : ℕ) :
    ReadsInside t rows t.input := by
  refine .inr (.inr (.inr (.inr ⟨?_,?_,?_⟩)))
  · intro c hc
    obtain ⟨⟨o,ci⟩,hmem,rfl⟩ := List.mem_map.mp hc
    obtain ⟨ho,hci⟩ := mem_grid2.mp hmem
    exact ConvolutionTransform.inputChannel_lt ht ho hci
  · intro y hy
    obtain ⟨⟨d,i⟩,-,hsource⟩ := List.mem_filterMap.mp hy
    exact Window.lt_of_source? hsource
  · intro z hz
    obtain ⟨⟨d,j⟩,-,hsource⟩ := List.mem_filterMap.mp hz
    exact Window.lt_of_source? hsource

/-- A passage through a layer with weights. -/
structure WeightedPassage (α : Type) where
  passage : Passage α Node
  transform : Transform α
  weights : Tensor α

namespace WeightedPassage

def of? (p : Passage α Node) (t : Option (Transform α)) : Option (WeightedPassage α) :=
  t.bind fun t => t.weights?.map fun w => ⟨p,t,w⟩

theorem of?_eq_some_iff {p : Passage α Node} {t : Option (Transform α)} {w : WeightedPassage α} :
    of? p t = some w ↔
      w.passage = p ∧ t = some w.transform ∧ w.transform.weights? = some w.weights := by
  unfold of?
  constructor
  · intro h
    obtain ⟨t,rfl,h⟩ := Option.bind_eq_some_iff.mp h
    obtain ⟨v,hv,rfl⟩ := Option.map_eq_some_iff.mp h
    exact ⟨rfl,rfl,hv⟩
  · rintro ⟨rfl,rfl,h⟩
    simp [h]

end WeightedPassage

namespace Engine

variable {e : Engine α} {passages : List (Passage α Node)}

/-- The passages through the weighted layers, in the order of ids. -/
def weightedPassages (e : Engine α) (passages : List (Passage α Node)) :
    List (WeightedPassage α) :=
  (passages.zip e.listing).filterMap fun w => WeightedPassage.of? w.1 w.2.2

theorem forall₂_zip_listing (hnotes : passages.map Passage.note = e.nodes) :
    List.Forall₂ (fun entry w => w.1 ∈ passages ∧ w.2 = entry ∧ entry ∈ e.listing ∧
      w.1.note = entry.1) e.listing (passages.zip e.listing) := by
  have hlength : passages.length = e.listing.length := by
    simpa [nodes] using congrArg List.length hnotes
  refine List.forall₂_iff_get.mpr ⟨by simp [hlength],fun k hk hk' => ?_⟩
  have hkp : k < passages.length := hlength ▸ hk
  have hnote : passages[k].note = e.listing[k].1 := by
    have hnodes := congrArg (·[k]?) hnotes
    simpa [nodes,hk,hkp] using hnodes
  simp only [List.get_eq_getElem,List.getElem_zip]
  exact ⟨List.getElem_mem _,trivial,List.getElem_mem _,hnote⟩

theorem forall₂_weightedPassages {R : Passage α Node → Passage α Node → Prop}
    {passages' : List (Passage α Node)} (h : List.Forall₂ R passages passages') (e : Engine α) :
    List.Forall₂ (fun w w' => R w.passage w'.passage ∧ w'.transform = w.transform ∧
      w'.weights = w.weights) (e.weightedPassages passages) (e.weightedPassages passages') := by
  unfold weightedPassages
  generalize e.listing = listing
  induction h generalizing listing with
  | nil => exact .nil
  | @cons p p' ps ps' hp _ ih =>
    cases listing with
    | nil => exact .nil
    | cons entry listing =>
      obtain ⟨node,t⟩ := entry
      rw [List.zip_cons_cons,List.zip_cons_cons,List.filterMap_cons,List.filterMap_cons]
      cases t with
      | none => exact ih listing
      | some t =>
        simp only [WeightedPassage.of?,Option.bind_some]
        cases t.weights? with
        | none => exact ih listing
        | some w => exact .cons ⟨hp,rfl,rfl⟩ (ih listing)

end Engine

variable [Scalar α]

/-- The contribution of the weight at a row-major position to one row. -/
def Transform.contribution (t : Transform α) (x d : Interval α) (k row : ℕ) : Bound α :=
  match t with
  | .dense t => Indicator.denseContribution t x d (k / t.layer.outputs) (k % t.layer.outputs) row
  | .convolution t => Indicator.convolutionContribution t t.input x d
      (k / t.layer.width / t.layer.height / t.layer.groupInputs)
      (k / t.layer.width / t.layer.height % t.layer.groupInputs)
      (k / t.layer.width % t.layer.height) (k % t.layer.width) row
  | _ => 0

namespace Indicator

theorem dense_eq_ok (score : Bound α → α) {t : DenseTransform α} {x d : Interval α} {rows : ℕ}
    (hx : x.size = t.layer.inputs) (hd : d.shape = [rows,t.layer.outputs]) :
    dense score t x d = .ok (Tensor.ofFn t.layer.weights.shape fun k =>
      best score rows ((Transform.dense t).contribution x d k)) := by
  rw [dense,Error.bind_eq_ok_iff]
  refine ⟨rows,Interval.rowCount_eq_ok_iff.mpr hd,?_⟩
  rw [if_neg (by simpa using hx),t.layer.shape_weights]
  rfl

def convolutionValues (score : Bound α → α) (t : ConvolutionTransform α) (image : ImageShape)
    (x d : Interval α) (rows : ℕ) : Tensor α :=
  Tensor.ofFn t.layer.weights.shape fun k => best score rows
    (convolutionContribution t image x d (k / t.layer.width / t.layer.height / t.layer.groupInputs)
      (k / t.layer.width / t.layer.height % t.layer.groupInputs)
      (k / t.layer.width % t.layer.height) (k % t.layer.width))

/-- Behind the check of the sensitivity a convolution takes any image that it reads inside of. -/
theorem convolution_eq (score : Bound α → α) {t : ConvolutionTransform α} {image : ImageShape}
    {x d : Interval α} {rows : ℕ} (hx : x.shape = image.toList)
    (hd : d.shape = rows :: t.output.toList) :
    convolution score t x d = if ReadsInside t rows image
      then .ok (convolutionValues score t image x d rows) else .error .outsideStorage := by
  have hrows : d.rowCount t.output.toList = .ok rows := Interval.rowCount_eq_ok_iff.mpr hd
  rw [convolution,hrows,convolutionValues,t.layer.shape_weights]
  simp only [hx,ImageShape.toList]
  rfl

theorem convolution_eq_ok (score : Bound α → α) {t : ConvolutionTransform α} {x d : Interval α}
    {rows : ℕ} (ht : t.Resolved) (hx : x.shape = t.input.toList)
    (hd : d.shape = rows :: t.output.toList) :
    convolution score t x d = .ok (Tensor.ofFn t.layer.weights.shape fun k =>
      best score rows ((Transform.convolution t).contribution x d k)) := by
  rw [convolution_eq score hx hd,if_pos (readsInside_of_resolved ht rows)]
  rfl

end Indicator

namespace WeightedPassage

/-- The indicators of the layer that the passage goes through. -/
def indicators (score : Bound α → α) (rows : ℕ) (w : WeightedPassage α) : LayerIndicators α :=
  ⟨w.passage.note.path,Tensor.ofFn w.weights.shape fun k => Indicator.best score rows
    (w.transform.contribution w.passage.input w.passage.sensitivity k)⟩

theorem read_indicators (score : Bound α → α) (rows : ℕ) (w : WeightedPassage α) {k : ℕ}
    (hk : k < w.weights.shape.prod) : (w.indicators score rows).values.read k =
      Indicator.best score rows
        (w.transform.contribution w.passage.input w.passage.sensitivity k) :=
  Tensor.read_ofFn _ _ hk

end WeightedPassage

theorem Passage.rel_indicators {p : Passage α Node} {rows : ℕ} {r : Run α} (hp : p.Shaped rows)
    (hx : r.activation? p.note.id = some p.input)
    (hd : r.derivative? p.note.id = some p.sensitivity) {t : Option (Transform α)}
    (ht : ∀ u, t = some u → u.Fits p.note.inputShape p.note.outputShape) (score : Bound α → α) :
    Option.Rel (fun c w => c = .ok (w.indicators score rows)) (Indicator.ofNode score r p.note t)
      (WeightedPassage.of? p t) := by
  have hstored : Indicator.stored r p.note = .ok (p.input,p.sensitivity) := by
    simp only [Indicator.stored,hx,hd]
  cases t with
  | none => exact .none
  | some t =>
    have hfits := ht t rfl
    cases t with
    | dense t =>
      obtain ⟨-,hprod,hout⟩ := hfits
      have hsize : p.input.size = t.layer.inputs := by rw [Tensor.size_eq,hp.input,hprod]
      have hvalues := Indicator.dense_eq_ok score hsize (hp.sensitivity.trans (by rw [hout]))
      refine .some ?_
      rw [hstored,Error.within_eq_ok_iff,Error.bind_eq_ok_iff]
      exact ⟨_,rfl,Error.bind_eq_ok_iff.mpr ⟨_,hvalues,rfl⟩⟩
    | convolution t =>
      obtain ⟨hresolved,hinput,hout⟩ := hfits
      have hvalues := Indicator.convolution_eq_ok score hresolved (hp.input.trans hinput.symm)
        (hp.sensitivity.trans (by rw [hout]))
      refine .some ?_
      rw [hstored,Error.within_eq_ok_iff,Error.bind_eq_ok_iff]
      exact ⟨_,rfl,Error.bind_eq_ok_iff.mpr ⟨_,hvalues,rfl⟩⟩
    | pooling t => exact .none
    | responseNorm t => exact .none
    | relu => exact .none
    | softmax => exact .none
    | dropout keep => exact .none

namespace Engine

variable {net : Network α} {e : Engine α} {passages : List (Passage α Node)}

theorem fits_of_mem_weightedPassages (he : compile net = .ok e)
    (hnotes : passages.map Passage.note = e.nodes) {w : WeightedPassage α}
    (hw : w ∈ e.weightedPassages passages) :
    w.passage ∈ passages ∧ w.transform.weights? = some w.weights ∧
      w.transform.Fits w.passage.note.inputShape w.passage.note.outputShape := by
  obtain ⟨⟨p,entry⟩,hmem,hof⟩ := List.mem_filterMap.mp hw
  obtain ⟨rfl,ht,hweights⟩ := WeightedPassage.of?_eq_some_iff.mp hof
  have hpairs := forall₂_zip_listing hnotes
  obtain ⟨k,hk,hget⟩ := List.getElem_of_mem hmem
  have hpair := hpairs.get (hpairs.length_eq.symm ▸ hk) hk
  simp only [List.get_eq_getElem,hget] at hpair
  obtain ⟨hp,heq,hentry,hnote⟩ := hpair
  obtain ⟨node,t⟩ := entry
  rw [← heq] at hentry hnote
  simp only at ht hnote
  rw [ht] at hentry
  rw [hnote]
  exact ⟨hp,hweights,(fits_of_compile he).fits_of_mem_listing hentry⟩

/-- The indicators of a finished run are those of its weighted passages. -/
theorem compute_eq_ok (he : compile net = .ok e) {rows : ℕ} {r : Run α}
    (hnotes : passages.map Passage.note = e.nodes) (hstores : r.Stores passages)
    (hshaped : ∀ p ∈ passages, p.Shaped rows) (score : Bound α → α) :
    Indicators.compute score e r =
      .ok ⟨(e.weightedPassages passages).map (WeightedPassage.indicators score rows)⟩ := by
  rw [Indicators.compute_eq_ok_iff,List.forall₂_map_right_iff]
  refine List.rel_filterMap ?_ (forall₂_zip_listing hnotes)
  rintro ⟨node,t⟩ ⟨p,-⟩ ⟨hp,rfl,hentry,hnote⟩
  simp only at hnote
  subst hnote
  obtain ⟨k,hk⟩ := List.getElem?_of_mem hp
  obtain ⟨hx,hd⟩ := hstores k p hk
  rw [← id_of_passages_getElem? he hnotes hk] at hx hd
  exact p.rel_indicators (hshaped p hp) hx hd
    (fun u hu => (fits_of_compile he).fits_of_mem_listing (hu ▸ hentry)) score

end Engine
end Sensitivity
