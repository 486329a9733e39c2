import Sensitivity.Proofs.Storage.Lookup

/-! Indicators from the bounds of any run. An engine looks up what a run has stored by the ids of
its own nodes, whichever network the run was of. A fully connected layer checks both bounds
before it reads them. A convolution checks the sensitivity only, so that it can read beyond an
activation that is not of the shape of its input. -/
namespace Sensitivity

theorem Error.mapM_id_cases {ε β γ : Type} {R : Except ε γ → β → Prop} {cs : List (Except ε γ)}
    {bs : List β} (h : List.Forall₂ R cs bs) :
    (∃ vs, cs.mapM id = .ok vs ∧ List.Forall₂ (fun b v => R (.ok v) b) bs vs) ∨
      ∃ before b after err, bs = before ++ b :: after ∧ (∀ b' ∈ before, ∃ v, R (.ok v) b') ∧
        R (.error err) b ∧ cs.mapM id = .error err := by
  induction h with
  | nil => exact .inl ⟨[],rfl,.nil⟩
  | @cons c b cs bs hc _ ih =>
    rw [List.mapM_cons]
    cases c with
    | error err => exact .inr ⟨[],b,bs,err,rfl,by simp,hc,rfl⟩
    | ok v =>
      rcases ih with ⟨vs,hvs,hall⟩ | ⟨before,b',after,err,rfl,hbefore,hb',herr⟩
      · refine .inl ⟨v :: vs,?_,.cons hc hall⟩
        rw [hvs]
        rfl
      · refine .inr ⟨b :: before,b',after,err,rfl,?_,hb',?_⟩
        · exact List.forall_mem_cons.mpr ⟨⟨v,hc⟩,hbefore⟩
        · rw [herr]
          rfl

section Stored

variable {α : Type}

theorem Slots.foldlM_store_eq_none {next : Slot α → Interval α → Option (Slot α)}
    {store : Slots α → Node × Interval α → Except (Error α) (Slots α)}
    (hstore : ∀ s w t, store s w = .ok t ↔
      ∃ old new, s[w.1.id]? = some old ∧ next old w.2 = some new ∧ t = s.set! w.1.id new)
    (honce : ∀ a b old new, next old a = some new → next new b = none)
    {log : List (Node × Interval α)} {s t : Slots α} (h : log.foldlM store s = .ok t) {i : ℕ}
    (hi : s[i]? = none) : t[i]? = none := by
  obtain ⟨-,hwritten,hkept⟩ := foldlM_store_eq_ok hstore honce h
  have hfresh : i ∉ log.map (·.1.id) := by
    intro hmem
    obtain ⟨w,hw,rfl⟩ := List.mem_map.mp hmem
    obtain ⟨old,-,hold,-⟩ := hwritten w hw
    cases hi.symm.trans hold
  rw [hkept i hfresh,hi]

/-- For an id a run holds both bounds or none of them, and an image wherever the sensitivity is one
to an image. -/
inductive Run.Holds (r : Run α) (id : ℕ) : Prop where
  | nothing (hx : r.activation? id = none) (hd : r.derivative? id = none)
  | both {x d : Interval α} (hx : r.activation? id = some x) (hd : r.derivative? id = some d)
      (image : ∀ rows (output : ImageShape), d.shape = rows :: output.toList →
        ∃ input : ImageShape, x.shape = input.toList)

theorem Transform.Fits.image_input [Scalar α] {t : Transform α} {shape : List ℕ}
    {image : ImageShape} (h : t.Fits shape image.toList) :
    ∃ input : ImageShape, shape = input.toList := by
  cases t with
  | dense t => exact absurd h.2.2 (by simp [ImageShape.toList])
  | convolution t => exact ⟨t.input,h.2.1.symm⟩
  | pooling t => exact ⟨t.input,h.2.1.symm⟩
  | responseNorm t => exact ⟨t.image,h.2.1.symm⟩
  | relu => exact ⟨image,Eq.symm h⟩
  | softmax => exact ⟨image,h.2.symm⟩
  | dropout keep => exact ⟨image,Eq.symm h⟩

variable [Scalar α]

mutual

theorem Plan.Fits.image_of_mem_listing {plan : Plan α Node} {shape out : List ℕ}
    (h : plan.Fits shape out) {node : Node} (hmem : (node,none) ∈ plan.listing) :
    ∃ image : ImageShape, node.inputShape = image.toList := by
  cases plan with
  | done => cases hmem
  | layer note t rest =>
    cases h with
    | layer _ hafter =>
      rcases List.mem_cons.mp hmem with heq | hmem
      · cases heq
      · exact hafter.image_of_mem_listing hmem
  | block note branches rest =>
    cases h with
    | @block _ _ _ _ image _ hinside hinput _ hafter =>
      rcases List.mem_cons.mp hmem with heq | hmem
      · obtain ⟨rfl,-⟩ := Prod.mk.inj heq
        exact ⟨image,hinput⟩
      · rcases List.mem_append.mp hmem with hmem | hmem
        · exact hinside.image_of_mem_listing hmem
        · exact hafter.image_of_mem_listing hmem

theorem BranchPlans.Fits.image_of_mem_listing {branches : BranchPlans α Node} {image : ImageShape}
    {channels : ℕ} (h : branches.Fits image channels) {node : Node}
    (hmem : (node,none) ∈ branches.listing) :
    ∃ input : ImageShape, node.inputShape = input.toList := by
  cases branches with
  | done => cases hmem
  | branch steps width rest =>
    cases h with
    | branch hfirst hothers =>
      rcases List.mem_append.mp hmem with hmem | hmem
      · exact hfirst.image_of_mem_listing hmem
      · exact hothers.image_of_mem_listing hmem

end

namespace Engine

variable {net : Network α} {e : Engine α}

theorem image_input (he : compile net = .ok e) {node : Node} (hnode : node ∈ e.nodes)
    {image : ImageShape} (hout : node.outputShape = image.toList) :
    ∃ input : ImageShape, node.inputShape = input.toList := by
  obtain ⟨⟨found,t⟩,hentry,rfl⟩ := List.mem_map.mp hnode
  have hplan := fits_of_compile he
  cases t with
  | none => exact hplan.image_of_mem_listing hentry
  | some t =>
    have ht := hplan.fits_of_mem_listing hentry
    rw [hout] at ht
    exact ht.image_input

theorem holds_of_propagate (he : compile net = .ok e) {x seed : Interval α} {r : Run α}
    (hr : e.propagate x seed = .ok r) (id : ℕ) : r.Holds id := by
  by_cases hid : id < e.nodeCount
  · obtain ⟨rows,passages,-,-,-,hnotes,hstores,hshaped⟩ := shaped_of_propagate he hr
    have hlt : id < passages.length := by rwa [← List.length_map Passage.note,hnotes]
    have hp := List.getElem_mem hlt
    obtain ⟨ha,hd⟩ := hstores id _ (List.getElem?_eq_getElem hlt)
    refine .both ha hd fun rows' output hshape => ?_
    rw [(hshaped _ hp).sensitivity] at hshape
    rw [(hshaped _ hp).input]
    exact image_input he (hnotes ▸ List.mem_map_of_mem hp) (List.cons.inj hshape).2
  · obtain ⟨-,-,trace,slots,log,-,hslots,-,hstored⟩ := propagate_eq_ok_iff.mp hr
    have hempty : (Slots.empty e.nodeCount : Slots α)[id]? = none := by
      simpa [Slots.empty] using hid
    have hslots := Slots.foldlM_store_eq_none (fun _ _ _ => Slots.setActivation_eq_ok_iff)
      Slot.activate_once hslots hempty
    have hnone := Slots.foldlM_store_eq_none (fun _ _ _ => Slots.setDerivative_eq_ok_iff)
      Slot.derive_once hstored hslots
    exact .nothing (by rw [Run.activation?,hnone]; rfl) (by rw [Run.derivative?,hnone]; rfl)

end Engine
end Stored

variable {α : Type} [Scalar α]

namespace Transform

/-- What a layer with weights checks of the bounds that it is given. A convolution does not check
the activation. -/
def Accepts {α : Type} (t : Transform α) (x d : Interval α) : Prop :=
  match t with
  | .dense t => x.size = t.layer.inputs ∧ ∃ rows, d.shape = [rows,t.layer.outputs]
  | .convolution t => ∃ rows, d.shape = rows :: t.output.toList
  | _ => False

/-- The indicator of the weight at an index, its cells looked up. -/
def indicator? (score : Bound α → α) (t : Transform α) (x d : Interval α) (index : List ℕ) :
    Option α :=
  match t, index with
  | .dense t, [i,j] =>
    Indicator.best? score (d.extent 0) (Indicator.denseContribution? t x d i j)
  | .convolution t, [o,ci,di,dj] =>
    Indicator.best? score (d.extent 0) (Indicator.convolutionContribution? t x d o ci di dj)
  | _, _ => none

/-- A tensor holds the indicator of every weight, and for that every cell has been there. -/
structure Indicates (score : Bound α → α) (t : Transform α) (x d : Interval α)
    (weights values : Tensor α) : Prop where
  shape : values.shape = weights.shape
  found : ∀ index, (Tensor.position? weights.shape index).isSome →
    ∃ s, t.indicator? score x d index = some s ∧ values.get? index = some s

end Transform

/-- A layer with weights, at its node. -/
structure WeightedLayer (α : Type) where
  node : Node
  transform : Transform α
  weights : Tensor α

namespace WeightedLayer

def of? {α : Type} (node : Node) (t : Option (Transform α)) : Option (WeightedLayer α) :=
  t.bind fun t => t.weights?.map fun w => ⟨node,t,w⟩

/-- How the indicators of one layer end, from the bounds that a run has stored. -/
inductive Outcome (score : Bound α → α) (r : Run α) (l : WeightedLayer α) :
    Except (Error α) (Tensor α) → Prop where
  | missing (hx : r.activation? l.node.id = none) (hd : r.derivative? l.node.id = none) :
      Outcome score r l (.error (.badOrder .noActivation))
  | refused {x d : Interval α} (hx : r.activation? l.node.id = some x)
      (hd : r.derivative? l.node.id = some d) (h : ¬ l.transform.Accepts x d)
      (expected got : List ℕ) : Outcome score r l (.error (.shapeMismatch expected got))
  | outside {x d : Interval α} {t : ConvolutionTransform α} {index : List ℕ}
      (hx : r.activation? l.node.id = some x) (hd : r.derivative? l.node.id = some d)
      (h : l.transform.Accepts x d) (convolution : l.transform = .convolution t)
      (foreign : x.shape ≠ l.node.inputShape)
      (inside : (Tensor.position? l.weights.shape index).isSome)
      (beyond : l.transform.indicator? score x d index = none) :
      Outcome score r l (.error .outsideStorage)
  | computed {x d : Interval α} {values : Tensor α} (hx : r.activation? l.node.id = some x)
      (hd : r.derivative? l.node.id = some d) (h : l.transform.Accepts x d)
      (indicates : l.transform.Indicates score x d l.weights values) :
      Outcome score r l (.ok values)

end WeightedLayer

def Engine.weightedLayers {α : Type} (e : Engine α) : List (WeightedLayer α) :=
  e.listing.filterMap fun entry => WeightedLayer.of? entry.1 entry.2

namespace Indicator

variable {score : Bound α → α} {x d : Interval α}

omit [Scalar α] in
theorem rowCount_cases (d : Interval α) (shape : List ℕ) :
    (∃ rows, d.shape = rows :: shape ∧ d.rowCount shape = .ok rows) ∨
      (¬ ∃ rows, d.shape = rows :: shape) ∧
        ∃ expected got, d.rowCount shape = .error (.shapeMismatch expected got) := by
  by_cases h : ∃ rows, d.shape = rows :: shape
  · obtain ⟨rows,h⟩ := h
    exact .inl ⟨rows,h,Interval.rowCount_eq_ok_iff.mpr h⟩
  · refine .inr ⟨h,?_⟩
    unfold Interval.rowCount
    split
    next rows rest hshape =>
      rw [if_neg fun hrest => h ⟨rows,by rw [hshape,hrest]⟩]
      exact ⟨_,_,rfl⟩
    next => exact ⟨_,_,rfl⟩

section Dense

variable {t : DenseTransform α}

theorem indicates_dense {rows : ℕ} (hx : x.size = t.layer.inputs)
    (hd : d.shape = [rows,t.layer.outputs]) :
    (Transform.dense t).Indicates score x d t.layer.weights
      (Tensor.ofFn t.layer.weights.shape fun k =>
        best score rows ((Transform.dense t).contribution x d k)) := by
  refine ⟨rfl,fun index hindex => ?_⟩
  simp only [t.layer.shape_weights,Tensor.isSome_position?_cons,Tensor.isSome_position?_nil]
    at hindex
  obtain ⟨i,hi,-,⟨j,hj,-,rfl,rfl⟩,rfl⟩ := hindex
  have hposition : Tensor.position? t.layer.weights.shape [i,j] =
      some (i * t.layer.outputs + j) := t.layer.shape_weights ▸ Tensor.position?_matrix hi hj
  refine ⟨best score rows (denseContribution t x d i j),?_,?_⟩
  · rw [Transform.indicator?,show d.extent 0 = rows by simp [Tensor.extent,hd]]
    exact best?_eq_some fun row hrow => denseContribution?_eq_some hx hd hi hj hrow
  · have hcontribution : (Transform.dense t).contribution x d (i * t.layer.outputs + j) =
        denseContribution t x d i j := by
      funext row
      rw [Transform.contribution,ImageShape.mul_add_div_of_lt hj,Nat.mul_add_mod_of_lt hj]
    rw [Tensor.get?_ofFn _ hposition,hcontribution]

end Dense

section Convolution

variable {t : ConvolutionTransform α} {image : ImageShape} {rows : ℕ}

theorem indicates_convolution (ht : t.Resolved) (hx : x.shape = image.toList)
    (hd : d.shape = rows :: t.output.toList) (hinside : ReadsInside t rows image) :
    (Transform.convolution t).Indicates score x d t.layer.weights
      (convolutionValues score t image x d rows) := by
  refine ⟨rfl,fun index hindex => ?_⟩
  simp only [t.layer.shape_weights,Tensor.isSome_position?_cons,Tensor.isSome_position?_nil]
    at hindex
  obtain ⟨o,ho,-,⟨ci,hci,-,⟨di,hdi,-,⟨dj,hdj,-,rfl,rfl⟩,rfl⟩,rfl⟩,rfl⟩ := hindex
  let filter : ImageShape := ⟨t.layer.groupInputs,t.layer.height,t.layer.width⟩
  have hshape : t.layer.weights.shape = t.layer.outputs :: filter.toList := t.layer.shape_weights
  have hposition : Tensor.position? t.layer.weights.shape [o,ci,di,dj] =
      some (filter.position (o * t.layer.groupInputs + ci) di dj) :=
    hshape ▸ Tensor.position?_rows ho hci hdi hdj
  refine ⟨best score rows (convolutionContribution t image x d o ci di dj),?_,?_⟩
  · rw [Transform.indicator?,show d.extent 0 = rows by simp [Tensor.extent,hd]]
    exact best?_eq_some fun row hrow =>
      convolutionContribution?_eq_some ht hx hd hinside ho hci hdi hdj hrow
  · have hcolumn : filter.position (o * t.layer.groupInputs + ci) di dj % t.layer.width = dj :=
      ImageShape.position_column hdj
    have hrow : filter.position (o * t.layer.groupInputs + ci) di dj / t.layer.width %
        t.layer.height = di := ImageShape.position_row hdi hdj
    have hchannel : filter.position (o * t.layer.groupInputs + ci) di dj / t.layer.width /
        t.layer.height = o * t.layer.groupInputs + ci :=
      ImageShape.position_channel hdi hdj
    rw [convolutionValues,Tensor.get?_ofFn _ hposition,hcolumn,hrow,hchannel,
      ImageShape.mul_add_div_of_lt hci,Nat.mul_add_mod_of_lt hci]

theorem exists_indicator?_eq_none (score : Bound α → α) (hx : x.shape = image.toList)
    (hd : d.shape = rows :: t.output.toList) (h : ¬ ReadsInside t rows image) :
    ∃ index, (Tensor.position? t.layer.weights.shape index).isSome ∧
      (Transform.convolution t).indicator? score x d index = none := by
  obtain ⟨hrows,o,ho,ci,hci,di,hdi,dj,hdj,hnone⟩ :=
    exists_convolutionContribution?_eq_none hx h
  refine ⟨[o,ci,di,dj],?_,?_⟩
  · simp only [t.layer.shape_weights,Tensor.isSome_position?_cons,Tensor.isSome_position?_nil]
    exact ⟨o,ho,_,⟨ci,hci,_,⟨di,hdi,_,⟨dj,hdj,_,rfl,rfl⟩,rfl⟩,rfl⟩,rfl⟩
  · rw [Transform.indicator?,show d.extent 0 = rows by simp [Tensor.extent,hd]]
    exact best?_eq_none hrows hnone

end Convolution

end Indicator

namespace WeightedLayer

variable {score : Bound α → α} {r : Run α} {l : WeightedLayer α}

/-- A layer whose node holds nothing is missing its bounds, so that only what is made of two stored
bounds is left to look at. -/
theorem outcome_of_holds {f : Interval α → Interval α → Except (Error α) (Tensor α)}
    (hr : r.Holds l.node.id)
    (h : ∀ {x d}, r.activation? l.node.id = some x → r.derivative? l.node.id = some d →
      (∀ rows (output : ImageShape), d.shape = rows :: output.toList →
        ∃ input : ImageShape, x.shape = input.toList) → l.Outcome score r (f x d)) :
    l.Outcome score r (Indicator.stored r l.node >>= fun b => f b.1 b.2) := by
  cases hr with
  | nothing hx hd =>
    rw [Indicator.stored,hx]
    exact .missing hx hd
  | @both x d hx hd image =>
    have hbounds : Indicator.stored r l.node = .ok (x,d) := by rw [Indicator.stored,hx,hd]
    rw [hbounds]
    exact h hx hd image

theorem outcome_dense {t : DenseTransform α} (ht : l.transform = .dense t)
    (hw : l.weights = t.layer.weights) {x d : Interval α} (hx : r.activation? l.node.id = some x)
    (hd : r.derivative? l.node.id = some d) : l.Outcome score r (Indicator.dense score t x d) := by
  rcases Indicator.rowCount_cases d [t.layer.outputs] with
    ⟨rows,hshape,hrows⟩ | ⟨hshape,expected,got,herr⟩
  · by_cases hsize : x.size = t.layer.inputs
    · rw [Indicator.dense_eq_ok score hsize hshape]
      refine .computed hx hd ?_ ?_
      · rw [ht]
        exact ⟨hsize,rows,hshape⟩
      · rw [ht,hw]
        exact Indicator.indicates_dense hsize hshape
    · have hrefused : Indicator.dense score t x d =
          .error (.shapeMismatch [t.layer.inputs] [x.size]) := by
        rw [Indicator.dense,hrows]
        exact if_pos hsize
      rw [hrefused]
      refine .refused hx hd ?_ _ _
      rw [ht]
      exact fun haccepts => hsize haccepts.1
  · rw [Indicator.dense,herr]
    refine .refused hx hd ?_ expected got
    rw [ht]
    exact fun haccepts => hshape haccepts.2

theorem outcome_convolution {t : ConvolutionTransform α} (ht : l.transform = .convolution t)
    (hw : l.weights = t.layer.weights) (hresolved : t.Resolved)
    (hinput : t.input.toList = l.node.inputShape) {x d : Interval α}
    (hx : r.activation? l.node.id = some x) (hd : r.derivative? l.node.id = some d)
    (himage : ∀ rows (output : ImageShape), d.shape = rows :: output.toList →
      ∃ input : ImageShape, x.shape = input.toList) :
    l.Outcome score r (Indicator.convolution score t x d) := by
  rcases Indicator.rowCount_cases d t.output.toList with
    ⟨rows,hshape,-⟩ | ⟨hshape,expected,got,herr⟩
  · obtain ⟨image,himage⟩ := himage rows t.output hshape
    have haccepts : l.transform.Accepts x d := by
      rw [ht]
      exact ⟨rows,hshape⟩
    rw [Indicator.convolution_eq score himage hshape]
    split
    next hinside =>
      refine .computed hx hd haccepts ?_
      rw [ht,hw]
      exact Indicator.indicates_convolution hresolved himage hshape hinside
    next hinside =>
      obtain ⟨index,hindex,hnone⟩ :=
        Indicator.exists_indicator?_eq_none score himage hshape hinside
      refine .outside hx hd haccepts ht ?_ (hw ▸ hindex) (ht ▸ hnone)
      intro hsame
      obtain rfl : image = t.input :=
        ImageShape.toList_injective (himage.symm.trans (hsame.trans hinput.symm))
      exact hinside (Indicator.readsInside_of_resolved hresolved rows)
  · rw [Indicator.convolution,herr]
    refine .refused hx hd ?_ expected got
    rw [ht]
    exact hshape

/-- What the indicators of a node end in, named by the layer where it is an error. -/
def Ends (score : Bound α → α) (r : Run α) (c : Except (Error α) (LayerIndicators α))
    (l : WeightedLayer α) : Prop :=
  ∃ o, l.Outcome score r o ∧
    c = Error.within l.node.id l.node.path (o.map (LayerIndicators.mk l.node.path))

theorem Ends.of_ok {i : LayerIndicators α} (h : Ends score r (.ok i) l) :
    i.path = l.node.path ∧ l.Outcome score r (.ok i.values) := by
  obtain ⟨o,ho,heq⟩ := h
  cases o with
  | error cause => cases heq
  | ok values =>
    obtain rfl := Except.ok.inj heq
    exact ⟨rfl,ho⟩

theorem Ends.of_error {err : Error α} (h : Ends score r (.error err) l) :
    ∃ cause, l.Outcome score r (.error cause) ∧ err = .inLayer l.node.id l.node.path cause := by
  obtain ⟨o,ho,heq⟩ := h
  cases o with
  | ok values => cases heq
  | error cause =>
    obtain rfl := Except.error.inj heq
    refine ⟨cause,ho,?_⟩
    cases ho <;> rfl

omit [Scalar α] in
theorem map_indicators (f : Interval α → Interval α → Except (Error α) (Tensor α)) (path : String)
    (bounds : Except (Error α) (Interval α × Interval α)) :
    (do let (x,d) ← bounds; return ⟨path,← f x d⟩) =
      (bounds >>= fun b => f b.1 b.2).map (LayerIndicators.mk path) := by
  rcases bounds with cause | ⟨x,d⟩
  · rfl
  · change (f x d >>= fun values => pure ⟨path,values⟩) = (f x d).map (LayerIndicators.mk path)
    cases f x d <;> rfl

theorem rel_ofNode {node : Node} (hr : r.Holds node.id) {t : Option (Transform α)}
    (ht : ∀ u, t = some u → u.Fits node.inputShape node.outputShape) :
    Option.Rel (Ends score r) (Indicator.ofNode score r node t) (of? node t) := by
  cases t with
  | none => exact .none
  | some t =>
    have hfits := ht t rfl
    cases t with
    | dense t =>
      let l : WeightedLayer α := ⟨node,.dense t,t.layer.weights⟩
      refine .some ⟨_,outcome_of_holds (l := l) hr fun hx hd _ => outcome_dense rfl rfl hx hd,?_⟩
      exact congrArg (Error.within _ _) (map_indicators (Indicator.dense score t) _ _)
    | convolution t =>
      obtain ⟨hresolved,hinput,-⟩ := hfits
      let l : WeightedLayer α := ⟨node,.convolution t,t.layer.weights⟩
      refine .some ⟨_,outcome_of_holds (l := l) hr fun hx hd himage =>
        outcome_convolution rfl rfl hresolved hinput hx hd himage,?_⟩
      exact congrArg (Error.within _ _) (map_indicators (Indicator.convolution score t) _ _)
    | pooling t => exact .none
    | responseNorm t => exact .none
    | relu => exact .none
    | softmax => exact .none
    | dropout keep => exact .none

end WeightedLayer

theorem Engine.map_weightedLayers {net : Network α} {e : Engine α} (he : compile net = .ok e) :
    e.weightedLayers.map (fun l => (l.node.path,l.weights)) = net.weighted := by
  rw [← weights_listing he,weightedLayers,List.map_filterMap]
  refine List.filterMap_congr fun entry _ => ?_
  obtain ⟨node,t⟩ := entry
  cases t with
  | none => rfl
  | some t =>
    simp only [WeightedLayer.of?,Node.weights?,Option.bind_some,Option.map_map]
    rfl

/-- The indicators that an engine computes from a run of any compiled network. Either each of its
layers has its own, and all cells looked up for them have been there, or they end in the error of
the first layer that has none. Only a convolution can read beyond what is stored, where the
activation is not of the shape of its input. -/
theorem Indicators.compute_outcome {net net' : Network α} {e e' : Engine α} {x seed : Interval α}
    {r : Run α} (he : Engine.compile net = .ok e) (he' : Engine.compile net' = .ok e')
    (hr : e'.propagate x seed = .ok r) (score : Bound α → α) :
    e.weightedLayers.map (fun l => (l.node.path,l.weights)) = net.weighted ∧
      ((∃ ind, compute score e r = .ok ind ∧ List.Forall₂ (fun l i =>
          i.path = l.node.path ∧ l.Outcome score r (.ok i.values)) e.weightedLayers ind.layers) ∨
        ∃ before l after cause, e.weightedLayers = before ++ l :: after ∧
          (∀ l' ∈ before, ∃ values, l'.Outcome score r (.ok values)) ∧
          l.Outcome score r (.error cause) ∧
          compute score e r = .error (.inLayer l.node.id l.node.path cause)) := by
  refine ⟨Engine.map_weightedLayers he,?_⟩
  have hends : List.Forall₂ (WeightedLayer.Ends score r)
      (e.listing.filterMap fun entry => Indicator.ofNode score r entry.1 entry.2)
      e.weightedLayers := by
    refine List.rel_filterMap ?_ (List.forall₂_same.mpr fun entry hentry => ⟨rfl,hentry⟩ :
      List.Forall₂ (fun entry entry' => entry = entry' ∧ entry ∈ e.listing) e.listing e.listing)
    rintro ⟨node,t⟩ - ⟨rfl,hentry⟩
    exact WeightedLayer.rel_ofNode (Engine.holds_of_propagate he' hr node.id) fun u hu =>
      (Engine.fits_of_compile he).fits_of_mem_listing (hu ▸ hentry)
  rcases Error.mapM_id_cases hends with
    ⟨layers,hlayers,hall⟩ | ⟨before,l,after,err,hsplit,hbefore,hl,herr⟩
  · refine .inl ⟨⟨layers⟩,?_,hall.imp fun l i hi => hi.of_ok⟩
    rw [compute,hlayers]
    rfl
  · obtain ⟨cause,hcause,rfl⟩ := hl.of_error
    refine .inr ⟨before,l,after,cause,hsplit,fun l' hl' => ?_,hcause,?_⟩
    · obtain ⟨i,hi⟩ := hbefore l' hl'
      exact ⟨i.values,hi.of_ok.2⟩
    · rw [compute,herr]
      rfl

/-- A convolution of 2 × 2 cells is given the run of one of a single cell. -/
theorem Indicators.compute_outcome_small : ∃ (net net' : Network Single) (e e' : Engine Single)
    (r : Run Single) (l : WeightedLayer Single), Engine.compile net = .ok e ∧
      Engine.compile net' = .ok e' ∧
      e'.propagate (Interval.zeros [1,1,1]) (Interval.zeros [1,1,1,1]) = .ok r ∧
      e.weightedLayers = [l] ∧ l.Outcome Score.maxAbs.apply r (.error .outsideStorage) ∧
      compute Score.maxAbs.apply e r = .error (.inLayer 0 "c" .outsideStorage) := by
  let filter (n : ℕ) : Network Single := ⟨"n",[1,n,n],.single "c"
    (.convolution ⟨1,1,n,n,Tensor.fill [1,1,n,n] 1,rfl,#[0],1,0,1⟩) .nil⟩
  obtain ⟨e,e',r,l,he,he',hr,hl,herr⟩ : ∃ e e' r l, Engine.compile (filter 2) = .ok e ∧
      Engine.compile (filter 1) = .ok e' ∧
      e'.propagate (Interval.zeros [1,1,1]) (Interval.zeros [1,1,1,1]) = .ok r ∧
      e.weightedLayers = [l] ∧ compute Score.maxAbs.apply e r =
        .error (.inLayer 0 "c" .outsideStorage) := ⟨_,_,_,_,rfl,rfl,rfl,rfl,rfl⟩
  refine ⟨filter 2,filter 1,e,e',r,l,he,he',hr,hl,?_,herr⟩
  obtain ⟨-,⟨ind,hind,-⟩ | ⟨before,l',after,cause,hsplit,-,hcause,herr'⟩⟩ :=
    compute_outcome he he' hr Score.maxAbs.apply
  · cases herr.symm.trans hind
  · have hmem : l' ∈ e.weightedLayers := hsplit ▸ List.mem_append_cons_self
    rw [hl,List.mem_singleton] at hmem
    subst hmem
    obtain ⟨-,-,rfl⟩ := Error.inLayer.inj (Except.error.inj (herr.symm.trans herr'))
    exact hcause

end Sensitivity
