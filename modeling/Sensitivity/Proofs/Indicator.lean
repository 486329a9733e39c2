import Sensitivity.Indicator
import Sensitivity.Proofs.Propagation

/-! Which weights the indicators of a run are about: there is one tensor of them for each
weighted layer of the network, in the order of declaration and in the shape of its weights. -/
namespace Sensitivity

variable {α : Type} [Scalar α]

def Transform.weights? : Transform α → Option (Tensor α)
  | .dense t => some t.layer.weights
  | .convolution t => some t.layer.weights
  | _ => none

theorem Transform.Resolves.weights? {op : Operation α} {shape out : List ℕ} {t : Transform α}
    (h : Transform.Resolves op shape t out) : t.weights? = op.weights? := by
  cases h <;> rfl

/-- The path and the weights of a weighted node. -/
def Node.weights? (entry : Node × Option (Transform α)) : Option (String × Tensor α) :=
  (entry.2.bind Transform.weights?).map fun w => (entry.1.path,w)

mutual

/-- The weighted nodes of compiled layers are the weighted layers, in their order. -/
theorem Layers.weights_compile (layers : Layers α) {shape out : List ℕ} {parent : String}
    {depth : ℕ} {n m : Numbering} {plan : Plan α Node}
    (h : layers.compile shape parent depth n = .ok (plan,out,m)) :
    plan.listing.filterMap Node.weights? = layers.weighted parent := by
  cases layers with
  | nil =>
    obtain ⟨rfl,-,-⟩ := Layers.compile_nil_eq_ok_iff.mp h
    rfl
  | single name op rest =>
    obtain ⟨t,middle,after,hfit,hrest,rfl⟩ := Layers.compile_single_eq_ok_iff.mp h
    have ht := (Transform.resolves_of_ofOperation (Operation.fit_eq_ok hfit)).weights?
    have hnode : Node.weights? (op.node name parent depth n shape middle,some t) =
        op.weights?.map fun w => (layerPath parent name,w) := by
      simp [Node.weights?,ht,Operation.node]
    rw [Plan.listing,Layers.weighted,List.filterMap_cons,hnode,rest.weights_compile hrest]
    cases op.weights? <;> simp
  | block name branches rest =>
    obtain ⟨image,plans,channels,k,after,-,hbranches,hrest,rfl⟩ :=
      Layers.compile_block_eq_ok_iff.mp h
    rw [Plan.listing,Layers.weighted,List.filterMap_cons_none rfl,List.filterMap_append,
      branches.weights_compile hbranches,rest.weights_compile hrest]

theorem Branches.weights_compile (branches : Branches α) {image : ImageShape} {parent : String}
    {depth channels : ℕ} {n m : Numbering} {plans : BranchPlans α Node}
    (h : branches.compile image parent depth n = .ok (plans,channels,m)) :
    plans.listing.filterMap Node.weights? = branches.weighted parent := by
  cases branches with
  | nil =>
    obtain ⟨rfl,-,-⟩ := Branches.compile_nil_eq_ok_iff.mp h
    rfl
  | cons name layers rest =>
    obtain ⟨steps,width,k,after,others,hlayers,hrest,rfl,rfl⟩ :=
      Branches.compile_cons_eq_ok_iff.mp h
    rw [BranchPlans.listing,Branches.weighted,List.filterMap_append,
      layers.weights_compile hlayers,rest.weights_compile hrest]

end

theorem Engine.weights_listing {net : Network α} {e : Engine α} (h : compile net = .ok e) :
    e.listing.filterMap Node.weights? = net.weighted := by
  obtain ⟨-,-,-,m,hplan⟩ := compile_eq_ok_iff.mp h
  exact net.layers.weights_compile hplan

namespace Indicator

theorem shape_dense {score : Bound α → α} {t : DenseTransform α} {x d : Interval α} {v : Tensor α}
    (h : dense score t x d = .ok v) : v.shape = t.layer.weights.shape := by
  simp only [dense,Error.bind_eq_ok_iff] at h
  obtain ⟨rows,-,h⟩ := h
  split at h
  · cases h
  · obtain rfl := Error.pure_eq_ok_iff.mp h
    exact t.layer.shape_weights.symm

theorem shape_convolution {score : Bound α → α} {t : ConvolutionTransform α} {x d : Interval α}
    {v : Tensor α} (h : convolution score t x d = .ok v) : v.shape = t.layer.weights.shape := by
  simp only [convolution,Error.bind_eq_ok_iff] at h
  obtain ⟨rows,-,h⟩ := h
  split at h
  next =>
    split at h
    · obtain rfl := Error.pure_eq_ok_iff.mp h
      exact t.layer.shape_weights.symm
    · cases h
  next => cases h

end Indicator

/-- Indicators in the order and the shapes of the weighted layers of a network. -/
def Indicators.Match (ind : Indicators α) (net : Network α) : Prop :=
  List.Forall₂ (fun w l => l.path = w.1 ∧ l.values.shape = w.2.shape) net.weighted ind.layers

theorem Indicators.compute_eq_ok_iff {score : Bound α → α} {e : Engine α} {r : Run α}
    {ind : Indicators α} :
    Indicators.compute score e r = .ok ind ↔
      List.Forall₂ (fun c l => c = .ok l)
        (e.listing.filterMap fun entry => Indicator.ofNode score r entry.1 entry.2) ind.layers := by
  simp only [Indicators.compute,Error.bind_eq_ok_iff,Error.mapM_eq_ok_iff,Error.pure_eq_ok_iff,id]
  constructor
  · rintro ⟨layers,h,rfl⟩
    exact h
  · intro h
    exact ⟨ind.layers,h,rfl⟩

theorem Indicator.rel_ofNode (score : Bound α → α) (r : Run α)
    (entry : Node × Option (Transform α)) :
    Option.Rel (fun w c => ∀ l, c = .ok l → l.path = w.1 ∧ l.values.shape = w.2.shape)
      (Node.weights? entry) (Indicator.ofNode score r entry.1 entry.2) := by
  obtain ⟨node,t⟩ := entry
  cases t with
  | none => exact .none
  | some t =>
    cases t with
    | dense t =>
      refine .some fun l hl => ?_
      simp only [Error.within_eq_ok_iff,Error.bind_eq_ok_iff,Error.pure_eq_ok_iff] at hl
      obtain ⟨bounds,-,v,hv,rfl⟩ := hl
      exact ⟨rfl,shape_dense hv⟩
    | convolution t =>
      refine .some fun l hl => ?_
      simp only [Error.within_eq_ok_iff,Error.bind_eq_ok_iff,Error.pure_eq_ok_iff] at hl
      obtain ⟨bounds,-,v,hv,rfl⟩ := hl
      exact ⟨rfl,shape_convolution hv⟩
    | pooling t => exact .none
    | responseNorm t => exact .none
    | relu => exact .none
    | softmax => exact .none
    | dropout keep => exact .none

theorem Indicators.match_of_compute {net : Network α} {e : Engine α} {score : Bound α → α}
    {r : Run α} {ind : Indicators α} (he : Engine.compile net = .ok e)
    (h : Indicators.compute score e r = .ok ind) : ind.Match net := by
  have hrel : List.Forall₂ (fun w c => ∀ l, c = .ok l → l.path = w.1 ∧ l.values.shape = w.2.shape)
      (e.listing.filterMap Node.weights?)
      (e.listing.filterMap fun entry => Indicator.ofNode score r entry.1 entry.2) := by
    refine List.rel_filterMap ?_ (List.forall₂_eq_eq_eq ▸ rfl : List.Forall₂ Eq e.listing e.listing)
    rintro entry _ rfl
    exact Indicator.rel_ofNode score r entry
  rw [Engine.weights_listing he] at hrel
  have hcompute := compute_eq_ok_iff.mp h
  have hlength := hrel.length_eq.trans hcompute.length_eq
  refine List.forall₂_iff_get.mpr ⟨hlength,?_⟩
  intro i hi hi'
  have hi'' := hrel.length_eq ▸ hi
  exact (hrel.get hi hi'') _ (hcompute.get hi'' hi')

end Sensitivity
