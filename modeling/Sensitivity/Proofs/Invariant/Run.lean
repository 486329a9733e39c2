import Sensitivity.Proofs.Relation
import Sensitivity.Proofs.Shape.Passage

/-! What single layers keep, whole runs keep. A relation between the bounds of two runs of a plan
holds at every node of both passes when each layer keeps it; a property of the bounds of one run
is the case of two equal runs. -/
namespace Sensitivity

variable {α : Type} [Scalar α]

/-- A relation between bounds that sums keep. -/
structure Kept (R : Bound α → Bound α → Prop) : Prop where
  zero : R 0 0
  add : ∀ {a b c d : Bound α}, R a b → R c d → R (a.add c) (b.add d)

/-- A layer keeps a relation on the way forward. -/
def Transform.KeepsForward (R : Bound α → Bound α → Prop) (t : Transform α) : Prop :=
  ∀ {x x' y y' : Interval α}, Tensor.Rel R x x' → t.forward x = .ok y → t.forward x' = .ok y' →
    Tensor.Rel R y y'

def KeepsForward (R : Bound α → Bound α → Prop) (entries : List (Node × Option (Transform α))) :
    Prop :=
  ∀ entry ∈ entries, ∀ t ∈ entry.2, t.KeepsForward R

/-- A layer keeps a relation on the way back from two inputs. -/
def Transform.KeepsBackward (R : Bound α → Bound α → Prop) (t : Transform α) (x x' : Interval α) :
    Prop :=
  ∀ {d d' e e' : Interval α}, Tensor.Rel R d d' → t.backward x d = .ok e →
    t.backward x' d' = .ok e' → Tensor.Rel R e e'

/-- Each layer of a listing keeps a relation on the way back from its input in a run. -/
def KeepsBackward (R : Bound α → Bound α → Prop) (entries : List (Node × Option (Transform α)))
    (passages : List (Passage α Node)) : Prop :=
  ∀ p ∈ passages, ∀ t, (p.note,some t) ∈ entries → ∀ x', Tensor.Rel R p.input x' →
    t.KeepsBackward R p.input x'

/-- Two passages through one node whose bounds are related. -/
structure Passage.Related (R : Bound α → Bound α → Prop) (p p' : Passage α Node) : Prop where
  note : p.note = p'.note
  input : Tensor.Rel R p.input p'.input
  output : Tensor.Rel R p.output p'.output
  sensitivity : Tensor.Rel R p.sensitivity p'.sensitivity
  returned : Tensor.Rel R p.returned p'.returned

variable {R : Bound α → Bound α → Prop}

theorem KeepsBackward.mono {entries entries' : List (Node × Option (Transform α))}
    {passages passages' : List (Passage α Node)} (h : KeepsBackward R entries passages)
    (hentries : entries' ⊆ entries) (hpassages : passages' ⊆ passages) :
    KeepsBackward R entries' passages' :=
  fun p hp t ht => h p (hpassages hp) t (hentries ht)

theorem Kept.addReturned (hR : Kept R) {total total' : Option (Interval α)}
    {e e' sum sum' : Interval α} (htotal : Option.Rel (Tensor.Rel R) total total')
    (he : Tensor.Rel R e e') (h : addReturned total e = .ok sum)
    (h' : Sensitivity.addReturned total' e' = .ok sum') : Tensor.Rel R sum sum' := by
  cases htotal with
  | none =>
    obtain rfl := Except.ok.inj h
    obtain rfl := Except.ok.inj h'
    exact he
  | some ht => exact ht.zip he (fun _ _ _ _ hb hc => hR.add hb hc) h h'

mutual

theorem Plan.related_forward (hR : Kept R) (plan : Plan α Node)
    (hforward : KeepsForward R plan.listing) {x x' y y' d d' e e' : Interval α}
    {passages passages' : List (Passage α Node)} (h : plan.Passes x y d e passages)
    (h' : plan.Passes x' y' d' e' passages') (hx : Tensor.Rel R x x') :
    Tensor.Rel R y y' ∧
      List.Forall₂ (fun p p' => Tensor.Rel R p.input p'.input) passages passages' := by
  cases plan with
  | done =>
    cases h
    cases h'
    exact ⟨hx,.nil⟩
  | layer node t rest =>
    cases h with
    | layer hz hafter _ =>
    cases h' with
    | layer hz' hafter' _ =>
      obtain ⟨hlayer,hforward⟩ := List.forall_mem_cons.mp hforward
      obtain ⟨hy,hpassages⟩ :=
        rest.related_forward hR hforward hafter hafter' (hlayer t rfl hx hz hz')
      exact ⟨hy,.cons hx hpassages⟩
  | block node branches rest =>
    cases h with
    | block hsplit hz hafter =>
    cases h' with
    | block hsplit' hz' hafter' =>
      obtain ⟨hinside,hforward⟩ := List.forall_mem_append.mp (List.forall_mem_cons.mp hforward).2
      obtain ⟨houtputs,hnested⟩ := branches.related_forward hR hinside hsplit hsplit' hx
      obtain ⟨hy,hpassages⟩ := rest.related_forward hR hforward hafter hafter'
        (Tensor.rel_concat houtputs hR.zero hz hz')
      exact ⟨hy,.cons hx (List.rel_append hnested hpassages)⟩

theorem BranchPlans.related_forward (hR : Kept R) (branches : BranchPlans α Node)
    (hforward : KeepsForward R branches.listing) {offset offset' : ℕ} {x x' d d' : Interval α}
    {total total' last last' : Option (Interval α)} {outputs outputs' : List (Interval α)}
    {passages passages' : List (Passage α Node)}
    (h : branches.Passes x d offset total outputs last passages)
    (h' : branches.Passes x' d' offset' total' outputs' last' passages')
    (hx : Tensor.Rel R x x') : List.Forall₂ (Tensor.Rel R) outputs outputs' ∧
      List.Forall₂ (fun p p' => Tensor.Rel R p.input p'.input) passages passages' := by
  cases branches with
  | done =>
    cases h
    cases h'
    exact ⟨.nil,.nil⟩
  | branch steps width rest =>
    cases h with
    | branch _ hfirst _ hothers =>
    cases h' with
    | branch _ hfirst' _ hothers' =>
      obtain ⟨hsteps,hforward⟩ := List.forall_mem_append.mp hforward
      obtain ⟨hy,hinside⟩ := steps.related_forward hR hsteps hfirst hfirst' hx
      obtain ⟨houtputs,hpassages⟩ := rest.related_forward hR hforward hothers hothers' hx
      exact ⟨.cons hy houtputs,List.rel_append hinside hpassages⟩

end

mutual

/-- Where each layer keeps a relation in both directions, two runs are related at every node. -/
theorem Plan.related (hR : Kept R) (plan : Plan α Node) (hforward : KeepsForward R plan.listing)
    {x x' y y' d d' e e' : Interval α} {passages passages' : List (Passage α Node)}
    (h : plan.Passes x y d e passages) (h' : plan.Passes x' y' d' e' passages')
    (hkeeps : KeepsBackward R plan.listing passages) (hx : Tensor.Rel R x x')
    (hd : Tensor.Rel R d d') :
    Tensor.Rel R e e' ∧ List.Forall₂ (Passage.Related R) passages passages' := by
  cases plan with
  | done =>
    cases h
    cases h'
    exact ⟨hd,.nil⟩
  | layer node t rest =>
    cases h with
    | layer hz hafter he =>
    cases h' with
    | layer hz' hafter' he' =>
      obtain ⟨hlayer,hforward⟩ := List.forall_mem_cons.mp hforward
      have hz := hlayer t rfl hx hz hz'
      have hafterKeeps := hkeeps.mono (List.subset_cons_self _ _) (List.subset_cons_self _ _)
      obtain ⟨hf,hpassages⟩ := rest.related hR hforward hafter hafter' hafterKeeps hz hd
      have he := hkeeps _ List.mem_cons_self t List.mem_cons_self _ hx hf he he'
      exact ⟨he,.cons ⟨rfl,hx,hz,hf,he⟩ hpassages⟩
  | block node branches rest =>
    cases h with
    | block hsplit hz hafter =>
    cases h' with
    | block hsplit' hz' hafter' =>
      obtain ⟨hinside,hforward⟩ := List.forall_mem_append.mp (List.forall_mem_cons.mp hforward).2
      obtain ⟨houtputs,-⟩ := branches.related_forward hR hinside hsplit hsplit' hx
      have hz := Tensor.rel_concat houtputs hR.zero hz hz'
      obtain ⟨hf,hpassages⟩ := rest.related hR hforward hafter hafter'
        (hkeeps.mono (List.subset_cons_of_subset _ (List.subset_append_right _ _))
          (List.subset_cons_of_subset _ (List.subset_append_right _ _))) hz hd
      obtain ⟨hlast,hnested⟩ := branches.related hR hinside hsplit hsplit'
        (hkeeps.mono (List.subset_cons_of_subset _ (List.subset_append_left _ _))
          (List.subset_cons_of_subset _ (List.subset_append_left _ _))) hx hf .none
      cases hlast with
      | some he => exact ⟨he,.cons ⟨rfl,hx,hz,hf,he⟩ (List.rel_append hnested hpassages)⟩

theorem BranchPlans.related (hR : Kept R) (branches : BranchPlans α Node)
    (hforward : KeepsForward R branches.listing) {offset : ℕ}
    {x x' d d' : Interval α} {total total' last last' : Option (Interval α)}
    {outputs outputs' : List (Interval α)} {passages passages' : List (Passage α Node)}
    (h : branches.Passes x d offset total outputs last passages)
    (h' : branches.Passes x' d' offset total' outputs' last' passages')
    (hkeeps : KeepsBackward R branches.listing passages) (hx : Tensor.Rel R x x')
    (hd : Tensor.Rel R d d') (htotal : Option.Rel (Tensor.Rel R) total total') :
    Option.Rel (Tensor.Rel R) last last' ∧
      List.Forall₂ (Passage.Related R) passages passages' := by
  cases branches with
  | done =>
    cases h
    cases h'
    exact ⟨htotal,.nil⟩
  | branch steps width rest =>
    cases h with
    | branch hpart hfirst hadded hothers =>
    cases h' with
    | branch hpart' hfirst' hadded' hothers' =>
      obtain ⟨hsteps,hforward⟩ := List.forall_mem_append.mp hforward
      have hparts := hd.slice hR.zero hpart hpart'
      obtain ⟨he,hinside⟩ := steps.related hR hsteps hfirst hfirst'
        (hkeeps.mono (List.subset_append_left _ _) (List.subset_append_left _ _)) hx hparts
      have hsum := hR.addReturned htotal he hadded hadded'
      obtain ⟨hlast,hpassages⟩ := rest.related hR hforward hothers hothers'
        (hkeeps.mono (List.subset_append_right _ _) (List.subset_append_right _ _)) hx hd
        (.some hsum)
      exact ⟨hlast,List.rel_append hinside hpassages⟩

end

/-- Every cell of an interval has a property. -/
def Interval.All (P : Bound α → Prop) (x : Interval α) : Prop := ∀ i < x.shape.prod, P (x.read i)

/-- A property of bounds that sums keep. -/
structure Preserved (P : Bound α → Prop) : Prop where
  zero : P 0
  add : ∀ {a b : Bound α}, P a → P b → P (a.add b)

section Property

variable {P : Bound α → Prop}

theorem Interval.rel_eq_and_iff {x x' : Interval α} :
    Tensor.Rel (fun b c => b = c ∧ P b) x x' ↔ x = x' ∧ x.All P := by
  constructor
  · intro h
    have heq : x = x' := Tensor.ext_read h.shape fun i hi => (h.cells i (h.shape ▸ hi)).1
    exact ⟨heq,fun i hi => (h.cells i (h.shape ▸ hi)).2⟩
  · rintro ⟨rfl,h⟩
    exact ⟨rfl,fun i hi => ⟨rfl,h i hi⟩⟩

theorem Preserved.kept (hP : Preserved P) : Kept fun b c => b = c ∧ P b where
  zero := ⟨rfl,hP.zero⟩
  add := by
    rintro a _ c _ ⟨rfl,ha⟩ ⟨rfl,hc⟩
    exact ⟨rfl,hP.add ha hc⟩

/-- A layer keeps a property on the way forward. -/
def Transform.Preserves (P : Bound α → Prop) (t : Transform α) : Prop :=
  ∀ {x y : Interval α}, x.All P → t.forward x = .ok y → y.All P

theorem KeepsForward.of_preserves {entries : List (Node × Option (Transform α))}
    (h : ∀ entry ∈ entries, ∀ t ∈ entry.2, t.Preserves P) :
    KeepsForward (fun b c => b = c ∧ P b) entries := by
  intro entry hentry t ht x x' y y' hx hy hy'
  obtain ⟨rfl,hall⟩ := Interval.rel_eq_and_iff.mp hx
  obtain rfl := Except.ok.inj (hy.symm.trans hy')
  exact Interval.rel_eq_and_iff.mpr ⟨rfl,h entry hentry t ht hall hy⟩

namespace Engine

variable {net : Network α} {e : Engine α} {x seed : Interval α} {r : Run α}

/-- What all layers keep on the way forward holds of every activation. -/
theorem all_activations (hP : Preserved P) (he : compile net = .ok e)
    (hforward : ∀ entry ∈ e.listing, ∀ t ∈ entry.2, t.Preserves P)
    (hr : e.propagate x seed = .ok r) (hx : x.All P) : r.output.All P ∧
      ∀ id < e.nodeCount, ∃ a, r.activation? id = some a ∧ a.All P := by
  obtain ⟨passages,hpasses,hnotes,hstores⟩ := exists_passes_of_propagate he hr
  have hx := Interval.rel_eq_and_iff.mpr ⟨rfl,hx⟩
  obtain ⟨hy,hinputs⟩ :=
    e.plan.related_forward hP.kept (.of_preserves hforward) hpasses hpasses hx
  refine ⟨(Interval.rel_eq_and_iff.mp hy).2,fun id hid => ?_⟩
  obtain ⟨p,_,hp,⟨ha,-⟩,-⟩ := Run.exists_stored hinputs hnotes hstores hstores hid
  exact ⟨_,ha,(Interval.rel_eq_and_iff.mp hp).2⟩

/-- What each layer keeps on the way back, from the input that a run has stored for it, holds of
every derivative. -/
theorem all_derivatives (hP : Preserved P) (he : compile net = .ok e)
    (hforward : ∀ entry ∈ e.listing, ∀ t ∈ entry.2, t.Preserves P)
    (hr : e.propagate x seed = .ok r) (hx : x.All P) (hseed : seed.All P)
    (hback : ∀ id node t a, e.listing[id]? = some (node,some t) → r.activation? id = some a →
      a.All P → ∀ d f, d.All P → t.backward a d = .ok f → f.All P) : r.inputDerivative.All P ∧
      ∀ id < e.nodeCount, ∃ d, r.derivative? id = some d ∧ d.All P := by
  obtain ⟨passages,hpasses,hnotes,hstores⟩ := exists_passes_of_propagate he hr
  have hx := Interval.rel_eq_and_iff.mpr ⟨rfl,hx⟩
  have hseed := Interval.rel_eq_and_iff.mpr ⟨rfl,hseed⟩
  have hkeeps : KeepsBackward (fun b c => b = c ∧ P b) e.plan.listing passages := by
    intro p hp t ht x' hx' d d' f f' hd hf hf'
    obtain ⟨rfl,ha⟩ := Interval.rel_eq_and_iff.mp hx'
    obtain ⟨rfl,hall⟩ := Interval.rel_eq_and_iff.mp hd
    obtain rfl := Except.ok.inj (hf.symm.trans hf')
    obtain ⟨k,hk⟩ := List.getElem?_of_mem hp
    obtain ⟨j,hj⟩ := List.getElem?_of_mem ht
    obtain rfl : j = k :=
      (id_of_listing_getElem? he hj).symm.trans (id_of_passages_getElem? he hnotes hk)
    exact Interval.rel_eq_and_iff.mpr ⟨rfl,hback j _ t _ hj (hstores j p hk).1 ha d f hall hf⟩
  obtain ⟨hreturned,hall⟩ :=
    e.plan.related hP.kept (.of_preserves hforward) hpasses hpasses hkeeps hx hseed
  refine ⟨(Interval.rel_eq_and_iff.mp hreturned).2,fun id hid => ?_⟩
  obtain ⟨p,_,hp,⟨-,hd⟩,-⟩ := Run.exists_stored hall hnotes hstores hstores hid
  exact ⟨_,hd,(Interval.rel_eq_and_iff.mp hp.sensitivity).2⟩

end Engine

end Property

end Sensitivity
