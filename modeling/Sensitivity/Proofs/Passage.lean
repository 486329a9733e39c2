import Sensitivity.Proofs.Propagation

/-! Both passes of a run as one relation. At each node a run has an input and an output, a
sensitivity to the output, and what it passes back to the input; the output of a layer is the
input of the next one, and what a layer passes back is the sensitivity of the one before. A run
of a compiled network succeeds exactly when this relation holds, and stores what it relates. -/
namespace Sensitivity

variable {α ν : Type}

/-- What a run has at one node. -/
structure Passage (α ν : Type) where
  note : ν
  input : Interval α
  output : Interval α
  sensitivity : Interval α
  returned : Interval α

variable [Scalar α]

mutual

/-- The layers take `x` to `y`, and a sensitivity `d` to `y` back to `e`; the passages are in the
order of declaration, a block before what it holds. -/
inductive Plan.Passes : Plan α ν → (x y d e : Interval α) → List (Passage α ν) → Prop where
  | done (x d : Interval α) : Plan.Passes .done x x d d []
  | layer {note : ν} {t : Transform α} {rest : Plan α ν} {x y z d e f : Interval α}
      {passages : List (Passage α ν)} (forward : t.forward x = .ok z)
      (after : Plan.Passes rest z y d f passages) (backward : t.backward x f = .ok e) :
      Plan.Passes (.layer note t rest) x y d e (⟨note,x,z,f,e⟩ :: passages)
  | block {note : ν} {branches : BranchPlans α ν} {rest : Plan α ν} {x y z d e f : Interval α}
      {outputs : List (Interval α)} {inside passages : List (Passage α ν)}
      (split : BranchPlans.Passes branches x f 0 none outputs (some e) inside)
      (merged : Tensor.concat outputs 0 = (.ok z : Except (Error α) (Interval α)))
      (after : Plan.Passes rest z y d f passages) :
      Plan.Passes (.block note branches rest) x y d e (⟨note,x,z,f,e⟩ :: (inside ++ passages))

/-- The branches all take `x`, and their channels of `d` from an offset on; what they pass back is
added to what branches before them have passed back. -/
inductive BranchPlans.Passes : BranchPlans α ν → (x d : Interval α) → ℕ → Option (Interval α) →
    List (Interval α) → Option (Interval α) → List (Passage α ν) → Prop where
  | done (x d : Interval α) (offset : ℕ) (total : Option (Interval α)) :
      BranchPlans.Passes .done x d offset total [] total []
  | branch {steps : Plan α ν} {width : ℕ} {rest : BranchPlans α ν} {x y d part e sum : Interval α}
      {offset : ℕ} {total last : Option (Interval α)} {outputs : List (Interval α)}
      {inside passages : List (Passage α ν)}
      (cut : d.slice 1 offset (offset + width) = (.ok part : Except (Error α) (Interval α)))
      (first : Plan.Passes steps x y part e inside) (added : addReturned total e = .ok sum)
      (others : BranchPlans.Passes rest x d (offset + width) (some sum) outputs last passages) :
      BranchPlans.Passes (.branch steps width rest) x d offset total (y :: outputs) last
        (inside ++ passages)

end

namespace Passage

def activation (p : Passage α Node) : Node × Interval α := (p.note,p.input)

def derivative (p : Passage α Node) : Node × Interval α := (p.note,p.sensitivity)

end Passage

mutual

theorem Plan.exists_passes (plan : Plan α Node) {x y d e : Interval α}
    {trace : Plan α (Node × Interval α)} {log : List (Node × Interval α)}
    (hforward : plan.forward x = .ok (trace,y)) (hbackward : trace.backward d = .ok (log,e)) :
    ∃ passages, plan.Passes x y d e passages ∧
      trace.activations.Perm (passages.map Passage.activation) ∧
      log.Perm (passages.map Passage.derivative) := by
  cases plan with
  | done =>
    obtain ⟨rfl,rfl⟩ := Prod.mk.inj (Except.ok.inj hforward)
    obtain ⟨rfl,rfl⟩ := Prod.mk.inj (Except.ok.inj hbackward)
    exact ⟨[],.done _ _,.nil,.nil⟩
  | layer node t rest =>
    obtain ⟨z,after,hz,hrest,rfl⟩ := Plan.forward_layer_eq_ok_iff.mp hforward
    obtain ⟨later,f,hlater,he,rfl⟩ := Plan.backward_layer_eq_ok_iff.mp hbackward
    -- The log runs backwards, so both passes meet the same nodes in another order.
    obtain ⟨passages,hpasses,hactivations,hlog⟩ := rest.exists_passes hrest hlater
    refine ⟨_,.layer hz hpasses he,hactivations.cons _,?_⟩
    exact (List.perm_append_singleton _ _).trans (hlog.cons _)
  | block node branches rest =>
    obtain ⟨traces,outputs,z,after,hbranches,hz,hrest,rfl⟩ :=
      Plan.forward_block_eq_ok_iff.mp hforward
    obtain ⟨later,f,inside,hlater,hinside,rfl⟩ := Plan.backward_block_eq_ok_iff.mp hbackward
    obtain ⟨passages,hpasses,hactivations,hlog⟩ := rest.exists_passes hrest hlater
    obtain ⟨nested,hnested,hactivations',hlog'⟩ := branches.exists_passes hbranches hinside
    refine ⟨_,.block hnested hz hpasses,?_,?_⟩
    · rw [List.map_cons,List.map_append]
      exact List.perm_middle.trans ((hactivations'.append hactivations).cons _)
    · rw [List.map_cons,List.map_append]
      exact (List.perm_append_singleton _ _).trans
        ((List.perm_append_comm.trans (hlog'.append hlog)).cons _)

theorem BranchPlans.exists_passes (branches : BranchPlans α Node) {node : Node}
    {x d : Interval α} {offset : ℕ} {total last : Option (Interval α)}
    {outputs : List (Interval α)} {traces : BranchPlans α (Node × Interval α)}
    {log : List (Node × Interval α)} (hforward : branches.forward x = .ok (traces,outputs))
    (hbackward : traces.backward node d offset total = .ok (log,last)) :
    ∃ passages, branches.Passes x d offset total outputs last passages ∧
      traces.activations.Perm (passages.map Passage.activation) ∧
      log.Perm (passages.map Passage.derivative) := by
  cases branches with
  | done =>
    obtain ⟨rfl,rfl⟩ := Prod.mk.inj (Except.ok.inj hforward)
    obtain ⟨rfl,rfl⟩ := Prod.mk.inj (Except.ok.inj hbackward)
    exact ⟨[],.done _ _ _ _,.nil,.nil⟩
  | branch steps width rest =>
    obtain ⟨trace,z,after,others,hsteps,hrest,rfl,rfl⟩ :=
      BranchPlans.forward_branch_eq_ok_iff.mp hforward
    obtain ⟨part,inside,e,sum,later,hpart,hinside,hsum,hlater,rfl⟩ :=
      BranchPlans.backward_branch_eq_ok_iff.mp hbackward
    obtain ⟨nested,hnested,hactivations,hlog⟩ := steps.exists_passes hsteps hinside
    obtain ⟨passages,hpasses,hactivations',hlog'⟩ := rest.exists_passes hrest hlater
    refine ⟨_,.branch hpart hnested hsum hpasses,?_,?_⟩
    · rw [List.map_append]
      exact hactivations.append hactivations'
    · rw [List.map_append]
      exact hlog.append hlog'

end

mutual

/-- Passages of a plan come from both of its passes, which meet what the passages have. -/
theorem Plan.passes_run (plan : Plan α Node) {x y d e : Interval α}
    {passages : List (Passage α Node)} (h : plan.Passes x y d e passages) :
    ∃ trace log, plan.forward x = .ok (trace,y) ∧ trace.backward d = .ok (log,e) ∧
      trace.activations.Perm (passages.map Passage.activation) ∧
      log.Perm (passages.map Passage.derivative) := by
  cases plan with
  | done =>
    cases h
    exact ⟨.done,[],rfl,rfl,.nil,.nil⟩
  | layer node t rest =>
    cases h with
    | layer hz hafter he =>
      obtain ⟨trace,log,hforward,hbackward,hactivations,hlog⟩ := rest.passes_run hafter
      refine ⟨_,_,Plan.forward_layer_eq_ok_iff.mpr ⟨_,_,hz,hforward,rfl⟩,
        Plan.backward_layer_eq_ok_iff.mpr ⟨_,_,hbackward,he,rfl⟩,hactivations.cons _,?_⟩
      exact (List.perm_append_singleton _ _).trans (hlog.cons _)
  | block node branches rest =>
    cases h with
    | block hsplit hz hafter =>
      obtain ⟨trace,log,hforward,hbackward,hactivations,hlog⟩ := rest.passes_run hafter
      obtain ⟨traces,inside,hbranches,hinside,hactivations',hlog'⟩ :=
        branches.passes_run node hsplit
      refine ⟨_,_,Plan.forward_block_eq_ok_iff.mpr ⟨_,_,_,_,hbranches,hz,hforward,rfl⟩,
        Plan.backward_block_eq_ok_iff.mpr ⟨_,_,_,hbackward,hinside,rfl⟩,?_,?_⟩
      · rw [List.map_cons,List.map_append]
        exact List.perm_middle.trans ((hactivations'.append hactivations).cons _)
      · rw [List.map_cons,List.map_append]
        exact (List.perm_append_singleton _ _).trans
          ((List.perm_append_comm.trans (hlog'.append hlog)).cons _)

theorem BranchPlans.passes_run (branches : BranchPlans α Node) (node : Node)
    {x d : Interval α} {offset : ℕ} {total last : Option (Interval α)}
    {outputs : List (Interval α)} {passages : List (Passage α Node)}
    (h : branches.Passes x d offset total outputs last passages) :
    ∃ traces log, branches.forward x = .ok (traces,outputs) ∧
      traces.backward node d offset total = .ok (log,last) ∧
      traces.activations.Perm (passages.map Passage.activation) ∧
      log.Perm (passages.map Passage.derivative) := by
  cases branches with
  | done =>
    cases h
    exact ⟨.done,[],rfl,rfl,.nil,.nil⟩
  | branch steps width rest =>
    cases h with
    | branch hpart hsteps hsum hothers =>
      obtain ⟨trace,log,hforward,hbackward,hactivations,hlog⟩ := steps.passes_run hsteps
      obtain ⟨traces,later,hrest,hlater,hactivations',hlog'⟩ := rest.passes_run node hothers
      refine ⟨_,_,BranchPlans.forward_branch_eq_ok_iff.mpr ⟨_,_,_,_,hforward,hrest,rfl,rfl⟩,
        BranchPlans.backward_branch_eq_ok_iff.mpr ⟨_,_,_,_,_,hpart,hbackward,hsum,hlater,rfl⟩,
        ?_,?_⟩
      · rw [List.map_append]
        exact hactivations.append hactivations'
      · rw [List.map_append]
        exact hlog.append hlog'

end

mutual

theorem Plan.map_note_of_passes {ν : Type} (plan : Plan α ν) {x y d e : Interval α}
    {passages : List (Passage α ν)} (h : plan.Passes x y d e passages) :
    passages.map Passage.note = plan.listing.map (·.1) := by
  cases plan with
  | done =>
    cases h
    rfl
  | layer note t rest =>
    cases h with
    | layer _ hafter _ =>
      rw [List.map_cons,rest.map_note_of_passes hafter,Plan.listing,List.map_cons]
  | block note branches rest =>
    cases h with
    | block hsplit _ hafter =>
      rw [List.map_cons,List.map_append,branches.map_note_of_passes hsplit,
        rest.map_note_of_passes hafter,Plan.listing,List.map_cons,List.map_append]

theorem BranchPlans.map_note_of_passes {ν : Type} (branches : BranchPlans α ν) {x d : Interval α}
    {offset : ℕ} {total last : Option (Interval α)} {outputs : List (Interval α)}
    {passages : List (Passage α ν)} (h : branches.Passes x d offset total outputs last passages) :
    passages.map Passage.note = branches.listing.map (·.1) := by
  cases branches with
  | done =>
    cases h
    rfl
  | branch steps width rest =>
    cases h with
    | branch _ hsteps _ hothers =>
      rw [List.map_append,steps.map_note_of_passes hsteps,rest.map_note_of_passes hothers,
        BranchPlans.listing,List.map_append]

end

namespace Run

/-- A run has stored what passages have, each at the id of its place. -/
def Stores {α : Type} (r : Run α) (passages : List (Passage α Node)) : Prop :=
  ∀ k p, passages[k]? = some p →
    r.activation? k = some p.input ∧ r.derivative? k = some p.sensitivity

/-- Whatever holds of the passages of two runs at each place holds of what they have stored. -/
theorem exists_stored {α : Type} {e : Engine α} {R : Passage α Node → Passage α Node → Prop}
    {passages passages' : List (Passage α Node)} (hall : List.Forall₂ R passages passages')
    (hnotes : passages.map Passage.note = e.nodes) {r r' : Run α} (hstores : r.Stores passages)
    (hstores' : r'.Stores passages') {id : ℕ} (hid : id < e.nodeCount) :
    ∃ p p', R p p' ∧ (r.activation? id = some p.input ∧ r.derivative? id = some p.sensitivity) ∧
      r'.activation? id = some p'.input ∧ r'.derivative? id = some p'.sensitivity := by
  rw [Engine.nodeCount,← hnotes,List.length_map] at hid
  have hid' : id < passages'.length := hall.length_eq ▸ hid
  exact ⟨_,_,hall.get hid hid',hstores id _ (List.getElem?_eq_getElem hid),
    hstores' id _ (List.getElem?_eq_getElem hid')⟩

end Run

namespace Engine

variable {net : Network α} {e : Engine α}

theorem id_of_passages_getElem? (he : compile net = .ok e) {passages : List (Passage α Node)}
    (hnotes : passages.map Passage.note = e.nodes) {k : ℕ} {p : Passage α Node}
    (hk : passages[k]? = some p) : p.note.id = k := by
  have hnode : e.nodes[k]? = some p.note := by rw [← hnotes,List.getElem?_map,hk,Option.map_some]
  obtain ⟨entry,hentry,hnote⟩ :=
    Option.map_eq_some_iff.mp ((List.getElem?_map ..).symm.trans hnode)
  rw [← hnote]
  exact id_of_listing_getElem? he hentry

/-- What both passes have stored is what the passages have, whichever way they went. -/
theorem stores_of_perm (he : compile net = .ok e) {passages : List (Passage α Node)}
    (hnotes : passages.map Passage.note = e.nodes) {activations log : List (Node × Interval α)}
    (hactivations : activations.Perm (passages.map Passage.activation))
    (hlog : log.Perm (passages.map Passage.derivative)) {n : ℕ} {slots : Slots α} {r : Run α}
    (hslots : activations.foldlM (fun s w => s.setActivation w.1 w.2) (Slots.empty n) = .ok slots)
    (hstored : log.foldlM (fun s w => s.setDerivative w.1 w.2) slots = .ok r.slots) :
    r.Stores passages := by
  obtain ⟨hactivation,hderivative⟩ := Slots.stored_of_passes hslots hstored
  intro k p hk
  have hp := List.mem_of_getElem? hk
  rw [← id_of_passages_getElem? he hnotes hk]
  exact ⟨hactivation _ (hactivations.mem_iff.mpr (List.mem_map_of_mem hp)),
    hderivative _ (hlog.mem_iff.mpr (List.mem_map_of_mem hp))⟩

/-- A finished run is one list of passages, one for each node in the order of ids. -/
theorem exists_passes_of_propagate (he : compile net = .ok e) {x seed : Interval α} {r : Run α}
    (hr : e.propagate x seed = .ok r) :
    ∃ passages, e.plan.Passes x r.output seed r.inputDerivative passages ∧
      passages.map Passage.note = e.nodes ∧ r.Stores passages := by
  obtain ⟨-,-,trace,slots,log,hforward,hslots,hbackward,hstored⟩ := propagate_eq_ok_iff.mp hr
  obtain ⟨passages,hpasses,hactivations,hlog⟩ := e.plan.exists_passes hforward hbackward
  have hnotes : passages.map Passage.note = e.nodes := e.plan.map_note_of_passes hpasses
  exact ⟨passages,hpasses,hnotes,stores_of_perm he hnotes hactivations hlog hslots hstored⟩

theorem exists_propagate_of_passes (he : compile net = .ok e) {x y seed d : Interval α} {rows : ℕ}
    {passages : List (Passage α Node)} (hx : x.shape = e.inputShape) (hrows : rows ≠ 0)
    (hseed : seed.shape = rows :: e.outputShape) (h : e.plan.Passes x y seed d passages) :
    ∃ r, e.propagate x seed = .ok r ∧ r.output = y ∧ r.inputDerivative = d ∧
      r.Stores passages := by
  obtain ⟨trace,log,hforward,hbackward,hactivations,hlog⟩ := e.plan.passes_run h
  have hnotes : passages.map Passage.note = e.nodes := e.plan.map_note_of_passes h
  have hids : passages.map (·.note.id) = List.range e.nodeCount := by
    rw [nodeCount_eq he,← ids_nodes he,← hnotes,List.map_map]
    rfl
  have hactivationIds : (trace.activations.map (·.1.id)).Perm (List.range e.nodeCount) := by
    rw [← hids]
    have hmap := hactivations.map (·.1.id)
    rwa [List.map_map] at hmap
  have hlogIds : (log.map (·.1.id)).Perm (List.range e.nodeCount) := by
    rw [← hids]
    have hmap := hlog.map (·.1.id)
    rwa [List.map_map] at hmap
  obtain ⟨slots,stored,hslots,hstored⟩ := Slots.exists_passes hactivationIds hlogIds
  refine ⟨⟨stored,y,d⟩,propagate_eq_ok_iff.mpr
    ⟨hx,⟨rows,hrows,hseed⟩,trace,slots,log,hforward,hslots,hbackward,hstored⟩,rfl,rfl,?_⟩
  exact stores_of_perm he hnotes hactivations hlog hslots hstored

end Engine
end Sensitivity
