import Sensitivity.Propagation
import Sensitivity.Proofs.Plan

/-! What a run gives for each form of plan, and what it stores. Each pass writes a list of
bounds to slots, one entry a step; it ends well exactly when no slot is met twice. -/
namespace Sensitivity

variable {α : Type}

namespace Slot

def activate : Slot α → Interval α → Option (Slot α)
  | .unvisited, x => some (.activationSet x)
  | _, _ => none

def derive : Slot α → Interval α → Option (Slot α)
  | .activationSet x, d => some (.derivativeSet x d)
  | _, _ => none

theorem activate_once (x y : Interval α) (old new : Slot α) (h : old.activate x = some new) :
    new.activate y = none := by
  cases old with
  | unvisited =>
    obtain rfl := Option.some.inj h
    rfl
  | activationSet _ => cases h
  | derivativeSet _ _ => cases h

theorem derive_once (x y : Interval α) (old new : Slot α) (h : old.derive x = some new) :
    new.derive y = none := by
  cases old with
  | unvisited => cases h
  | activationSet _ =>
    obtain rfl := Option.some.inj h
    rfl
  | derivativeSet _ _ => cases h

end Slot

namespace Slots

theorem setActivation_eq_ok_iff {s t : Slots α} {node : Node} {x : Interval α} :
    s.setActivation node x = .ok t ↔
      ∃ old new, s[node.id]? = some old ∧ old.activate x = some new ∧ t = s.set! node.id new := by
  rw [setActivation,Error.within_eq_ok_iff]
  rcases s[node.id]? with _ | old
  · simp
  · cases old <;> simp [Slot.activate,eq_comm]

theorem setDerivative_eq_ok_iff {s t : Slots α} {node : Node} {d : Interval α} :
    s.setDerivative node d = .ok t ↔
      ∃ old new, s[node.id]? = some old ∧ old.derive d = some new ∧ t = s.set! node.id new := by
  rw [setDerivative,Error.within_eq_ok_iff]
  rcases s[node.id]? with _ | old
  · simp
  · cases old <;> simp [Slot.derive,eq_comm]

theorem getElem?_set!_self {s : Slots α} {i : ℕ} {old : Slot α} (new : Slot α)
    (h : s[i]? = some old) : (s.set! i new)[i]? = some new := by
  obtain ⟨hi,-⟩ := Array.getElem?_eq_some_iff.mp h
  simp [Array.set!_eq_setIfInBounds,hi]

theorem getElem?_set!_ne (s : Slots α) {i j : ℕ} (new : Slot α) (h : i ≠ j) :
    (s.set! i new)[j]? = s[j]? := by
  rw [Array.set!_eq_setIfInBounds,Array.getElem?_setIfInBounds_ne h]

section Pass

variable {next : Slot α → Interval α → Option (Slot α)}
  {store : Slots α → Node × Interval α → Except (Error α) (Slots α)}

/-- A pass of stores meets each slot once, changes it as the store says, and keeps all others. -/
theorem foldlM_store_eq_ok
    (hstore : ∀ s w t, store s w = .ok t ↔
      ∃ old new, s[w.1.id]? = some old ∧ next old w.2 = some new ∧ t = s.set! w.1.id new)
    (honce : ∀ a b old new, next old a = some new → next new b = none)
    {log : List (Node × Interval α)} {s t : Slots α} (h : log.foldlM store s = .ok t) :
    (log.map (·.1.id)).Nodup ∧
      (∀ w ∈ log, ∃ old new, s[w.1.id]? = some old ∧ next old w.2 = some new ∧
        t[w.1.id]? = some new) ∧
      ∀ i ∉ log.map (·.1.id), t[i]? = s[i]? := by
  induction log generalizing s with
  | nil =>
    obtain rfl := Error.pure_eq_ok_iff.mp h
    simp
  | cons w log ih =>
    obtain ⟨u,hu,h⟩ := Error.foldlM_cons_eq_ok_iff.mp h
    obtain ⟨old,new,hold,hnew,rfl⟩ := (hstore s w u).mp hu
    obtain ⟨hnodup,hwritten,hkept⟩ := ih h
    have hself := getElem?_set!_self new hold
    -- A slot that was written once takes no second store, so the node does not come again.
    have hfresh : w.1.id ∉ log.map (·.1.id) := by
      intro hmem
      obtain ⟨v,hv,hid⟩ := List.mem_map.mp hmem
      obtain ⟨old',new',hold',hnew',-⟩ := hwritten v hv
      rw [hid,hself] at hold'
      obtain rfl := Option.some.inj hold'
      rw [honce _ _ _ _ hnew] at hnew'
      cases hnew'
    have hother : ∀ v ∈ log, w.1.id ≠ v.1.id := by
      intro v hv hid
      exact hfresh (List.mem_map.mpr ⟨v,hv,hid.symm⟩)
    refine ⟨List.nodup_cons.mpr ⟨hfresh,hnodup⟩,?_,?_⟩
    · intro v hv
      rcases List.mem_cons.mp hv with rfl | hv
      · exact ⟨old,new,hold,hnew,(hkept _ hfresh).trans hself⟩
      · obtain ⟨old',new',hold',hrest⟩ := hwritten v hv
        rw [getElem?_set!_ne s new (hother v hv)] at hold'
        exact ⟨old',new',hold',hrest⟩
    · intro i hi
      rw [List.map_cons,List.mem_cons,not_or] at hi
      rw [hkept i hi.2,getElem?_set!_ne s new (Ne.symm hi.1)]

theorem exists_foldlM_store
    (hstore : ∀ s w t, store s w = .ok t ↔
      ∃ old new, s[w.1.id]? = some old ∧ next old w.2 = some new ∧ t = s.set! w.1.id new)
    {log : List (Node × Interval α)} {s : Slots α} (hnodup : (log.map (·.1.id)).Nodup)
    (hready : ∀ w ∈ log, ∃ old new, s[w.1.id]? = some old ∧ next old w.2 = some new) :
    ∃ t, log.foldlM store s = .ok t := by
  induction log generalizing s with
  | nil => exact ⟨s,rfl⟩
  | cons w log ih =>
    obtain ⟨old,new,hold,hnew⟩ := hready w List.mem_cons_self
    obtain ⟨hfresh,hnodup⟩ := List.nodup_cons.mp hnodup
    have hrest : ∀ v ∈ log, ∃ old' new', (s.set! w.1.id new)[v.1.id]? = some old' ∧
        next old' v.2 = some new' := by
      intro v hv
      have hid : w.1.id ≠ v.1.id := by
        intro hid
        exact hfresh (List.mem_map.mpr ⟨v,hv,hid.symm⟩)
      rw [getElem?_set!_ne s new hid]
      exact hready v (List.mem_cons_of_mem w hv)
    obtain ⟨t,ht⟩ := ih hnodup hrest
    exact ⟨t,Error.foldlM_cons_eq_ok_iff.mpr
      ⟨_,(hstore s w _).mpr ⟨old,new,hold,hnew,rfl⟩,ht⟩⟩

end Pass

theorem stored_of_passes {activations log : List (Node × Interval α)} {n : ℕ} {s t : Slots α}
    (hs : activations.foldlM (fun s w => s.setActivation w.1 w.2) (empty n) = .ok s)
    (ht : log.foldlM (fun s w => s.setDerivative w.1 w.2) s = .ok t) :
    (∀ w ∈ activations, t[w.1.id]?.bind Slot.activation? = some w.2) ∧
      ∀ w ∈ log, t[w.1.id]?.bind Slot.derivative? = some w.2 := by
  obtain ⟨-,hactivated,-⟩ := foldlM_store_eq_ok (fun _ _ _ => setActivation_eq_ok_iff)
    Slot.activate_once hs
  obtain ⟨-,hderived,hkept⟩ := foldlM_store_eq_ok (fun _ _ _ => setDerivative_eq_ok_iff)
    Slot.derive_once ht
  constructor
  · intro w hw
    obtain ⟨old,new,-,hnew,hslot⟩ := hactivated w hw
    have hslot : s[w.1.id]? = some (.activationSet w.2) := by
      cases old with
      | unvisited => rwa [← hnew] at hslot
      | activationSet _ => cases hnew
      | derivativeSet _ _ => cases hnew
    by_cases hmem : w.1.id ∈ log.map (·.1.id)
    · obtain ⟨v,hv,hid⟩ := List.mem_map.mp hmem
      obtain ⟨old',new',hold',hnew',hslot'⟩ := hderived v hv
      rw [hid,hslot] at hold'
      obtain rfl := Option.some.inj hold'
      obtain rfl := Option.some.inj hnew'
      rw [← hid,hslot']
      rfl
    · rw [hkept _ hmem,hslot]
      rfl
  · intro w hw
    obtain ⟨old,new,-,hnew,hslot⟩ := hderived w hw
    rw [hslot]
    cases old with
    | unvisited => cases hnew
    | activationSet _ =>
      obtain rfl := Option.some.inj hnew
      rfl
    | derivativeSet _ _ => cases hnew

theorem exists_passes {activations log : List (Node × Interval α)} {n : ℕ}
    (hactivations : (activations.map (·.1.id)).Perm (List.range n))
    (hlog : (log.map (·.1.id)).Perm (List.range n)) :
    ∃ s t, activations.foldlM (fun s w => s.setActivation w.1 w.2) (empty n) = .ok s ∧
      log.foldlM (fun s w => s.setDerivative w.1 w.2) s = .ok t := by
  have hunvisited : ∀ w ∈ activations, ∃ old new, (empty n : Slots α)[w.1.id]? = some old ∧
      old.activate w.2 = some new := by
    intro w hw
    have hid : w.1.id < n := List.mem_range.mp (hactivations.subset (List.mem_map_of_mem hw))
    exact ⟨.unvisited,_,by simp [empty,hid],rfl⟩
  obtain ⟨s,hs⟩ := exists_foldlM_store (fun _ _ _ => setActivation_eq_ok_iff)
    (hactivations.nodup_iff.mpr List.nodup_range) hunvisited
  obtain ⟨-,hactivated,-⟩ := foldlM_store_eq_ok (fun _ _ _ => setActivation_eq_ok_iff)
    Slot.activate_once hs
  have hready : ∀ w ∈ log, ∃ old new, s[w.1.id]? = some old ∧ old.derive w.2 = some new := by
    intro w hw
    obtain ⟨v,hv,hid⟩ := List.mem_map.mp
      ((hlog.trans hactivations.symm).subset (List.mem_map_of_mem hw))
    obtain ⟨old,new,-,hnew,hslot⟩ := hactivated v hv
    rw [← hid]
    cases old with
    | unvisited =>
      obtain rfl := Option.some.inj hnew
      exact ⟨_,_,hslot,rfl⟩
    | activationSet _ => cases hnew
    | derivativeSet _ _ => cases hnew
  obtain ⟨t,ht⟩ := exists_foldlM_store (fun _ _ _ => setDerivative_eq_ok_iff)
    (hlog.nodup_iff.mpr List.nodup_range) hready
  exact ⟨s,t,hs,ht⟩

end Slots

theorem Run.stage?_of_derivative? {r : Run α} {id : ℕ} {d : Interval α}
    (h : r.derivative? id = some d) : r.stage? id = some .derivativeSet := by
  obtain ⟨slot,hslot,hd⟩ := Option.bind_eq_some_iff.mp h
  rw [Run.stage?,hslot]
  cases slot with
  | unvisited => cases hd
  | activationSet _ => cases hd
  | derivativeSet _ _ => rfl

theorem Engine.checkSeed_eq_ok_iff {e : Engine α} {seed : Interval α} {u : Unit} :
    e.checkSeed seed = .ok u ↔ ∃ rows, rows ≠ 0 ∧ seed.shape = rows :: e.outputShape := by
  unfold checkSeed
  split
  next rows rest h =>
    split
    next hrest =>
      obtain ⟨rfl,hrows⟩ := hrest
      simp [h,hrows]
    next hrest =>
      simp only [reduceCtorEq,false_iff,h,List.cons.injEq]
      rintro ⟨n,hn,rfl,rfl⟩
      exact hrest ⟨rfl,hn⟩
  next h => simp [h]

variable [Scalar α]

theorem Plan.forward_layer_eq_ok_iff {node : Node} {t : Transform α} {rest : Plan α Node}
    {x y : Interval α} {trace : Plan α (Node × Interval α)} :
    (Plan.layer node t rest).forward x = .ok (trace,y) ↔
      ∃ z after, t.forward x = .ok z ∧ rest.forward z = .ok (after,y) ∧
        trace = .layer (node,x) t after := by
  simp only [Plan.forward,Error.bind_eq_ok_iff,Error.within_eq_ok_iff,Prod.exists,
    Error.pure_eq_ok_iff,Prod.mk.injEq]
  constructor
  · rintro ⟨z,hz,after,y,hrest,rfl,rfl⟩
    exact ⟨z,after,hz,hrest,rfl⟩
  · rintro ⟨z,after,hz,hrest,rfl⟩
    exact ⟨z,hz,after,y,hrest,rfl,rfl⟩

theorem Plan.forward_block_eq_ok_iff {node : Node} {branches : BranchPlans α Node}
    {rest : Plan α Node} {x y : Interval α} {trace : Plan α (Node × Interval α)} :
    (Plan.block node branches rest).forward x = .ok (trace,y) ↔
      ∃ traces outputs z after, branches.forward x = .ok (traces,outputs) ∧
        Tensor.concat outputs 0 = (.ok z : Except (Error α) _) ∧ rest.forward z = .ok (after,y) ∧
        trace = .block (node,x) traces after := by
  simp only [Plan.forward,Error.bind_eq_ok_iff,Error.within_eq_ok_iff,Prod.exists,
    Error.pure_eq_ok_iff,Prod.mk.injEq]
  constructor
  · rintro ⟨traces,outputs,hbranches,z,hz,after,y,hrest,rfl,rfl⟩
    exact ⟨traces,outputs,z,after,hbranches,hz,hrest,rfl⟩
  · rintro ⟨traces,outputs,z,after,hbranches,hz,hrest,rfl⟩
    exact ⟨traces,outputs,hbranches,z,hz,after,y,hrest,rfl,rfl⟩

theorem BranchPlans.forward_branch_eq_ok_iff {steps : Plan α Node} {width : ℕ}
    {rest : BranchPlans α Node} {x : Interval α} {traces : BranchPlans α (Node × Interval α)}
    {outputs : List (Interval α)} :
    (BranchPlans.branch steps width rest).forward x = .ok (traces,outputs) ↔
      ∃ trace z after others, steps.forward x = .ok (trace,z) ∧
        rest.forward x = .ok (after,others) ∧ traces = .branch trace width after ∧
        outputs = z :: others := by
  simp only [BranchPlans.forward,Error.bind_eq_ok_iff,Prod.exists,Error.pure_eq_ok_iff,
    Prod.mk.injEq]
  constructor
  · rintro ⟨trace,z,hsteps,after,others,hrest,rfl,rfl⟩
    exact ⟨trace,z,after,others,hsteps,hrest,rfl,rfl⟩
  · rintro ⟨trace,z,after,others,hsteps,hrest,rfl,rfl⟩
    exact ⟨trace,z,hsteps,after,others,hrest,rfl,rfl⟩

theorem Plan.backward_layer_eq_ok_iff {node : Node} {t : Transform α}
    {rest : Plan α (Node × Interval α)} {x d e : Interval α} {log : List (Node × Interval α)} :
    (Plan.layer (node,x) t rest).backward d = .ok (log,e) ↔
      ∃ later f, rest.backward d = .ok (later,f) ∧ t.backward x f = .ok e ∧
        log = later ++ [(node,f)] := by
  simp only [Plan.backward,Error.bind_eq_ok_iff,Error.within_eq_ok_iff,Prod.exists,
    Error.pure_eq_ok_iff,Prod.mk.injEq]
  constructor
  · rintro ⟨later,f,hrest,e,he,rfl,rfl⟩
    exact ⟨later,f,hrest,he,rfl⟩
  · rintro ⟨later,f,hrest,he,rfl⟩
    exact ⟨later,f,hrest,e,he,rfl,rfl⟩

theorem Plan.backward_block_eq_ok_iff {node : Node} {branches : BranchPlans α (Node × Interval α)}
    {rest : Plan α (Node × Interval α)} {x d e : Interval α} {log : List (Node × Interval α)} :
    (Plan.block (node,x) branches rest).backward d = .ok (log,e) ↔
      ∃ later f inside, rest.backward d = .ok (later,f) ∧
        branches.backward node f 0 none = .ok (inside,some e) ∧
        log = later ++ inside ++ [(node,f)] := by
  simp only [Plan.backward,Error.bind_eq_ok_iff,Prod.exists]
  constructor
  · rintro ⟨later,f,hrest,inside,total,hbranches,h⟩
    cases total with
    | none => cases h
    | some total =>
      obtain ⟨rfl,rfl⟩ := Prod.mk.inj (Error.pure_eq_ok_iff.mp h)
      exact ⟨later,f,inside,hrest,hbranches,rfl⟩
  · rintro ⟨later,f,inside,hrest,hbranches,rfl⟩
    exact ⟨later,f,hrest,inside,some e,hbranches,rfl⟩

theorem BranchPlans.backward_branch_eq_ok_iff {node : Node} {steps : Plan α (Node × Interval α)}
    {width offset : ℕ} {rest : BranchPlans α (Node × Interval α)} {d : Interval α}
    {total last : Option (Interval α)} {log : List (Node × Interval α)} :
    (BranchPlans.branch steps width rest).backward node d offset total = .ok (log,last) ↔
      ∃ part inside e sum later,
        d.slice 1 offset (offset + width) = (.ok part : Except (Error α) _) ∧
        steps.backward part = .ok (inside,e) ∧ addReturned total e = .ok sum ∧
        rest.backward node d (offset + width) (some sum) = .ok (later,last) ∧
        log = inside ++ later := by
  simp only [BranchPlans.backward,Error.bind_eq_ok_iff,Error.within_eq_ok_iff,Prod.exists,
    Error.pure_eq_ok_iff,Prod.mk.injEq]
  constructor
  · rintro ⟨part,hpart,inside,e,hsteps,sum,hsum,later,last,hrest,rfl,rfl⟩
    exact ⟨part,inside,e,sum,later,hpart,hsteps,hsum,hrest,rfl⟩
  · rintro ⟨part,inside,e,sum,later,hpart,hsteps,hsum,hrest,rfl⟩
    exact ⟨part,hpart,inside,e,hsteps,sum,hsum,later,last,hrest,rfl,rfl⟩

namespace Engine

/-- A network that is compiled and run in one computation has an engine and a run. -/
theorem exists_run_of_isOk {net : Network α} {x s : Interval α}
    (h : (compile net >>= fun e => e.propagate x s).isOk) :
    ∃ e r, compile net = .ok e ∧ e.propagate x s = .ok r := by
  obtain ⟨r,hr⟩ := Error.exists_of_isOk h
  obtain ⟨e,he,hr⟩ := Error.bind_eq_ok_iff.mp hr
  exact ⟨e,r,he,hr⟩

/-- A run ends well when the shapes agree and both passes end well, and then stores what the
passes met. -/
theorem propagate_eq_ok_iff {e : Engine α} {x seed : Interval α} {r : Run α} :
    e.propagate x seed = .ok r ↔ x.shape = e.inputShape ∧
      (∃ rows, rows ≠ 0 ∧ seed.shape = rows :: e.outputShape) ∧
      ∃ trace slots log, e.plan.forward x = .ok (trace,r.output) ∧
        trace.activations.foldlM (fun s w => s.setActivation w.1 w.2) (Slots.empty e.nodeCount) =
          .ok slots ∧
        trace.backward seed = .ok (log,r.inputDerivative) ∧
        log.foldlM (fun s w => s.setDerivative w.1 w.2) slots = .ok r.slots := by
  simp only [propagate,Error.bind_eq_ok_iff,Interval.expectShape_eq_ok_iff,checkSeed_eq_ok_iff,
    Prod.exists,Error.pure_eq_ok_iff]
  constructor
  · rintro ⟨-,hx,-,hseed,trace,y,hforward,slots,hslots,log,e,hbackward,stored,hstored,rfl⟩
    exact ⟨hx,hseed,trace,slots,log,hforward,hslots,hbackward,hstored⟩
  · rintro ⟨hx,hseed,trace,slots,log,hforward,hslots,hbackward,hstored⟩
    exact ⟨(),hx,(),hseed,trace,_,hforward,slots,hslots,log,_,hbackward,_,hstored,rfl⟩

end Engine
end Sensitivity
