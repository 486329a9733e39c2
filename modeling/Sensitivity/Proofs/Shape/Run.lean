import Sensitivity.Proofs.Propagation
import Sensitivity.Proofs.Shape.Network
import Mathlib

/-! Runs of compiled networks. The shapes resolved at compilation are those of the bounds that
both passes produce, so a run on bounds of the right shapes meets no error, and each pass
stores one bound at every node. -/
namespace Sensitivity

variable {α : Type}

theorem Tensor.Addressable.tail {rows : ℕ} {shape : List ℕ} (h : Addressable (rows :: shape))
    (hrows : rows ≠ 0) : Addressable shape := by
  unfold Addressable at h ⊢
  rw [List.filter_cons_of_pos (by simpa using hrows),List.prod_cons] at h
  exact lt_of_le_of_lt (Nat.le_mul_of_pos_left _ (Nat.pos_of_ne_zero hrows)) h

/-- Bounds noted once for each of the nodes, each of the shape that belongs to its node. -/
structure Covers (notes : List (Node × Interval α)) (nodes : List Node) (shapeOf : Node → List ℕ) :
    Prop where
  perm : (notes.map (·.1)).Perm nodes
  shape : ∀ w ∈ notes, w.2.shape = shapeOf w.1

namespace Covers

variable {notes more : List (Node × Interval α)} {nodes others : List Node}
  {shapeOf : Node → List ℕ}

theorem nil : Covers ([] : List (Node × Interval α)) [] shapeOf := ⟨.nil,by simp⟩

theorem cons {node : Node} {x : Interval α} (hx : x.shape = shapeOf node)
    (h : Covers notes nodes shapeOf) : Covers ((node,x) :: notes) (node :: nodes) shapeOf :=
  ⟨h.perm.cons node,List.forall_mem_cons.mpr ⟨hx,h.shape⟩⟩

theorem append (h : Covers notes nodes shapeOf) (h' : Covers more others shapeOf) :
    Covers (notes ++ more) (nodes ++ others) shapeOf := by
  constructor
  · rw [List.map_append]
    exact h.perm.append h'.perm
  · intro w hw
    rcases List.mem_append.mp hw with hw | hw
    · exact h.shape w hw
    · exact h'.shape w hw

theorem exists_mem (h : Covers notes nodes shapeOf) {node : Node} (hnode : node ∈ nodes) :
    ∃ x, (node,x) ∈ notes := by
  obtain ⟨⟨found,x⟩,hw,rfl⟩ := List.mem_map.mp (h.perm.mem_iff.mpr hnode)
  exact ⟨x,hw⟩

theorem perm_ids (h : Covers notes nodes shapeOf) :
    (notes.map (·.1.id)).Perm (nodes.map (·.id)) := by
  have hmap := h.perm.map Node.id
  rw [List.map_map] at hmap
  exact hmap

theorem countP_eq_one (h : Covers notes nodes shapeOf) (hids : (nodes.map (·.id)).Nodup)
    {node : Node} (hnode : node ∈ nodes) : notes.countP (·.1.id = node.id) = 1 := by
  have hcount : (notes.map (·.1.id)).count node.id = notes.countP (·.1.id = node.id) := by
    rw [List.count,List.countP_map]
    exact List.countP_congr fun w _ => by simp
  rw [← hcount,h.perm_ids.count_eq]
  exact List.count_eq_one_of_mem hids (List.mem_map_of_mem hnode)

theorem of_perm (h : Covers notes nodes shapeOf) (hperm : more.Perm notes) :
    Covers more nodes shapeOf :=
  ⟨(hperm.map _).trans h.perm,fun w hw => h.shape w (hperm.subset hw)⟩

end Covers

/-- The channels of all branches. -/
def BranchPlans.channels {ν : Type} : BranchPlans α ν → ℕ
  | .done => 0
  | .branch _ width rest => width + rest.channels

mutual

/-- The blocks of a plan, each with the channels of its branches, which it joins. -/
def Plan.joins {ν : Type} : Plan α ν → List (ν × ℕ)
  | .done => []
  | .layer _ _ rest => rest.joins
  | .block note branches rest => (note,branches.channels) :: (branches.joins ++ rest.joins)

def BranchPlans.joins {ν : Type} : BranchPlans α ν → List (ν × ℕ)
  | .done => []
  | .branch steps _ rest => steps.joins ++ rest.joins

end

variable [Scalar α]

theorem Branches.channels_of_compile (branches : Branches α) {image : ImageShape} {parent : String}
    {depth channels : ℕ} {n m : Numbering} {plans : BranchPlans α Node}
    (h : branches.compile image parent depth n = .ok (plans,channels,m)) :
    plans.channels = channels := by
  cases branches with
  | nil =>
    obtain ⟨rfl,rfl,-⟩ := Branches.compile_nil_eq_ok_iff.mp h
    rfl
  | cons name layers rest =>
    obtain ⟨steps,width,k,after,others,-,hrest,rfl,rfl⟩ := Branches.compile_cons_eq_ok_iff.mp h
    rw [BranchPlans.channels,rest.channels_of_compile hrest]

/-- What every operation of a network needs for a run without an error. -/
def Operation.Ready (op : Operation α) : Prop := op.HasExtents ∧ op.BiasFits

theorem exists_concat {image : ImageShape} {outputs : List (Interval α)} (hne : outputs ≠ [])
    (hshape : ∀ y ∈ outputs, ∃ width, y.shape = [width,image.height,image.width])
    (ha : Tensor.Addressable [(outputs.map (·.extent 0)).sum,image.height,image.width]) :
    ∃ z, Tensor.concat outputs 0 = (.ok z : Except (Error α) _) ∧
      z.shape = [(outputs.map (·.extent 0)).sum,image.height,image.width] := by
  cases outputs with
  | nil => exact absurd rfl hne
  | cons first rest =>
    obtain ⟨width,hfirst⟩ := hshape first List.mem_cons_self
    have hset : first.shape.set 0 ((first :: rest).map (·.extent 0)).sum =
        [((first :: rest).map (·.extent 0)).sum,image.height,image.width] := by
      simp [hfirst]
    refine ⟨_,Tensor.concat_eq_ok_iff.mpr ⟨first,rest,rfl,?_,?_,?_,rfl⟩,?_⟩
    · simp [Tensor.rank,hfirst]
    · intro p hp
      obtain ⟨width',hp⟩ := hshape p (List.mem_cons_of_mem first hp)
      simp [Tensor.rank,Tensor.crossSection,hfirst,hp]
    · rw [hset]
      exact ha
    · rw [Tensor.shape_ofFn,hset]

theorem exists_slice {rows channels height width start stop : ℕ} {d : Interval α}
    (hd : d.shape = [rows,channels,height,width]) (hstart : start ≤ stop)
    (hstop : stop ≤ channels) :
    ∃ part, d.slice 1 start stop = (.ok part : Except (Error α) _) ∧
      part.shape = [rows,stop - start,height,width] := by
  refine ⟨_,Tensor.slice_eq_ok_iff.mpr ⟨?_,hstart,?_,rfl⟩,?_⟩
  · simp [Tensor.rank,hd]
  · simpa [Tensor.extent,hd] using hstop
  · simp [hd]

theorem exists_addReturned {total : Option (Interval α)} {x : Interval α}
    (h : ∀ t ∈ total, t.shape = x.shape) :
    ∃ sum, addReturned total x = .ok sum ∧ sum.shape = x.shape := by
  cases total with
  | none => exact ⟨x,rfl,rfl⟩
  | some t =>
    have ht := h t rfl
    obtain ⟨sum,hsum⟩ := Tensor.exists_zip (α := α) Bound.add ht
    exact ⟨sum,hsum,(Tensor.shape_of_zip hsum).2.trans ht⟩

/-- On bounds of the right shapes resolved layers run without an error: every node receives one
activation of its input shape, and one derivative of `rows` rows of its output shape. -/
def Plan.RunsOn (plan : Plan α Node) (rows : ℕ) (shape out : List ℕ) : Prop :=
  ∀ x : Interval α, x.shape = shape → ∃ trace y, plan.forward x = .ok (trace,y) ∧ y.shape = out ∧
    Covers trace.activations (plan.listing.map (·.1)) Node.inputShape ∧
    ∀ d : Interval α, d.shape = rows :: out → ∃ log e, trace.backward d = .ok (log,e) ∧
      e.shape = rows :: shape ∧
      Covers log (plan.listing.map (·.1)) (fun node => rows :: node.outputShape)

/-- The same for branches over one image, which join to `channels` channels and cut theirs out
of a derivative from some channel on. -/
def BranchPlans.RunsOn (plans : BranchPlans α Node) (rows : ℕ) (image : ImageShape)
    (channels : ℕ) : Prop :=
  ∀ x : Interval α, x.shape = image.toList → ∃ traces outputs,
    plans.forward x = .ok (traces,outputs) ∧
    (∀ y ∈ outputs, ∃ width, y.shape = [width,image.height,image.width]) ∧
    (outputs.map (·.extent 0)).sum = channels ∧ (plans ≠ .done → outputs ≠ []) ∧
    Covers traces.activations (plans.listing.map (·.1)) Node.inputShape ∧
    ∀ (node : Node) (d : Interval α) (limit offset : ℕ) (total : Option (Interval α)),
      d.shape = [rows,limit,image.height,image.width] → offset + channels ≤ limit →
      (∀ t ∈ total, t.shape = rows :: image.toList) →
      ∃ log last, traces.backward node d offset total = .ok (log,last) ∧
        (∀ t ∈ last, t.shape = rows :: image.toList) ∧
        (plans ≠ .done ∨ total.isSome → last.isSome) ∧
        Covers log (plans.listing.map (·.1)) (fun node => rows :: node.outputShape)

theorem Plan.runsOn_done (rows : ℕ) (shape : List ℕ) :
    (Plan.done : Plan α Node).RunsOn rows shape shape := by
  intro x hx
  refine ⟨.done,x,rfl,hx,.nil,?_⟩
  intro d hd
  exact ⟨[],d,rfl,hd,.nil⟩

theorem Plan.RunsOn.layer {rest : Plan α Node} {rows : ℕ} {out : List ℕ} {node : Node}
    {t : Transform α} (h : rest.RunsOn rows node.outputShape out)
    (ht : t.Fits node.inputShape node.outputShape) (hdense : t.DenseReady) (hrows : rows ≠ 0)
    (hshape : Tensor.Addressable (rows :: node.inputShape))
    (hout : Tensor.Addressable (rows :: node.outputShape)) :
    (Plan.layer node t rest).RunsOn rows node.inputShape out := by
  intro x hx
  obtain ⟨z,hz⟩ := ht.exists_forward hdense hx (hout.tail hrows)
  obtain ⟨trace,y,hforward,hy,hcovers,hback⟩ := h z (ht.shape_forward hz hx)
  refine ⟨.layer (node,x) t trace,y,forward_layer_eq_ok_iff.mpr ⟨z,trace,hz,hforward,rfl⟩,hy,
    hcovers.cons hx,?_⟩
  intro d hd
  obtain ⟨log,f,hbackward,hf,hlog⟩ := hback d hd
  obtain ⟨e,he⟩ := ht.exists_backward hdense.hasCells hx hf hrows hshape
  refine ⟨log ++ [(node,f)],e,backward_layer_eq_ok_iff.mpr ⟨log,f,hbackward,he,rfl⟩,
    ht.shape_backward he hf,?_⟩
  exact (hlog.cons hf).of_perm List.perm_append_comm

theorem Plan.RunsOn.block {branches : BranchPlans α Node} {rest : Plan α Node} {rows channels : ℕ}
    {image : ImageShape} {out : List ℕ} {node : Node} (hbranches : branches.RunsOn rows image channels)
    (h : rest.RunsOn rows node.outputShape out) (hne : branches ≠ .done)
    (hnode : node.inputShape = image.toList)
    (hnode' : node.outputShape = [channels % Window.wordCount,image.height,image.width])
    (hjoin : Tensor.Addressable (channels :: node.outputShape.tail)) :
    (Plan.block node branches rest).RunsOn rows node.inputShape out := by
  intro x hx
  obtain ⟨traces,outputs,hbranch,houtputs,hsum,hsome,hinside,hbranchBack⟩ :=
    hbranches x (hx.trans hnode)
  have hjoin : Tensor.Addressable [channels,image.height,image.width] := by
    simpa [hnode'] using hjoin
  rw [hjoin.head_mod] at hnode'
  obtain ⟨z,hz,hzshape⟩ := exists_concat (hsome hne) houtputs (hsum ▸ hjoin)
  rw [hsum,← hnode'] at hzshape
  obtain ⟨trace,y,hforward,hy,hcovers,hback⟩ := h z hzshape
  have hnodes : ((Plan.block node branches rest).listing.map (·.1)) =
      node :: (branches.listing.map (·.1) ++ rest.listing.map (·.1)) := by
    simp [Plan.listing]
  refine ⟨.block (node,x) traces trace,y,
    forward_block_eq_ok_iff.mpr ⟨traces,outputs,z,trace,hbranch,hz,hforward,rfl⟩,hy,?_,?_⟩
  · rw [hnodes]
    exact ((hinside.append hcovers).cons hx).of_perm List.perm_middle
  intro d hd
  obtain ⟨log,f,hbackward,hf,hlog⟩ := hback d hd
  obtain ⟨inside,last,hlast,hlastShape,hlastSome,hinsideLog⟩ :=
    hbranchBack node f channels 0 none (by rw [hf,hnode']) (by omega) (by simp)
  obtain ⟨e,rfl⟩ := Option.isSome_iff_exists.mp (hlastSome (.inl hne))
  refine ⟨log ++ inside ++ [(node,f)],e,
    backward_block_eq_ok_iff.mpr ⟨log,f,inside,hbackward,hlast,rfl⟩,?_,?_⟩
  · rw [hlastShape e rfl,hnode]
  · rw [hnodes]
    refine ((hinsideLog.append hlog).cons hf).of_perm ?_
    exact (List.perm_append_singleton _ _).trans (List.perm_append_comm.cons (node,f))

theorem BranchPlans.runsOn_done (rows : ℕ) (image : ImageShape) :
    (BranchPlans.done : BranchPlans α Node).RunsOn rows image 0 := by
  intro x hx
  refine ⟨.done,[],rfl,by simp,rfl,fun h => absurd rfl h,.nil,?_⟩
  intro node d limit offset total hd hoffset htotal
  exact ⟨[],total,rfl,htotal,fun h => h.resolve_left fun h => h rfl,.nil⟩

theorem BranchPlans.RunsOn.branch {steps : Plan α Node} {rest : BranchPlans α Node}
    {rows width channels : ℕ} {image : ImageShape}
    (hsteps : steps.RunsOn rows image.toList [width,image.height,image.width])
    (h : rest.RunsOn rows image channels) :
    (BranchPlans.branch steps width rest).RunsOn rows image (width + channels) := by
  intro x hx
  obtain ⟨trace,y,hforward,hy,hinside,hback⟩ := hsteps x hx
  obtain ⟨traces,outputs,hbranch,houtputs,hsum,-,hcovers,hbranchBack⟩ := h x hx
  have hnodes : ((BranchPlans.branch steps width rest).listing.map (·.1)) =
      steps.listing.map (·.1) ++ rest.listing.map (·.1) := by
    simp [BranchPlans.listing]
  refine ⟨.branch trace width traces,y :: outputs,forward_branch_eq_ok_iff.mpr
    ⟨trace,y,traces,outputs,hforward,hbranch,rfl,rfl⟩,?_,?_,by simp,?_,?_⟩
  · exact List.forall_mem_cons.mpr ⟨⟨width,hy⟩,houtputs⟩
  · simp [Tensor.extent,hy,← hsum]
  · rw [hnodes]
    exact hinside.append hcovers
  intro node d limit offset total hd hoffset htotal
  have hstop : offset + width ≤ limit := by omega
  obtain ⟨part,hpart,hpartShape⟩ := exists_slice hd (Nat.le_add_right offset width) hstop
  obtain ⟨log,e,hbackward,he,hlog⟩ := hback part (by rw [hpartShape]; simp)
  have hreturned : ∀ t ∈ total, t.shape = e.shape := fun t ht => (htotal t ht).trans he.symm
  obtain ⟨sum,hsum',hsumShape⟩ := exists_addReturned hreturned
  obtain ⟨later,last,hlater,hlastShape,hlastSome,hlaterCovers⟩ :=
    hbranchBack node d limit (offset + width) (some sum) hd (by omega)
      (by rintro t ⟨⟩; exact hsumShape.trans he)
  refine ⟨log ++ later,last,backward_branch_eq_ok_iff.mpr
    ⟨part,log,e,sum,later,hpart,hbackward,hsum',hlater,rfl⟩,hlastShape,
    fun _ => hlastSome (.inr rfl),?_⟩
  rw [hnodes]
  exact hlog.append hlaterCovers

mutual

theorem Layers.runsOn_of_compile (layers : Layers α) {shape out : List ℕ} {parent : String}
    {depth rows : ℕ} {n m : Numbering} {plan : Plan α Node}
    (h : layers.compile shape parent depth n = .ok (plan,out,m))
    (hready : layers.All Operation.Ready) (hrows : rows ≠ 0)
    (hshape : Tensor.Addressable (rows :: shape))
    (hnodes : ∀ entry ∈ plan.listing, Tensor.Addressable (rows :: entry.1.outputShape))
    (hjoins : ∀ join ∈ plan.joins, Tensor.Addressable (join.2 :: join.1.outputShape.tail)) :
    plan.RunsOn rows shape out := by
  cases layers with
  | nil =>
    obtain ⟨rfl,rfl,rfl⟩ := Layers.compile_nil_eq_ok_iff.mp h
    exact Plan.runsOn_done rows _
  | single name op rest =>
    obtain ⟨t,middle,after,hfit,hrest,rfl⟩ := Layers.compile_single_eq_ok_iff.mp h
    obtain ⟨⟨hextents,hbias⟩,hready⟩ := hready
    obtain ⟨hout,hnodes⟩ := List.forall_mem_cons.mp hnodes
    have ht := Transform.resolves_of_ofOperation (Operation.fit_eq_ok hfit)
    have hafter := rest.runsOn_of_compile hrest hready hrows hout hnodes hjoins
    exact Plan.RunsOn.layer hafter ht.fits (ht.denseReady hextents hbias) hrows hshape hout
  | block name branches rest =>
    obtain ⟨image,plans,channels,k,after,himage,hbranches,hrest,rfl⟩ :=
      Layers.compile_block_eq_ok_iff.mp h
    obtain ⟨hne,rfl⟩ := Branches.image_eq_ok_iff.mp himage
    obtain ⟨hinside,hready⟩ := hready
    obtain ⟨hout,hnodes⟩ := List.forall_mem_cons.mp hnodes
    obtain ⟨hinsideNodes,hnodes⟩ := List.forall_mem_append.mp hnodes
    obtain ⟨hjoin,hjoins⟩ := List.forall_mem_cons.mp hjoins
    obtain ⟨hinsideJoins,hjoins⟩ := List.forall_mem_append.mp hjoins
    have hplans :=
      branches.runsOn_of_compile hbranches hinside hrows hshape hinsideNodes hinsideJoins
    have hafter := rest.runsOn_of_compile hrest hready hrows hout hnodes hjoins
    rw [branches.channels_of_compile hbranches] at hjoin
    have hdone : plans ≠ .done := by
      rintro rfl
      cases branches with
      | nil => exact hne rfl
      | cons name layers others =>
        obtain ⟨steps,width,j,after',others',-,-,hplans,-⟩ :=
          Branches.compile_cons_eq_ok_iff.mp hbranches
        cases hplans
    exact Plan.RunsOn.block hplans hafter hdone rfl rfl hjoin

theorem Branches.runsOn_of_compile (branches : Branches α) {image : ImageShape} {parent : String}
    {depth rows channels : ℕ} {n m : Numbering} {plans : BranchPlans α Node}
    (h : branches.compile image parent depth n = .ok (plans,channels,m))
    (hready : branches.All Operation.Ready) (hrows : rows ≠ 0)
    (hshape : Tensor.Addressable (rows :: image.toList))
    (hnodes : ∀ entry ∈ plans.listing, Tensor.Addressable (rows :: entry.1.outputShape))
    (hjoins : ∀ join ∈ plans.joins, Tensor.Addressable (join.2 :: join.1.outputShape.tail)) :
    plans.RunsOn rows image channels := by
  cases branches with
  | nil =>
    obtain ⟨rfl,rfl,rfl⟩ := Branches.compile_nil_eq_ok_iff.mp h
    exact BranchPlans.runsOn_done rows image
  | cons name layers rest =>
    obtain ⟨steps,width,k,after,others,hlayers,hrest,rfl,rfl⟩ :=
      Branches.compile_cons_eq_ok_iff.mp h
    obtain ⟨hinside,hready⟩ := hready
    obtain ⟨hinsideNodes,hnodes⟩ := List.forall_mem_append.mp hnodes
    obtain ⟨hinsideJoins,hjoins⟩ := List.forall_mem_append.mp hjoins
    have hsteps :=
      layers.runsOn_of_compile hlayers hinside hrows hshape hinsideNodes hinsideJoins
    have hafter := rest.runsOn_of_compile hrest hready hrows hshape hnodes hjoins
    exact BranchPlans.RunsOn.branch hsteps hafter

end

namespace Engine

/-- What a run with so many rows stores fits allocations: the derivative that reaches the input, the
one of every node, and the joined outputs of every block. -/
structure FitsAllocation (e : Engine α) (rows : ℕ) : Prop where
  input : Tensor.Addressable (rows :: e.inputShape)
  derivatives : ∀ node ∈ e.nodes, Tensor.Addressable (rows :: node.outputShape)
  joins : ∀ join ∈ e.plan.joins, Tensor.Addressable (join.2 :: join.1.outputShape.tail)

/-- A network that was read from a text, whose fully connected layers have inputs and outputs,
runs without an error on all bounds of its shapes whose results fit allocations. Each pass
stores one bound at every node, in the shape that was resolved for the node. -/
theorem exists_propagate {text : String} {net : Network Single} {e : Engine Single} {rows : ℕ}
    {x seed : Interval Single} (hnet : Network.ofText text = .ok net)
    (hextents : net.layers.All Operation.HasExtents) (he : compile net = .ok e)
    (hx : x.shape = e.inputShape) (hrows : rows ≠ 0) (hseed : seed.shape = rows :: e.outputShape)
    (hfit : e.FitsAllocation rows) :
    ∃ r trace slots log, e.propagate x seed = .ok r ∧ e.plan.forward x = .ok (trace,r.output) ∧
      trace.activations.foldlM (fun s w => s.setActivation w.1 w.2) (Slots.empty e.nodeCount) =
        .ok slots ∧
      trace.backward seed = .ok (log,r.inputDerivative) ∧
      log.foldlM (fun s w => s.setDerivative w.1 w.2) slots = .ok r.slots ∧
      r.output.shape = e.outputShape ∧ r.inputDerivative.shape = rows :: e.inputShape ∧
      e.nodes.map (·.id) = List.range net.nodeCount ∧
      ∀ node ∈ e.nodes, trace.activations.countP (·.1.id = node.id) = 1 ∧
        log.countP (·.1.id = node.id) = 1 ∧ r.stage? node.id = some .derivativeSet ∧
        (∃ a, r.activation? node.id = some a ∧ a.shape = node.inputShape) ∧
        ∃ d, r.derivative? node.id = some d ∧ d.shape = rows :: node.outputShape := by
  have hbias := Network.biasFits_of_ofText hnet
  have hids := ids_nodes he
  obtain ⟨-,-,hinput,m,hplan⟩ := compile_eq_ok_iff.mp he
  have hnodes : ∀ entry ∈ e.plan.listing, Tensor.Addressable (rows :: entry.1.outputShape) := by
    intro entry hentry
    exact hfit.derivatives entry.1 (List.mem_map_of_mem hentry)
  have hnet' := net.layers.runsOn_of_compile hplan (Layers.All.and _ hextents hbias) hrows
    (hinput ▸ hfit.input) hnodes hfit.joins
  obtain ⟨trace,y,hforward,hy,hactivations,hback⟩ := hnet' x (hx.trans hinput)
  obtain ⟨log,dx,hbackward,hdx,hlog⟩ := hback seed hseed
  have hcount : net.nodeCount = e.nodeCount := (nodeCount_eq he).symm
  have hdistinct : (e.nodes.map (·.id)).Nodup := hids ▸ List.nodup_range
  obtain ⟨slots,stored,hslots,hstored⟩ := Slots.exists_passes
    (hids ▸ hactivations.perm_ids) (hids ▸ hlog.perm_ids)
  rw [hcount] at hslots
  have hr : e.propagate x seed = .ok ⟨stored,y,dx⟩ :=
    propagate_eq_ok_iff.mpr ⟨hx,⟨rows,hrows,hseed⟩,trace,slots,log,hforward,hslots,hbackward,hstored⟩
  obtain ⟨hactivation,hderivative⟩ := Slots.stored_of_passes hslots hstored
  refine ⟨_,trace,slots,log,hr,hforward,hslots,hbackward,hstored,hy,hinput ▸ hdx,hids,?_⟩
  intro node hnode
  obtain ⟨a,ha⟩ := hactivations.exists_mem hnode
  obtain ⟨d,hd⟩ := hlog.exists_mem hnode
  have hset := hderivative _ hd
  exact ⟨hactivations.countP_eq_one hdistinct hnode,hlog.countP_eq_one hdistinct hnode,
    Run.stage?_of_derivative? hset,⟨a,hactivation _ ha,hactivations.shape _ ha⟩,
    d,hset,hlog.shape _ hd⟩

set_option maxRecDepth 8000 in
/-- A fully connected layer behind a block of two branches, one of which has no layers. -/
theorem exists_propagate_block : ∃ net e, Network.ofText ("[\"n\",[1,1,1],[" ++
      "[\"b\",\"inception\",\x7b\x7d,null,null,[[\"l\"],[\"r\",[[\"a\",\"relu\"]]]]]," ++
      "[\"d\",\"fully_connected\",\x7b\x7d,[[2,1],[1,2]]]]]") = .ok net ∧ compile net = .ok e ∧
    ∃ r, e.propagate (Interval.zeros [1,1,1]) (Interval.zeros [3,1]) = .ok r ∧
      r.inputDerivative.shape = [3,1,1,1] := by
  obtain ⟨net,e,hnet,he,hextents,hinput,hout,hfit⟩ : ∃ net e, Network.ofText ("[\"n\",[1,1,1],[" ++
      "[\"b\",\"inception\",\x7b\x7d,null,null,[[\"l\"],[\"r\",[[\"a\",\"relu\"]]]]]," ++
      "[\"d\",\"fully_connected\",\x7b\x7d,[[2,1],[1,2]]]]]") = .ok net ∧ compile net = .ok e ∧
      net.layers.All Operation.HasExtents ∧ e.inputShape = [1,1,1] ∧ e.outputShape = [1] ∧
      e.FitsAllocation 3 := by
    refine ⟨_,_,by cbv,by cbv,?_,rfl,rfl,?_⟩
    · exact ⟨⟨trivial,⟨trivial,trivial⟩,trivial⟩,⟨by decide,by decide⟩,trivial⟩
    · exact ⟨by decide,by decide,by decide⟩
  have hx : (Interval.zeros [1,1,1] : Interval Single).shape = e.inputShape := hinput.symm
  have hseed : (Interval.zeros [3,1] : Interval Single).shape = 3 :: e.outputShape := by
    rw [hout]
    rfl
  obtain ⟨r,-,-,-,hr,-,-,-,-,-,hshape,-⟩ :=
    exists_propagate hnet hextents he hx (by decide) hseed hfit
  exact ⟨net,e,hnet,he,r,hr,hinput ▸ hshape⟩

/-- Without any channels an image can be too large for two rows. -/
theorem propagate_overflows : ∃ net e, Network.ofText
      "[\"n\",[0,2147483648,2147483648],[[\"p\",\"avg_pool\",\x7b\"pool_size\":2147483648\x7d]]]" =
        .ok net ∧
    net.layers.All Operation.HasExtents ∧ compile net = .ok e ∧
    e.inputShape = [0,2147483648,2147483648] ∧ e.outputShape = [0,1,1] ∧
    ∀ r, e.propagate (Interval.zeros [0,2147483648,2147483648]) (Interval.zeros [2,0,1,1]) ≠
      .ok r := by
  refine ⟨_,_,by cbv,?_,by cbv,rfl,rfl,?_⟩
  · exact ⟨trivial,trivial⟩
  intro r h
  obtain ⟨-,-,trace,slots,log,hforward,-,hbackward,-⟩ := propagate_eq_ok_iff.mp h
  obtain ⟨z,after,-,hafter,rfl⟩ := Plan.forward_layer_eq_ok_iff.mp hforward
  obtain ⟨rfl,-⟩ := Prod.mk.inj (Except.ok.inj hafter)
  obtain ⟨later,f,hlater,he,-⟩ := Plan.backward_layer_eq_ok_iff.mp hbackward
  obtain ⟨-,rfl⟩ := Prod.mk.inj (Except.ok.inj hlater)
  simp only [Transform.backward,PoolingTransform.backward,Error.bind_eq_ok_iff,
    Interval.rowCount_eq_ok_iff,Interval.ofRows_eq_ok_iff] at he
  obtain ⟨-,-,rows,hrows,-,ha,-⟩ := he
  obtain rfl := List.head_eq_of_cons_eq hrows
  exact absurd ha (by decide)

end Engine
end Sensitivity
