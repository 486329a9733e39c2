import Sensitivity.Proofs.Propagation
import Sensitivity.Proofs.Sound.Network

/-! Soundness of whole runs. Whatever a network meets at exact values inside the bounds that a
run starts from lies in the bounds that the run stores, at every node and on both ways. -/
namespace Sensitivity

/-- What the two passes noted for a node encloses what its layer meets, in one row. -/
structure Visit.Within (v : Visit) (activations log : List (Node × Interval ℝ)) (row : ℕ)
    (entry : Node × Option (Transform ℝ)) : Prop where
  transform : entry.2 = v.transform
  fits : ∀ t ∈ v.transform, t.Fits v.input.shape v.sensitivity.shape
  input : ∃ A, (entry.1,A) ∈ activations ∧ A.Encloses v.input
  sensitivity : ∃ D, (entry.1,D) ∈ log ∧ D.EnclosesRow row v.sensitivity

theorem Visit.Within.mono {v : Visit} {activations activations' log log' : List (Node × Interval ℝ)}
    {row : ℕ} {entry : Node × Option (Transform ℝ)} (h : v.Within activations log row entry)
    (hactivations : activations ⊆ activations') (hlog : log ⊆ log') :
    v.Within activations' log' row entry := by
  obtain ⟨htransform,hfits,⟨A,hA,hinput⟩,D,hD,hsensitivity⟩ := h
  exact ⟨htransform,hfits,⟨A,hactivations hA,hinput⟩,D,hlog hD,hsensitivity⟩

/-- Every visit of a run is enclosed by what was noted for the node at its place. -/
def Covered (activations log : List (Node × Interval ℝ)) (row : ℕ) :
    List (Node × Option (Transform ℝ)) → List Visit → Prop :=
  List.Forall₂ fun entry v => v.Within activations log row entry

theorem Covered.mono {activations activations' log log' : List (Node × Interval ℝ)} {row : ℕ}
    {entries : List (Node × Option (Transform ℝ))} {visits : List Visit}
    (h : Covered activations log row entries visits) (hactivations : activations ⊆ activations')
    (hlog : log ⊆ log') : Covered activations' log' row entries visits :=
  List.Forall₂.imp (fun _ _ hv => hv.mono hactivations hlog) h

section Covered

variable {activations log : List (Node × Interval ℝ)} {row : ℕ}
  {entries : List (Node × Option (Transform ℝ))} {visits : List Visit}

theorem Covered.transforms (h : Covered activations log row entries visits) :
    visits.map Visit.transform = entries.map (·.2) := by
  induction h with
  | nil => rfl
  | cons hv _ ih => rw [List.map_cons,List.map_cons,ih,hv.transform]

theorem Covered.exists_entry (h : Covered activations log row entries visits) {k : ℕ} {v : Visit}
    (hv : visits[k]? = some v) :
    ∃ entry, entries[k]? = some entry ∧ v.Within activations log row entry := by
  induction h generalizing k with
  | nil => cases hv
  | @cons entry first _ _ hfirst _ ih =>
    cases k with
    | zero =>
      obtain rfl := Option.some.inj hv
      exact ⟨entry,rfl,hfirst⟩
    | succ k => exact ih hv

end Covered

/-- Bounds that pass through a plan, forward and back, enclose the runs of its layers. -/
def Plan.Sound (plan : Plan ℝ Node) (layers : Layers ℝ) (shape out : List ℕ) : Prop :=
  ∀ (x y δ ε : Tensor ℝ) (visits : List Visit) (X Y : Interval ℝ)
    (trace : Plan ℝ (Node × Interval ℝ)), layers.Runs x y δ ε visits → x.shape = shape →
    X.Encloses x → plan.forward X = .ok (trace,Y) → Y.Encloses y ∧ y.shape = out ∧
      (δ.shape = out → ε.shape = shape ∧ ∀ (row : ℕ) (D E : Interval ℝ)
        (log : List (Node × Interval ℝ)), D.EnclosesRow row δ → trace.backward D = .ok (log,E) →
        E.EnclosesRow row ε ∧ Covered trace.activations log row plan.listing visits)

/-- The same for branches over one image. What they pass back is added to what other branches
have passed back already. -/
def BranchPlans.Sound (plans : BranchPlans ℝ Node) (branches : Branches ℝ) (image : ImageShape)
    (channels : ℕ) : Prop :=
  ∀ (x δ ε : Tensor ℝ) (offset limit : ℕ) (ys : List (Tensor ℝ)) (visits : List Visit)
    (X : Interval ℝ) (Ys : List (Interval ℝ)) (traces : BranchPlans ℝ (Node × Interval ℝ)),
    branches.Runs x δ offset ys ε visits → x.shape = image.toList → X.Encloses x →
    plans.forward X = .ok (traces,Ys) → List.Forall₂ Interval.Encloses Ys ys ∧
      (∀ y ∈ ys, ∃ width, y.shape = [width,image.height,image.width]) ∧
      (ys.map (·.extent 0)).sum = channels ∧
      (δ.shape = [limit,image.height,image.width] → ε.shape = image.toList ∧
        ∀ (node : Node) (row : ℕ) (D : Interval ℝ) (total last : Option (Interval ℝ))
          (log : List (Node × Interval ℝ)) (sum : Tensor ℝ), D.EnclosesRow row δ →
          traces.backward node D offset total = .ok (log,last) → sum.shape = image.toList →
          (total = none → sum = Tensor.fill image.toList 0) →
          (∀ T ∈ total, T.EnclosesRow row sum) →
          (∀ L ∈ last, L.EnclosesRow row (sum.plus ε)) ∧
            Covered traces.activations log row plans.listing visits)

theorem Plan.sound_done (shape : List ℕ) : (Plan.done : Plan ℝ Node).Sound .nil shape shape := by
  intro x y δ ε visits X Y trace hrun hshape hX hforward
  obtain ⟨rfl,rfl⟩ := Prod.mk.inj (Except.ok.inj hforward)
  cases hrun
  refine ⟨hX,hshape,fun hδ => ⟨hδ,fun row D E log hD hbackward => ?_⟩⟩
  obtain ⟨-,rfl⟩ := Prod.mk.inj (Except.ok.inj hbackward)
  exact ⟨hD,.nil⟩

theorem Plan.Sound.layer {rest : Plan ℝ Node} {layers : Layers ℝ} {name : String} {op : Operation ℝ}
    {node : Node} {t : Transform ℝ} {shape middle out : List ℕ}
    (ht : Transform.Resolves op shape t middle) (hwords : t.InWords)
    (h : rest.Sound layers middle out) :
    (Plan.layer node t rest).Sound (.single name op layers) shape out := by
  intro x y δ ε visits X Y trace hrun hshape hX hforward
  obtain ⟨Z,after,hZ,hafter,rfl⟩ := Plan.forward_layer_eq_ok_iff.mp hforward
  cases hrun with
  | @single _ _ _ _ _ _ δ' _ _ hrest reversed =>
    have hfits := ht.fits
    have hlayer : op.onShape x.shape = t := hshape ▸ (ht.eq_onShape hwords).symm
    rw [Operation.eval,hlayer] at hrest
    rw [Operation.Reverses,hlayer] at reversed
    obtain ⟨hY,hy,hback⟩ := h _ _ _ _ _ _ _ _ hrest (hfits.shape_eval hshape)
      (hfits.encloses_forward hwords hX hZ) hafter
    refine ⟨hY,hy,fun hδ => ⟨reversed.1.trans hshape,fun row D E log hD hbackward => ?_⟩⟩
    obtain ⟨hδ',hback⟩ := hback hδ
    obtain ⟨later,F,hlater,hE,rfl⟩ := Plan.backward_layer_eq_ok_iff.mp hbackward
    obtain ⟨hF,hcovered⟩ := hback row D F later hD hlater
    refine ⟨hfits.enclosesRow_backward hwords hX hshape hF hδ' hE reversed,.cons ?_ ?_⟩
    · have htransform : (⟨.single op,x,δ'⟩ : Visit).transform = some t := congrArg some hlayer
      refine ⟨htransform.symm,fun u hu => ?_,⟨X,List.mem_cons_self,hX⟩,F,by simp,hF⟩
      obtain rfl := Option.some.inj (htransform.symm.trans hu)
      rw [hshape,hδ']
      exact hfits
    · exact hcovered.mono (List.subset_cons_self _ _) (List.subset_append_left _ _)

theorem Plan.Sound.block {plans : BranchPlans ℝ Node} {branches : Branches ℝ} {rest : Plan ℝ Node}
    {layers : Layers ℝ} {name : String} {node : Node} {image : ImageShape} {channels : ℕ}
    {out : List ℕ} (hbranches : plans.Sound branches image channels)
    (h : rest.Sound layers [channels % Window.wordCount,image.height,image.width] out) :
    (Plan.block node plans rest).Sound (.block name branches layers) image.toList out := by
  intro x y δ ε visits X Y trace hrun hshape hX hforward
  obtain ⟨traces,Ys,Z,after,hsplit,hmerge,hafter,rfl⟩ := Plan.forward_block_eq_ok_iff.mp hforward
  cases hrun with
  | @block _ _ _ _ _ z _ δ' _ ys inside later split merged hrest =>
    obtain ⟨hYs,hshapes,hsum,hbranchBack⟩ :=
      hbranches _ _ _ _ (channels % Window.wordCount) _ _ _ _ _ split hshape hX hsplit
    obtain ⟨z',hz,hZ⟩ := Interval.exists_concat hYs hmerge
    obtain rfl := Except.ok.inj (merged.symm.trans hz)
    obtain ⟨hzshape,hword⟩ := Tensor.shape_of_concat merged hshapes
    rw [← hword,hsum] at hzshape
    obtain ⟨hY,hy,hback⟩ := h _ _ _ _ _ _ _ _ hrest hzshape hZ hafter
    refine ⟨hY,hy,fun hδ => ?_⟩
    obtain ⟨hδ',hback⟩ := hback hδ
    obtain ⟨hε,hbranchBack⟩ := hbranchBack hδ'
    refine ⟨hε,fun row D E log hD hbackward => ?_⟩
    obtain ⟨log',F,insideLog,hlater,hinside,rfl⟩ := Plan.backward_block_eq_ok_iff.mp hbackward
    obtain ⟨hF,hcovered⟩ := hback row D F log' hD hlater
    obtain ⟨hE,hinsideCovered⟩ := hbranchBack node row F none (some E) insideLog
      (Tensor.fill image.toList 0) hF hinside rfl (fun _ => rfl) (by simp)
    have hE := hE E rfl
    rw [← hε,Tensor.zero_plus] at hE
    refine ⟨hE,.cons ⟨rfl,by rintro t ⟨⟩,⟨X,by simp [Plan.activations],hX⟩,F,by simp,hF⟩ ?_⟩
    refine List.rel_append (hinsideCovered.mono ?_ ?_) (hcovered.mono ?_ ?_)
    · exact List.subset_append_left _ _
    · intro w hw
      simp [hw]
    · intro w hw
      simp [Plan.activations,hw]
    · intro w hw
      simp [hw]

theorem BranchPlans.sound_done (image : ImageShape) :
    (BranchPlans.done : BranchPlans ℝ Node).Sound .nil image 0 := by
  intro x δ ε offset limit ys visits X Ys traces hrun hshape hX hforward
  obtain ⟨rfl,rfl⟩ := Prod.mk.inj (Except.ok.inj hforward)
  cases hrun
  refine ⟨.nil,by simp,rfl,fun hδ => ⟨hshape,?_⟩⟩
  intro node row D total last log sum hD hbackward hsum hnone htotal
  obtain ⟨rfl,rfl⟩ := Prod.mk.inj (Except.ok.inj hbackward)
  rw [hshape,← hsum,Tensor.plus_zero]
  exact ⟨htotal,.nil⟩

theorem enclosesRow_addReturned {total : Option (Interval ℝ)} {E S : Interval ℝ} {sum ε : Tensor ℝ}
    {row : ℕ} (hS : addReturned total E = .ok S) (hshape : ε.shape = sum.shape)
    (hnone : total = none → sum = Tensor.fill sum.shape 0)
    (htotal : ∀ T ∈ total, T.EnclosesRow row sum) (hE : E.EnclosesRow row ε) :
    S.EnclosesRow row (sum.plus ε) := by
  cases total with
  | none =>
    obtain rfl := Except.ok.inj hS
    rw [hnone rfl,← hshape,Tensor.zero_plus]
    exact hE
  | some T => exact (htotal T rfl).add hE hshape hS

theorem BranchPlans.Sound.branch {steps : Plan ℝ Node} {layers : Layers ℝ}
    {rest : BranchPlans ℝ Node} {branches : Branches ℝ} {name : String} {image : ImageShape}
    {width channels : ℕ}
    (hsteps : steps.Sound layers image.toList [width,image.height,image.width])
    (h : rest.Sound branches image channels) :
    (BranchPlans.branch steps width rest).Sound (.cons name layers branches) image
      (width + channels) := by
  intro x δ ε offset limit ys visits X Ys traces hrun hshape hX hforward
  obtain ⟨trace,Y,after,others,hfirst,hrest,rfl,rfl⟩ :=
    BranchPlans.forward_branch_eq_ok_iff.mp hforward
  cases hrun with
  | @cons _ _ _ _ y _ part ε₁ ε₂ _ ys' inside later cut first others' =>
    obtain ⟨hY,hy,hback⟩ := hsteps _ _ _ _ _ _ _ _ first hshape hX hfirst
    have hwidth : y.extent 0 = width := by simp [Tensor.extent,hy]
    rw [hwidth] at cut others'
    obtain ⟨hYs,hshapes,hsum,hbranchBack⟩ := h _ _ _ _ limit _ _ _ _ _ others' hshape hX hrest
    refine ⟨.cons hY hYs,List.forall_mem_cons.mpr ⟨⟨width,hy⟩,hshapes⟩,by simp [hwidth,hsum],?_⟩
    intro hδ
    have hpart : part.shape = [width,image.height,image.width] := by
      obtain ⟨-,-,-,rfl⟩ := Tensor.slice_eq_ok_iff.mp cut
      simp [hδ]
    obtain ⟨hε₁,hback⟩ := hback hpart
    obtain ⟨hε₂,hbranchBack⟩ := hbranchBack hδ
    refine ⟨hε₁,fun node row D total last log sum hD hbackward hsumShape hnone htotal => ?_⟩
    obtain ⟨P,insideLog,E,S,laterLog,hP,hE,hS,hlater,rfl⟩ :=
      BranchPlans.backward_branch_eq_ok_iff.mp hbackward
    obtain ⟨hEε,hcovered⟩ := hback row P E insideLog (hD.slice hδ hP cut) hE
    -- What the branches before have passed back is carried along as one sum.
    have hS := enclosesRow_addReturned hS (hε₁.trans hsumShape.symm) (hsumShape ▸ hnone) htotal hEε
    obtain ⟨hlast,hlaterCovered⟩ := hbranchBack node row D (some S) last laterLog (sum.plus ε₁) hD
      hlater hsumShape (by simp) (by rintro T ⟨⟩; exact hS)
    rw [Tensor.plus_assoc _ (hε₁.trans hsumShape.symm)] at hlast
    refine ⟨hlast,List.rel_append (hcovered.mono ?_ ?_) (hlaterCovered.mono ?_ ?_)⟩
    · exact List.subset_append_left _ _
    · exact List.subset_append_left _ _
    · exact List.subset_append_right _ _
    · exact List.subset_append_right _ _

mutual

theorem Layers.sound_of_compile (layers : Layers ℝ) {shape out : List ℕ} {parent : String}
    {depth : ℕ} {n m : Numbering} {plan : Plan ℝ Node}
    (h : layers.compile shape parent depth n = .ok (plan,out,m))
    (hwords : ∀ entry ∈ plan.listing, ∀ t ∈ entry.2, t.InWords) : plan.Sound layers shape out := by
  cases layers with
  | nil =>
    obtain ⟨rfl,rfl,rfl⟩ := Layers.compile_nil_eq_ok_iff.mp h
    exact Plan.sound_done _
  | single name op rest =>
    obtain ⟨t,middle,after,hfit,hrest,rfl⟩ := Layers.compile_single_eq_ok_iff.mp h
    have ht := Transform.resolves_of_ofOperation (Operation.fit_eq_ok hfit)
    obtain ⟨hlayer,hwords⟩ := List.forall_mem_cons.mp hwords
    exact Plan.Sound.layer ht (hlayer t rfl) (rest.sound_of_compile hrest hwords)
  | block name branches rest =>
    obtain ⟨image,plans,channels,k,after,himage,hbranches,hrest,rfl⟩ :=
      Layers.compile_block_eq_ok_iff.mp h
    obtain ⟨-,rfl⟩ := Branches.image_eq_ok_iff.mp himage
    obtain ⟨hinside,hwords⟩ := List.forall_mem_append.mp (List.forall_mem_cons.mp hwords).2
    exact Plan.Sound.block (branches.sound_of_compile hbranches hinside)
      (rest.sound_of_compile hrest hwords)

theorem Branches.sound_of_compile (branches : Branches ℝ) {image : ImageShape} {parent : String}
    {depth channels : ℕ} {n m : Numbering} {plans : BranchPlans ℝ Node}
    (h : branches.compile image parent depth n = .ok (plans,channels,m))
    (hwords : ∀ entry ∈ plans.listing, ∀ t ∈ entry.2, t.InWords) :
    plans.Sound branches image channels := by
  cases branches with
  | nil =>
    obtain ⟨rfl,rfl,rfl⟩ := Branches.compile_nil_eq_ok_iff.mp h
    exact BranchPlans.sound_done image
  | cons name layers rest =>
    obtain ⟨steps,width,k,after,others,hlayers,hrest,rfl,rfl⟩ :=
      Branches.compile_cons_eq_ok_iff.mp h
    obtain ⟨hinside,hwords⟩ := List.forall_mem_append.mp hwords
    exact BranchPlans.Sound.branch (layers.sound_of_compile hlayers hinside)
      (rest.sound_of_compile hrest hwords)

end

/-- Where bounds pass forward through a plan, its layers have a run from every input inside and
every sensitivity of the output shape. -/
def Plan.Realizes (plan : Plan ℝ Node) (layers : Layers ℝ) (shape out : List ℕ) : Prop :=
  ∀ (x : Tensor ℝ) (X Y : Interval ℝ) (trace : Plan ℝ (Node × Interval ℝ)), x.shape = shape →
    X.Encloses x → plan.forward X = .ok (trace,Y) → ∃ y, Y.Encloses y ∧ y.shape = out ∧
      ∀ δ : Tensor ℝ, δ.shape = out → ∃ ε visits, layers.Runs x y δ ε visits ∧ ε.shape = shape

def BranchPlans.Realizes (plans : BranchPlans ℝ Node) (branches : Branches ℝ) (image : ImageShape)
    (channels : ℕ) : Prop :=
  ∀ (x : Tensor ℝ) (X : Interval ℝ) (Ys : List (Interval ℝ))
    (traces : BranchPlans ℝ (Node × Interval ℝ)), x.shape = image.toList → X.Encloses x →
    plans.forward X = .ok (traces,Ys) → ∃ ys, List.Forall₂ Interval.Encloses Ys ys ∧
      (∀ y ∈ ys, ∃ width, y.shape = [width,image.height,image.width]) ∧
      (ys.map (·.extent 0)).sum = channels ∧
      ∀ (δ : Tensor ℝ) (limit offset : ℕ), δ.shape = [limit,image.height,image.width] →
        offset + channels ≤ limit →
        ∃ ε visits, branches.Runs x δ offset ys ε visits ∧ ε.shape = image.toList

theorem Plan.realizes_done (shape : List ℕ) :
    (Plan.done : Plan ℝ Node).Realizes .nil shape shape := by
  intro x X Y trace hshape hX hforward
  obtain ⟨-,rfl⟩ := Prod.mk.inj (Except.ok.inj hforward)
  exact ⟨x,hX,hshape,fun δ hδ => ⟨δ,[],.nil x δ,hδ⟩⟩

theorem Plan.Realizes.layer {rest : Plan ℝ Node} {layers : Layers ℝ} {name : String}
    {op : Operation ℝ} {node : Node} {t : Transform ℝ} {shape middle out : List ℕ}
    (ht : Transform.Resolves op shape t middle) (hwords : t.InWords)
    (h : rest.Realizes layers middle out) :
    (Plan.layer node t rest).Realizes (.single name op layers) shape out := by
  intro x X Y trace hshape hX hforward
  obtain ⟨Z,after,hZ,hafter,rfl⟩ := Plan.forward_layer_eq_ok_iff.mp hforward
  have hfits := ht.fits
  have hlayer : op.onShape x.shape = t := hshape ▸ (ht.eq_onShape hwords).symm
  obtain ⟨y,hY,hy,hruns⟩ := h _ _ _ _ (hfits.shape_eval hshape)
    (hfits.encloses_forward hwords hX hZ) hafter
  refine ⟨y,hY,hy,fun δ hδ => ?_⟩
  obtain ⟨δ',visits,hrun,-⟩ := hruns δ hδ
  obtain ⟨ε,hε⟩ := hfits.exists_reverses hshape δ'
  subst hlayer
  exact ⟨ε,_,.single hrun hε,hε.1.trans hshape⟩

theorem Plan.Realizes.block {plans : BranchPlans ℝ Node} {branches : Branches ℝ}
    {rest : Plan ℝ Node} {layers : Layers ℝ} {name : String} {node : Node} {image : ImageShape}
    {channels : ℕ} {out : List ℕ} (hbranches : plans.Realizes branches image channels)
    (h : rest.Realizes layers [channels % Window.wordCount,image.height,image.width] out) :
    (Plan.block node plans rest).Realizes (.block name branches layers) image.toList out := by
  intro x X Y trace hshape hX hforward
  obtain ⟨traces,Ys,Z,after,hsplit,hmerge,hafter,rfl⟩ := Plan.forward_block_eq_ok_iff.mp hforward
  obtain ⟨ys,hYs,hshapes,hsum,hbranchRuns⟩ := hbranches x X Ys traces hshape hX hsplit
  obtain ⟨z,hz,hZ⟩ := Interval.exists_concat hYs hmerge
  obtain ⟨hzshape,hword⟩ := Tensor.shape_of_concat hz hshapes
  rw [hsum] at hzshape hword
  rw [hword] at h
  obtain ⟨y,hY,hy,hruns⟩ := h z Z Y after hzshape hZ hafter
  refine ⟨y,hY,hy,fun δ hδ => ?_⟩
  obtain ⟨δ',visits,hrun,hδ'⟩ := hruns δ hδ
  obtain ⟨ε,inside,hinside,hε⟩ := hbranchRuns δ' channels 0 hδ' (by omega)
  exact ⟨ε,_,.block hinside hz hrun,hε⟩

theorem BranchPlans.realizes_done (image : ImageShape) :
    (BranchPlans.done : BranchPlans ℝ Node).Realizes .nil image 0 := by
  intro x X Ys traces hshape hX hforward
  obtain ⟨-,rfl⟩ := Prod.mk.inj (Except.ok.inj hforward)
  exact ⟨[],.nil,by simp,rfl,fun δ limit offset _ _ => ⟨_,[],.nil x δ offset,hshape⟩⟩

theorem BranchPlans.Realizes.branch {steps : Plan ℝ Node} {layers : Layers ℝ}
    {rest : BranchPlans ℝ Node} {branches : Branches ℝ} {name : String} {image : ImageShape}
    {width channels : ℕ}
    (hsteps : steps.Realizes layers image.toList [width,image.height,image.width])
    (h : rest.Realizes branches image channels) :
    (BranchPlans.branch steps width rest).Realizes (.cons name layers branches) image
      (width + channels) := by
  intro x X Ys traces hshape hX hforward
  obtain ⟨trace,Y,after,others,hfirst,hrest,rfl,rfl⟩ :=
    BranchPlans.forward_branch_eq_ok_iff.mp hforward
  obtain ⟨y,hY,hy,hruns⟩ := hsteps x X Y trace hshape hX hfirst
  obtain ⟨ys,hYs,hshapes,hsum,hbranchRuns⟩ := h x X others after hshape hX hrest
  have hwidth : y.extent 0 = width := by simp [Tensor.extent,hy]
  refine ⟨y :: ys,.cons hY hYs,List.forall_mem_cons.mpr ⟨⟨width,hy⟩,hshapes⟩,
    by simp [hwidth,hsum],fun δ limit offset hδ hoffset => ?_⟩
  have hextent : δ.extent 0 = limit := by simp [Tensor.extent,hδ]
  obtain ⟨part,hpart,hpartShape⟩ : ∃ part, δ.slice 0 offset (offset + y.extent 0) =
      (.ok part : Except (Error ℝ) _) ∧ part.shape = [width,image.height,image.width] := by
    refine ⟨_,Tensor.slice_eq_ok_iff.mpr ⟨by simp [Tensor.rank,hδ],Nat.le_add_right _ _,?_,rfl⟩,?_⟩
    · rw [hextent,hwidth]
      omega
    · simp [hδ,hwidth]
  obtain ⟨ε,inside,hrun,hε⟩ := hruns part hpartShape
  obtain ⟨ε',visits,hothers,-⟩ := hbranchRuns δ limit (offset + y.extent 0) hδ (by omega)
  exact ⟨_,_,.cons hpart hrun hothers,hε⟩

mutual

theorem Layers.realizes_of_compile (layers : Layers ℝ) {shape out : List ℕ} {parent : String}
    {depth : ℕ} {n m : Numbering} {plan : Plan ℝ Node}
    (h : layers.compile shape parent depth n = .ok (plan,out,m))
    (hwords : ∀ entry ∈ plan.listing, ∀ t ∈ entry.2, t.InWords) :
    plan.Realizes layers shape out := by
  cases layers with
  | nil =>
    obtain ⟨rfl,rfl,rfl⟩ := Layers.compile_nil_eq_ok_iff.mp h
    exact Plan.realizes_done _
  | single name op rest =>
    obtain ⟨t,middle,after,hfit,hrest,rfl⟩ := Layers.compile_single_eq_ok_iff.mp h
    have ht := Transform.resolves_of_ofOperation (Operation.fit_eq_ok hfit)
    obtain ⟨hlayer,hwords⟩ := List.forall_mem_cons.mp hwords
    exact Plan.Realizes.layer ht (hlayer t rfl) (rest.realizes_of_compile hrest hwords)
  | block name branches rest =>
    obtain ⟨image,plans,channels,k,after,himage,hbranches,hrest,rfl⟩ :=
      Layers.compile_block_eq_ok_iff.mp h
    obtain ⟨-,rfl⟩ := Branches.image_eq_ok_iff.mp himage
    obtain ⟨hinside,hwords⟩ := List.forall_mem_append.mp (List.forall_mem_cons.mp hwords).2
    exact Plan.Realizes.block (branches.realizes_of_compile hbranches hinside)
      (rest.realizes_of_compile hrest hwords)

theorem Branches.realizes_of_compile (branches : Branches ℝ) {image : ImageShape}
    {parent : String} {depth channels : ℕ} {n m : Numbering} {plans : BranchPlans ℝ Node}
    (h : branches.compile image parent depth n = .ok (plans,channels,m))
    (hwords : ∀ entry ∈ plans.listing, ∀ t ∈ entry.2, t.InWords) :
    plans.Realizes branches image channels := by
  cases branches with
  | nil =>
    obtain ⟨rfl,rfl,rfl⟩ := Branches.compile_nil_eq_ok_iff.mp h
    exact BranchPlans.realizes_done image
  | cons name layers rest =>
    obtain ⟨steps,width,k,after,others,hlayers,hrest,rfl,rfl⟩ :=
      Branches.compile_cons_eq_ok_iff.mp h
    obtain ⟨hinside,hwords⟩ := List.forall_mem_append.mp hwords
    exact BranchPlans.Realizes.branch (layers.realizes_of_compile hlayers hinside)
      (rest.realizes_of_compile hrest hwords)

end

/-- What a run at exact values meets, inside what a run on bounds has stored: one visit for each
layer, in the order of their declaration and of the ids, the output, and what is passed back to the
input. -/
structure Run.Encloses (r : Run ℝ) (net : Network ℝ) (row : ℕ) (y ε : Tensor ℝ)
    (visits : List Visit) : Prop where
  kinds : visits.map Visit.kind = net.declared.map Declared.kind
  activation : ∀ k v, visits[k]? = some v → ∃ A, r.activation? k = some A ∧ A.Encloses v.input
  derivative : ∀ k v, visits[k]? = some v →
    ∃ D, r.derivative? k = some D ∧ D.EnclosesRow row v.sensitivity
  output : r.output.Encloses y
  inputDerivative : r.inputDerivative.EnclosesRow row ε

namespace Engine

variable {net : Network ℝ} {e : Engine ℝ} {X S : Interval ℝ} {r : Run ℝ} {x y d δ ε : Tensor ℝ}
  {row : ℕ} {visits : List Visit}

theorem shape_seed (hr : e.propagate X S = .ok r) (hδ : S.EnclosesRow row δ) :
    δ.shape = e.outputShape := by
  obtain ⟨-,⟨rows,-,hS⟩,-⟩ := propagate_eq_ok_iff.mp hr
  obtain ⟨rows',hS',-⟩ := hδ
  exact List.tail_eq_of_cons_eq (hS'.symm.trans hS)

/-- Every visit of a run is enclosed by what was stored for the node at its place. -/
theorem exists_covered (he : compile net = .ok e) (hwords : e.InWords)
    (hr : e.propagate X S = .ok r) (hx : X.Encloses x) (hδ : S.EnclosesRow row δ)
    (hrun : net.layers.Runs x y δ ε visits) :
    r.output.Encloses y ∧ r.inputDerivative.EnclosesRow row ε ∧
      ∃ activations log, Covered activations log row e.listing visits ∧
        (∀ w ∈ activations, r.activation? w.1.id = some w.2) ∧
        ∀ w ∈ log, r.derivative? w.1.id = some w.2 := by
  obtain ⟨hX,-,trace,slots,log,hforward,hslots,hbackward,hstored⟩ := propagate_eq_ok_iff.mp hr
  obtain ⟨-,-,hinput,m,hplan⟩ := compile_eq_ok_iff.mp he
  obtain ⟨hy,-,hback⟩ := net.layers.sound_of_compile hplan hwords x y δ ε visits X r.output trace
    hrun (hx.1.symm.trans (hX.trans hinput)) hx hforward
  obtain ⟨-,hback⟩ := hback (shape_seed hr hδ)
  obtain ⟨hε,hcovered⟩ := hback row S r.inputDerivative log hδ hbackward
  obtain ⟨hactivation,hderivative⟩ := Slots.stored_of_passes hslots hstored
  exact ⟨hy,hε,_,_,hcovered,hactivation,hderivative⟩

theorem exists_runs (he : compile net = .ok e) (hwords : e.InWords)
    (hr : e.propagate X S = .ok r) (hx : X.Encloses x) (hδ : S.EnclosesRow row δ) :
    ∃ y ε visits, net.layers.Runs x y δ ε visits := by
  obtain ⟨hX,-,trace,-,-,hforward,-⟩ := propagate_eq_ok_iff.mp hr
  obtain ⟨-,-,hinput,m,hplan⟩ := compile_eq_ok_iff.mp he
  obtain ⟨y,-,-,hruns⟩ := net.layers.realizes_of_compile hplan hwords x X r.output trace
    (hx.1.symm.trans (hX.trans hinput)) hx hforward
  obtain ⟨ε,visits,hrun,-⟩ := hruns δ (shape_seed hr hδ)
  exact ⟨y,ε,visits,hrun⟩

theorem encloses_of_runs (he : compile net = .ok e) (hwords : e.InWords)
    (hr : e.propagate X S = .ok r) (hx : X.Encloses x) (hδ : S.EnclosesRow row δ)
    (hrun : net.layers.Runs x y δ ε visits) : r.Encloses net row y ε visits := by
  obtain ⟨hy,hε,activations,log,hcovered,hactivation,hderivative⟩ :=
    exists_covered he hwords hr hx hδ hrun
  refine ⟨hrun.map_kind _ _,fun k v hv => ?_,fun k v hv => ?_,hy,hε⟩
  · obtain ⟨entry,hentry,hwithin⟩ := hcovered.exists_entry hv
    obtain ⟨A,hA,hinput⟩ := hwithin.input
    exact ⟨A,id_of_listing_getElem? he hentry ▸ hactivation _ hA,hinput⟩
  · obtain ⟨entry,hentry,hwithin⟩ := hcovered.exists_entry hv
    obtain ⟨D,hD,hsensitivity⟩ := hwithin.sensitivity
    exact ⟨D,id_of_listing_getElem? he hentry ▸ hderivative _ hD,hsensitivity⟩

/-- From every input and every seed inside the bounds that were propagated, row by row, a network
has a run, and all of its runs stay inside the bounds that were stored. -/
theorem propagate_encloses (he : compile net = .ok e) (hwords : e.InWords)
    (hr : e.propagate X S = .ok r) (hx : X.Encloses x) (hd : S.Encloses d) :
    ∀ row δ, d.index 0 row = (.ok δ : Except (Error ℝ) (Tensor ℝ)) →
      (∃ y ε visits, net.layers.Runs x y δ ε visits) ∧
        ∀ y ε visits, net.layers.Runs x y δ ε visits → r.Encloses net row y ε visits := by
  intro row δ hrow
  have hδ := hd.enclosesRow hrow
  exact ⟨exists_runs he hwords hr hx hδ,
    fun y ε visits hrun => encloses_of_runs he hwords hr hx hδ hrun⟩

/-- A block of two branches, one of which is empty and one a rectifier with zero in its bound,
and the averages of overlapping windows over it. -/
theorem propagate_encloses_block : ∃ (net : Network ℝ) (e : Engine ℝ) (r : Run ℝ) (δ : Tensor ℝ),
    compile net = .ok e ∧ e.nodeCount = 3 ∧ e.InWords ∧
      e.propagate (Tensor.fill [1,1,1] ⟨-1,1⟩) (Tensor.fill [1,2,2,2] ⟨0,1⟩) = .ok r ∧
      (Tensor.fill [1,2,2,2] (1 : ℝ)).index 0 0 = (.ok δ : Except (Error ℝ) (Tensor ℝ)) ∧
      ∃ y ε visits, net.layers.Runs (Tensor.fill [1,1,1] 0) y δ ε visits ∧
        r.Encloses net 0 y ε visits := by
  let net : Network ℝ := ⟨"n",[1,1,1],
    .block "b" (.cons "l" .nil (.cons "r" (.single "a" .relu .nil) .nil))
      (.single "p" (.pooling ⟨.avg,2,1,1⟩) .nil)⟩
  obtain ⟨e,he,hwords⟩ : ∃ e, compile net = .ok e ∧ e.InWords :=
    exists_compile (by decide +kernel)
  obtain ⟨_,r,he',hr⟩ : ∃ e' r, compile net = .ok e' ∧
      e'.propagate (Tensor.fill [1,1,1] ⟨-1,1⟩) (Tensor.fill [1,2,2,2] ⟨0,1⟩) = .ok r :=
    exists_run_of_isOk (by decide +kernel)
  obtain rfl := Except.ok.inj (he.symm.trans he')
  obtain ⟨δ,hδ⟩ : ∃ δ, (Tensor.fill [1,2,2,2] (1 : ℝ)).index 0 0 =
      (.ok δ : Except (Error ℝ) (Tensor ℝ)) := ⟨_,rfl⟩
  have hx : Interval.Encloses (Tensor.fill [1,1,1] ⟨-1,1⟩) (Tensor.fill [1,1,1] 0) :=
    Interval.encloses_fill _ ⟨by norm_num,by norm_num⟩
  have hd : Interval.Encloses (Tensor.fill [1,2,2,2] ⟨0,1⟩) (Tensor.fill [1,2,2,2] 1) :=
    Interval.encloses_fill _ ⟨zero_le_one,le_rfl⟩
  obtain ⟨⟨y,ε,visits,hrun⟩,hall⟩ := propagate_encloses he hwords hr hx hd 0 δ hδ
  exact ⟨net,e,r,δ,he,nodeCount_eq he,hwords,hr,hδ,y,ε,visits,hrun,hall y ε visits hrun⟩

end Engine
end Sensitivity
