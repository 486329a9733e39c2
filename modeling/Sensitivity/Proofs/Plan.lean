import Sensitivity.Plan
import Sensitivity.Proofs.Shape.Layer

/-! What compilation gives for each form of layers, and how it numbers them: the ids of a
compiled network are the positions in its listing, depth first in order of declaration. -/
namespace Sensitivity

variable {α : Type}

theorem Branches.image_eq_ok_iff {branches : Branches α} {shape : List ℕ} {image : ImageShape} :
    branches.image shape = .ok image ↔ branches ≠ .nil ∧ image.toList = shape := by
  cases branches <;> simp [Branches.image,Branches.isEmpty,ImageShape.ofShape_eq_ok_iff]

theorem branchWidth_eq_ok_iff {image : ImageShape} {shape : List ℕ} {width : ℕ} :
    (branchWidth image shape : Except (Error α) ℕ) = .ok width ↔
      shape = [width,image.height,image.width] := by
  simp only [branchWidth,Error.bind_eq_ok_iff,ImageShape.ofShape_eq_ok_iff]
  constructor
  · rintro ⟨out,rfl,h⟩
    split at h
    next hh =>
      obtain rfl := Error.pure_eq_ok_iff.mp h
      simp [ImageShape.toList,hh]
    next => cases h
  · rintro rfl
    exact ⟨⟨width,image.height,image.width⟩,rfl,by simp [pure,Except.pure]⟩

variable [Scalar α]

theorem Operation.fit_eq_ok {op : Operation α} {path : String} {shape : List ℕ} {closes : Bool}
    {r : Transform α × List ℕ} (h : op.fit path shape closes = .ok r) :
    Transform.ofOperation op shape = .ok r := by
  unfold Operation.fit at h
  split at h
  · cases h
  · exact h

def Operation.node (op : Operation α) (name parent : String) (depth : ℕ) (n : Numbering)
    (shape out : List ℕ) : Node :=
  ⟨n.nodes,layerPath parent name,op.tag,depth,shape,out,
    if op.isWeighted then some n.weighted else none⟩

def Branches.node (name parent : String) (depth : ℕ) (n : Numbering) (shape out : List ℕ) : Node :=
  ⟨n.nodes,layerPath parent name,"inception",depth,shape,out,none⟩

theorem Layers.compile_nil_eq_ok_iff {shape out : List ℕ} {parent : String} {depth : ℕ}
    {n m : Numbering} {plan : Plan α Node} :
    Layers.nil.compile shape parent depth n = .ok (plan,out,m) ↔
      plan = .done ∧ out = shape ∧ m = n := by
  simp [Layers.compile,eq_comm]

theorem Layers.compile_single_eq_ok_iff {name parent : String} {op : Operation α} {rest : Layers α}
    {shape out : List ℕ} {depth : ℕ} {n m : Numbering} {plan : Plan α Node} :
    (Layers.single name op rest).compile shape parent depth n = .ok (plan,out,m) ↔
      ∃ t middle after, op.fit (layerPath parent name) shape (depth == 0 && rest.isEmpty) =
          .ok (t,middle) ∧
        rest.compile middle parent depth (n.next op.isWeighted) = .ok (after,out,m) ∧
        plan = .layer (op.node name parent depth n shape middle) t after := by
  simp only [Layers.compile,Error.bind_eq_ok_iff,Error.within_eq_ok_iff,Prod.exists,
    Error.pure_eq_ok_iff,Prod.mk.injEq,Operation.node]
  constructor
  · rintro ⟨t,middle,hfit,after,out,m,hrest,rfl,rfl,rfl⟩
    exact ⟨t,middle,after,hfit,hrest,rfl⟩
  · rintro ⟨t,middle,after,hfit,hrest,rfl⟩
    exact ⟨t,middle,hfit,after,out,m,hrest,rfl,rfl,rfl⟩

theorem Layers.compile_block_eq_ok_iff {name parent : String} {branches : Branches α}
    {rest : Layers α} {shape out : List ℕ} {depth : ℕ} {n m : Numbering} {plan : Plan α Node} :
    (Layers.block name branches rest).compile shape parent depth n = .ok (plan,out,m) ↔
      ∃ image plans channels k after, branches.image shape = .ok image ∧
        branches.compile image (layerPath parent name) (depth + 1) (n.next false) =
          .ok (plans,channels,k) ∧
        rest.compile [channels % Window.wordCount,image.height,image.width] parent depth k =
          .ok (after,out,m) ∧
        plan = .block (Branches.node name parent depth n shape
          [channels % Window.wordCount,image.height,image.width]) plans after := by
  simp only [Layers.compile,Error.bind_eq_ok_iff,Error.within_eq_ok_iff,Prod.exists,
    Error.pure_eq_ok_iff,Prod.mk.injEq,Branches.node]
  constructor
  · rintro ⟨image,himage,plans,channels,k,hbranches,after,out,m,hrest,rfl,rfl,rfl⟩
    exact ⟨image,plans,channels,k,after,himage,hbranches,hrest,rfl⟩
  · rintro ⟨image,plans,channels,k,after,himage,hbranches,hrest,rfl⟩
    exact ⟨image,himage,plans,channels,k,hbranches,after,out,m,hrest,rfl,rfl,rfl⟩

theorem Branches.compile_nil_eq_ok_iff {image : ImageShape} {parent : String} {depth channels : ℕ}
    {n m : Numbering} {plans : BranchPlans α Node} :
    Branches.nil.compile image parent depth n = .ok (plans,channels,m) ↔
      plans = .done ∧ channels = 0 ∧ m = n := by
  simp [Branches.compile,eq_comm]

theorem Branches.compile_cons_eq_ok_iff {name parent : String} {layers : Layers α}
    {rest : Branches α} {image : ImageShape} {depth channels : ℕ} {n m : Numbering}
    {plans : BranchPlans α Node} :
    (Branches.cons name layers rest).compile image parent depth n = .ok (plans,channels,m) ↔
      ∃ steps width k after others,
        layers.compile image.toList (layerPath parent name) depth n =
          .ok (steps,[width,image.height,image.width],k) ∧
        rest.compile image parent depth k = .ok (after,others,m) ∧
        plans = .branch steps width after ∧ channels = width + others := by
  simp only [Branches.compile,Error.bind_eq_ok_iff,Prod.exists,branchWidth_eq_ok_iff,
    Error.pure_eq_ok_iff,Prod.mk.injEq]
  constructor
  · rintro ⟨steps,out,k,hlayers,width,rfl,after,others,m,hrest,rfl,rfl,rfl⟩
    exact ⟨steps,width,k,after,others,hlayers,hrest,rfl,rfl⟩
  · rintro ⟨steps,width,k,after,others,hlayers,hrest,rfl,rfl⟩
    exact ⟨steps,_,k,hlayers,width,rfl,after,others,m,hrest,rfl,rfl,rfl⟩

mutual

/-- Compiled layers are numbered in the order they are listed, and none is left out. -/
theorem Layers.ids_compile (layers : Layers α) {shape out : List ℕ} {parent : String} {depth : ℕ}
    {n m : Numbering} {plan : Plan α Node}
    (h : layers.compile shape parent depth n = .ok (plan,out,m)) :
    plan.listing.map (·.1.id) = List.range' n.nodes layers.nodeCount ∧
      m.nodes = n.nodes + layers.nodeCount := by
  cases layers with
  | nil =>
    obtain ⟨rfl,rfl,rfl⟩ := Layers.compile_nil_eq_ok_iff.mp h
    simp [Plan.listing,Layers.nodeCount]
  | single name op rest =>
    obtain ⟨t,middle,after,-,hrest,rfl⟩ := Layers.compile_single_eq_ok_iff.mp h
    obtain ⟨hids,hm⟩ := rest.ids_compile hrest
    simp only [Plan.listing,List.map_cons,Layers.nodeCount,Operation.node]
    rw [hids,hm,Nat.add_comm 1,List.range'_succ]
    exact ⟨rfl,by simp only [Numbering.next]; omega⟩
  | block name branches rest =>
    obtain ⟨image,plans,channels,k,after,-,hbranches,hrest,rfl⟩ :=
      Layers.compile_block_eq_ok_iff.mp h
    obtain ⟨hinside,hk⟩ := branches.ids_compile hbranches
    obtain ⟨hids,hm⟩ := rest.ids_compile hrest
    simp only [Plan.listing,List.map_cons,List.map_append,Layers.nodeCount,Branches.node]
    rw [hinside,hids,hm,hk,List.range'_append_1,Nat.add_assoc 1,Nat.add_comm 1,List.range'_succ]
    exact ⟨rfl,by simp only [Numbering.next]; omega⟩

theorem Branches.ids_compile (branches : Branches α) {image : ImageShape} {parent : String}
    {depth channels : ℕ} {n m : Numbering} {plans : BranchPlans α Node}
    (h : branches.compile image parent depth n = .ok (plans,channels,m)) :
    plans.listing.map (·.1.id) = List.range' n.nodes branches.nodeCount ∧
      m.nodes = n.nodes + branches.nodeCount := by
  cases branches with
  | nil =>
    obtain ⟨rfl,rfl,rfl⟩ := Branches.compile_nil_eq_ok_iff.mp h
    simp [BranchPlans.listing,Branches.nodeCount]
  | cons name layers rest =>
    obtain ⟨steps,width,k,after,others,hlayers,hrest,rfl,rfl⟩ :=
      Branches.compile_cons_eq_ok_iff.mp h
    obtain ⟨hinside,hk⟩ := layers.ids_compile hlayers
    obtain ⟨hids,hm⟩ := rest.ids_compile hrest
    simp only [BranchPlans.listing,List.map_append,Branches.nodeCount]
    rw [hinside,hids,hm,hk,List.range'_append_1]
    exact ⟨rfl,by omega⟩

end

namespace Engine

theorem compile_eq_ok_iff {net : Network α} {e : Engine α} :
    compile net = .ok e ↔ net.layers.isEmpty = false ∧ e.name = net.name ∧
      e.inputShape = net.inputShape ∧
      ∃ m, net.layers.compile net.inputShape "" 0 ⟨0,0⟩ = .ok (e.plan,e.outputShape,m) := by
  unfold compile
  split
  next h => simp [h]
  next h =>
    simp only [Error.bind_eq_ok_iff,Prod.exists,Error.pure_eq_ok_iff,h,true_and]
    constructor
    · rintro ⟨plan,out,m,hplan,rfl⟩
      exact ⟨rfl,rfl,m,hplan⟩
    · rintro ⟨hname,hshape,m,hplan⟩
      refine ⟨_,_,m,hplan,?_⟩
      rw [← hname,← hshape]

theorem exists_compile {net : Network α} {p : Engine α → Prop} [DecidablePred p]
    (h : (compile net).toOption.any p) : ∃ e, compile net = .ok e ∧ p e := by
  cases hcompile : compile net with
  | error cause =>
    rw [hcompile] at h
    cases h
  | ok e =>
    rw [hcompile] at h
    exact ⟨e,rfl,of_decide_eq_true h⟩

theorem ids_nodes {net : Network α} {e : Engine α} (h : compile net = .ok e) :
    e.nodes.map (·.id) = List.range net.nodeCount := by
  obtain ⟨-,-,-,m,hplan⟩ := compile_eq_ok_iff.mp h
  have hids := (net.layers.ids_compile hplan).1
  rw [nodes,listing,List.map_map,List.range_eq_range']
  exact hids

theorem nodeCount_eq {net : Network α} {e : Engine α} (h : compile net = .ok e) :
    e.nodeCount = net.nodeCount := by
  have hids := congrArg List.length (ids_nodes h)
  simpa [nodeCount] using hids

theorem id_of_listing_getElem? {net : Network α} {e : Engine α} (h : compile net = .ok e) {k : ℕ}
    {entry : Node × Option (Transform α)} (hk : e.listing[k]? = some entry) :
    entry.1.id = k := by
  have hids := congrArg (·[k]?) (ids_nodes h)
  simp only [nodes,List.getElem?_map,hk,Option.map_some] at hids
  obtain ⟨hlt,hid⟩ := List.getElem?_eq_some_iff.mp hids.symm
  rw [← hid,List.getElem_range]

end Engine
end Sensitivity
