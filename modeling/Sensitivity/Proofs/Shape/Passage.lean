import Sensitivity.Proofs.Passage
import Sensitivity.Proofs.Shape.Run
import Sensitivity.Proofs.Slice

/-! Shapes of the passages of a run. The layers of a compiled plan fit the shapes noted at their
nodes, so every passage has bounds of the shapes of its node. -/
namespace Sensitivity

variable {α : Type} [Scalar α]

mutual

/-- Layers that fit the shapes of their nodes, each layer taking up where the one before ends. -/
inductive Plan.Fits : Plan α Node → List ℕ → List ℕ → Prop where
  | done (shape : List ℕ) : Plan.Fits .done shape shape
  | layer {node : Node} {t : Transform α} {rest : Plan α Node} {out : List ℕ}
      (fits : t.Fits node.inputShape node.outputShape)
      (after : Plan.Fits rest node.outputShape out) :
      Plan.Fits (.layer node t rest) node.inputShape out
  | block {node : Node} {branches : BranchPlans α Node} {rest : Plan α Node} {out : List ℕ}
      {image : ImageShape} {channels : ℕ} (inside : BranchPlans.Fits branches image channels)
      (input : node.inputShape = image.toList)
      (output : node.outputShape = [channels % Window.wordCount,image.height,image.width])
      (after : Plan.Fits rest node.outputShape out) :
      Plan.Fits (.block node branches rest) node.inputShape out

/-- Branches over one image whose outputs have the channels that they contribute. -/
inductive BranchPlans.Fits : BranchPlans α Node → ImageShape → ℕ → Prop where
  | done (image : ImageShape) : BranchPlans.Fits .done image 0
  | branch {steps : Plan α Node} {rest : BranchPlans α Node} {image : ImageShape}
      {width channels : ℕ} (first : Plan.Fits steps image.toList [width,image.height,image.width])
      (others : BranchPlans.Fits rest image channels) :
      BranchPlans.Fits (.branch steps width rest) image (width + channels)

end

mutual

theorem Layers.fits_of_compile (layers : Layers α) {shape out : List ℕ} {parent : String}
    {depth : ℕ} {n m : Numbering} {plan : Plan α Node}
    (h : layers.compile shape parent depth n = .ok (plan,out,m)) : plan.Fits shape out := by
  cases layers with
  | nil =>
    obtain ⟨rfl,rfl,-⟩ := Layers.compile_nil_eq_ok_iff.mp h
    exact .done _
  | single name op rest =>
    obtain ⟨t,middle,after,hfit,hrest,rfl⟩ := Layers.compile_single_eq_ok_iff.mp h
    have ht := (Transform.resolves_of_ofOperation (Operation.fit_eq_ok hfit)).fits
    let node := op.node name parent depth n shape middle
    have hafter : after.Fits node.outputShape out := rest.fits_of_compile hrest
    exact @Plan.Fits.layer α _ node t after out ht hafter
  | block name branches rest =>
    obtain ⟨image,plans,channels,k,after,himage,hbranches,hrest,rfl⟩ :=
      Layers.compile_block_eq_ok_iff.mp h
    obtain ⟨-,rfl⟩ := Branches.image_eq_ok_iff.mp himage
    let node := Branches.node name parent depth n image.toList
      [channels % Window.wordCount,image.height,image.width]
    have hinside := branches.fits_of_compile hbranches
    have hafter : after.Fits node.outputShape out := rest.fits_of_compile hrest
    exact @Plan.Fits.block α _ node plans after out image channels hinside rfl rfl hafter

theorem Branches.fits_of_compile (branches : Branches α) {image : ImageShape} {parent : String}
    {depth channels : ℕ} {n m : Numbering} {plans : BranchPlans α Node}
    (h : branches.compile image parent depth n = .ok (plans,channels,m)) :
    plans.Fits image channels := by
  cases branches with
  | nil =>
    obtain ⟨rfl,rfl,-⟩ := Branches.compile_nil_eq_ok_iff.mp h
    exact .done _
  | cons name layers rest =>
    obtain ⟨steps,width,k,after,others,hlayers,hrest,rfl,rfl⟩ :=
      Branches.compile_cons_eq_ok_iff.mp h
    exact .branch (layers.fits_of_compile hlayers) (rest.fits_of_compile hrest)

end

theorem Engine.fits_of_compile {net : Network α} {e : Engine α} (he : compile net = .ok e) :
    e.plan.Fits e.inputShape e.outputShape := by
  obtain ⟨-,-,hinput,m,hplan⟩ := compile_eq_ok_iff.mp he
  rw [hinput]
  exact net.layers.fits_of_compile hplan

mutual

theorem Plan.Fits.fits_of_mem_listing {plan : Plan α Node} {shape out : List ℕ}
    (h : plan.Fits shape out) {node : Node} {t : Transform α}
    (hmem : (node,some t) ∈ plan.listing) : t.Fits node.inputShape node.outputShape := by
  cases plan with
  | done => cases hmem
  | layer note u rest =>
    cases h with
    | layer hu hafter =>
      rcases List.mem_cons.mp hmem with heq | hmem
      · obtain ⟨rfl,hut⟩ := Prod.mk.inj heq
        obtain rfl := Option.some.inj hut
        exact hu
      · exact hafter.fits_of_mem_listing hmem
  | block note branches rest =>
    cases h with
    | block hinside _ _ hafter =>
      rcases List.mem_cons.mp hmem with heq | hmem
      · cases heq
      · rcases List.mem_append.mp hmem with hmem | hmem
        · exact hinside.fits_of_mem_listing hmem
        · exact hafter.fits_of_mem_listing hmem

theorem BranchPlans.Fits.fits_of_mem_listing {branches : BranchPlans α Node} {image : ImageShape}
    {channels : ℕ} (h : branches.Fits image channels) {node : Node} {t : Transform α}
    (hmem : (node,some t) ∈ branches.listing) : t.Fits node.inputShape node.outputShape := by
  cases branches with
  | done => cases hmem
  | branch steps width rest =>
    cases h with
    | branch hfirst hothers =>
      rcases List.mem_append.mp hmem with hmem | hmem
      · exact hfirst.fits_of_mem_listing hmem
      · exact hothers.fits_of_mem_listing hmem

end

/-- The bounds of a passage have the shapes of its node, those on the way back in rows. -/
structure Passage.Shaped (rows : ℕ) (p : Passage α Node) : Prop where
  input : p.input.shape = p.note.inputShape
  output : p.output.shape = p.note.outputShape
  sensitivity : p.sensitivity.shape = rows :: p.note.outputShape
  returned : p.returned.shape = rows :: p.note.inputShape

theorem shape_of_addReturned {total : Option (Interval α)} {x sum : Interval α} {shape : List ℕ}
    (h : addReturned total x = .ok sum) (hx : x.shape = shape) : sum.shape = shape := by
  cases total with
  | none =>
    obtain rfl := Except.ok.inj h
    exact hx
  | some t =>
    obtain ⟨htx,hsum⟩ := Tensor.shape_of_zip h
    exact hsum.trans (htx.trans hx)

mutual

theorem Plan.Fits.shape_output {plan : Plan α Node} {shape out : List ℕ}
    (hfits : plan.Fits shape out) {x y d e : Interval α} {passages : List (Passage α Node)}
    (h : plan.Passes x y d e passages) (hx : x.shape = shape) : y.shape = out := by
  cases plan with
  | done =>
    cases hfits
    cases h
    exact hx
  | layer node t rest =>
    cases hfits with
    | layer ht hrest =>
    cases h with
    | layer hz hafter _ => exact hrest.shape_output hafter (ht.shape_forward hz hx)
  | block node branches rest =>
    cases hfits with
    | block hinside hinput houtput hrest =>
    cases h with
    | block hsplit hz hafter =>
      obtain ⟨houtputs,hchannels⟩ := hinside.shape_outputs hsplit (hx.trans hinput)
      obtain ⟨hz,hword⟩ := Tensor.shape_of_concat hz houtputs
      rw [← hword,hchannels,← houtput] at hz
      exact hrest.shape_output hafter hz

theorem BranchPlans.Fits.shape_outputs {branches : BranchPlans α Node} {image : ImageShape}
    {channels : ℕ} (hfits : branches.Fits image channels) {offset : ℕ} {x d : Interval α}
    {total last : Option (Interval α)} {outputs : List (Interval α)}
    {passages : List (Passage α Node)}
    (h : branches.Passes x d offset total outputs last passages) (hx : x.shape = image.toList) :
    (∀ y ∈ outputs, ∃ width, y.shape = [width,image.height,image.width]) ∧
      (outputs.map (·.extent 0)).sum = channels := by
  cases branches with
  | done =>
    cases hfits
    cases h
    exact ⟨by simp,rfl⟩
  | branch steps width rest =>
    cases hfits with
    | branch hsteps hrest =>
    cases h with
    | branch _ hfirst _ hothers =>
      have hy := hsteps.shape_output hfirst hx
      obtain ⟨houtputs,hchannels⟩ := hrest.shape_outputs hothers hx
      refine ⟨List.forall_mem_cons.mpr ⟨⟨width,hy⟩,houtputs⟩,?_⟩
      rw [List.map_cons,List.sum_cons,hchannels,Tensor.extent,hy]
      rfl

end

theorem BranchPlans.Fits.shape_merged {branches : BranchPlans α Node} {image : ImageShape}
    {channels : ℕ} (hfits : branches.Fits image channels) {offset : ℕ} {x d z : Interval α}
    {total last : Option (Interval α)} {outputs : List (Interval α)}
    {passages : List (Passage α Node)}
    (h : branches.Passes x d offset total outputs last passages) (hx : x.shape = image.toList)
    (hz : Tensor.concat outputs 0 = (.ok z : Except (Error α) _)) :
    z.shape = [channels % Window.wordCount,image.height,image.width] ∧
      channels % Window.wordCount = channels := by
  obtain ⟨houtputs,hchannels⟩ := hfits.shape_outputs h hx
  obtain ⟨hz,hword⟩ := Tensor.shape_of_concat hz houtputs
  rw [hchannels] at hz hword
  exact ⟨by rw [hz,hword],hword⟩

mutual

/-- From an input and a sensitivity of the right shapes on, all bounds have the shapes of their
nodes. -/
theorem Plan.Fits.shapes {plan : Plan α Node} {shape out : List ℕ} (hfits : plan.Fits shape out)
    {rows : ℕ} {x y d e : Interval α} {passages : List (Passage α Node)}
    (h : plan.Passes x y d e passages) (hx : x.shape = shape) (hd : d.shape = rows :: out) :
    e.shape = rows :: shape ∧ ∀ p ∈ passages, p.Shaped rows := by
  cases plan with
  | done =>
    cases hfits
    cases h
    exact ⟨hd,by simp⟩
  | layer node t rest =>
    cases hfits with
    | layer ht hrest =>
    cases h with
    | layer hz hafter he =>
      have hz := ht.shape_forward hz hx
      obtain ⟨hf,hpassages⟩ := hrest.shapes hafter hz hd
      have he := ht.shape_backward he hf
      exact ⟨he,List.forall_mem_cons.mpr ⟨⟨hx,hz,hf,he⟩,hpassages⟩⟩
  | block node branches rest =>
    cases hfits with
    | block hinside hinput houtput hrest =>
    cases h with
    | block hsplit hz hafter =>
      have hz := (hinside.shape_merged hsplit (hx.trans hinput) hz).1.trans houtput.symm
      obtain ⟨hf,hpassages⟩ := hrest.shapes hafter hz hd
      obtain ⟨he,hnested⟩ :=
        hinside.shapes hsplit (hx.trans hinput) (hf.trans (by rw [houtput])) (by simp)
      have he := (he _ rfl).trans (congrArg (rows :: ·) hinput.symm)
      exact ⟨he,List.forall_mem_cons.mpr
        ⟨⟨hx,hz,hf,he⟩,List.forall_mem_append.mpr ⟨hnested,hpassages⟩⟩⟩

theorem BranchPlans.Fits.shapes {branches : BranchPlans α Node} {image : ImageShape}
    {channels : ℕ} (hfits : branches.Fits image channels) {rows limit offset : ℕ}
    {x d : Interval α} {total last : Option (Interval α)} {outputs : List (Interval α)}
    {passages : List (Passage α Node)}
    (h : branches.Passes x d offset total outputs last passages) (hx : x.shape = image.toList)
    (hd : d.shape = [rows,limit,image.height,image.width])
    (htotal : ∀ t ∈ total, t.shape = rows :: image.toList) :
    (∀ t ∈ last, t.shape = rows :: image.toList) ∧ ∀ p ∈ passages, p.Shaped rows := by
  cases branches with
  | done =>
    cases hfits
    cases h
    exact ⟨htotal,by simp⟩
  | branch steps width rest =>
    cases hfits with
    | branch hsteps hrest =>
    cases h with
    | branch hpart hfirst hadded hothers =>
      have hpart := Tensor.shape_of_slice hpart hd
      rw [Nat.add_sub_cancel_left] at hpart
      obtain ⟨he,hinside⟩ := hsteps.shapes hfirst hx hpart
      have hsum := shape_of_addReturned hadded he
      obtain ⟨hlast,hpassages⟩ := hrest.shapes hothers hx hd (by rintro t ⟨⟩; exact hsum)
      exact ⟨hlast,List.forall_mem_append.mpr ⟨hinside,hpassages⟩⟩

end

namespace Engine

variable {net : Network α} {e : Engine α}

theorem shaped_of_propagate (he : compile net = .ok e) {x seed : Interval α} {r : Run α}
    (hr : e.propagate x seed = .ok r) :
    ∃ rows passages, rows ≠ 0 ∧ seed.shape = rows :: e.outputShape ∧
      e.plan.Passes x r.output seed r.inputDerivative passages ∧
      passages.map Passage.note = e.nodes ∧ r.Stores passages ∧ ∀ p ∈ passages, p.Shaped rows := by
  obtain ⟨passages,hpasses,hnotes,hstores⟩ := exists_passes_of_propagate he hr
  obtain ⟨hx,⟨rows,hrows,hseed⟩,-⟩ := propagate_eq_ok_iff.mp hr
  obtain ⟨-,hshaped⟩ := (fits_of_compile he).shapes hpasses hx hseed
  exact ⟨rows,passages,hrows,hseed,hpasses,hnotes,hstores,hshaped⟩

end Engine
end Sensitivity
