import Sensitivity.Proofs.Listing

/-! Blocks branch by branch. What a run does does not depend on the notes of a plan, and layers
inside a block are compiled as they would be anywhere else. A block therefore runs each of its
branches as a network of its own, on its input and on the channels of its sensitivity that are
the branch's, and only joins the outputs and adds up what is passed back. -/
namespace Sensitivity

variable {α ν : Type}

mutual

def Plan.bare : Plan α ν → Plan α Unit
  | .done => .done
  | .layer _ t rest => .layer () t rest.bare
  | .block _ branches rest => .block () branches.bare rest.bare

def BranchPlans.bare : BranchPlans α ν → BranchPlans α Unit
  | .done => .done
  | .branch steps width rest => .branch steps.bare width rest.bare

end

def Passage.bare (p : Passage α ν) : Passage α Unit :=
  ⟨(),p.input,p.output,p.sensitivity,p.returned⟩

variable [Scalar α]

mutual

/-- Notes play no part in a run. -/
theorem Plan.passes_bare_iff (plan : Plan α ν) {x y d e : Interval α}
    {bares : List (Passage α Unit)} : plan.bare.Passes x y d e bares ↔
      ∃ passages, plan.Passes x y d e passages ∧ passages.map Passage.bare = bares := by
  cases plan with
  | done =>
    constructor
    · intro h
      cases h
      exact ⟨[],.done _ _,rfl⟩
    · rintro ⟨passages,h,rfl⟩
      cases h
      exact .done _ _
  | layer note t rest =>
    constructor
    · intro h
      cases h with
      | layer hz hafter he =>
      obtain ⟨passages,hpasses,rfl⟩ := rest.passes_bare_iff.mp hafter
      exact ⟨_,.layer hz hpasses he,rfl⟩
    · rintro ⟨passages,h,rfl⟩
      cases h with
      | layer hz hafter he =>
      exact .layer hz (rest.passes_bare_iff.mpr ⟨_,hafter,rfl⟩) he
  | block note branches rest =>
    constructor
    · intro h
      cases h with
      | block hsplit hz hafter =>
      obtain ⟨passages,hpasses,rfl⟩ := rest.passes_bare_iff.mp hafter
      obtain ⟨inside,hinside,rfl⟩ := branches.passes_bare_iff.mp hsplit
      exact ⟨_,.block hinside hz hpasses,by simp [Passage.bare]⟩
    · rintro ⟨passages,h,rfl⟩
      cases h with
      | block hsplit hz hafter =>
      rw [List.map_cons,List.map_append]
      exact .block (branches.passes_bare_iff.mpr ⟨_,hsplit,rfl⟩) hz
        (rest.passes_bare_iff.mpr ⟨_,hafter,rfl⟩)

theorem BranchPlans.passes_bare_iff (branches : BranchPlans α ν) {x d : Interval α} {offset : ℕ}
    {total last : Option (Interval α)} {outputs : List (Interval α)}
    {bares : List (Passage α Unit)} : branches.bare.Passes x d offset total outputs last bares ↔
      ∃ passages, branches.Passes x d offset total outputs last passages ∧
        passages.map Passage.bare = bares := by
  cases branches with
  | done =>
    constructor
    · intro h
      cases h
      exact ⟨[],.done _ _ _ _,rfl⟩
    · rintro ⟨passages,h,rfl⟩
      cases h
      exact .done _ _ _ _
  | branch steps width rest =>
    constructor
    · intro h
      cases h with
      | branch hpart hsteps hsum hothers =>
      obtain ⟨inside,hinside,rfl⟩ := steps.passes_bare_iff.mp hsteps
      obtain ⟨passages,hpasses,rfl⟩ := rest.passes_bare_iff.mp hothers
      exact ⟨_,.branch hpart hinside hsum hpasses,by simp⟩
    · rintro ⟨passages,h,rfl⟩
      cases h with
      | branch hpart hsteps hsum hothers =>
      rw [List.map_append]
      exact .branch hpart (steps.passes_bare_iff.mpr ⟨_,hsteps,rfl⟩) hsum
        (rest.passes_bare_iff.mpr ⟨_,hothers,rfl⟩)

end

theorem Operation.fit_of_inside {op : Operation α} {path : String} {shape : List ℕ}
    {r : Transform α × List ℕ} (h : op.fit path shape false = .ok r) (other : String)
    (closes : Bool) : op.fit other shape closes = .ok r := by
  cases op with
  | softmax => cases h
  | _ => exact h

mutual

/-- Layers inside a block are compiled alike in any other place, notes apart. -/
theorem Layers.compile_elsewhere (layers : Layers α) {shape out : List ℕ} {parent : String}
    {depth : ℕ} {n m : Numbering} {plan : Plan α Node}
    (h : layers.compile shape parent depth n = .ok (plan,out,m)) (hdepth : depth ≠ 0)
    (parent' : String) (depth' : ℕ) (n' : Numbering) :
    ∃ plan' m', layers.compile shape parent' depth' n' = .ok (plan',out,m') ∧
      plan'.bare = plan.bare := by
  cases layers with
  | nil =>
    obtain ⟨rfl,rfl,-⟩ := Layers.compile_nil_eq_ok_iff.mp h
    exact ⟨.done,n',rfl,rfl⟩
  | single name op rest =>
    obtain ⟨t,middle,after,hfit,hrest,rfl⟩ := Layers.compile_single_eq_ok_iff.mp h
    have hinside : (depth == 0 && rest.isEmpty) = false := by simp [hdepth]
    rw [hinside] at hfit
    obtain ⟨after',m',hafter',hbare⟩ :=
      rest.compile_elsewhere hrest hdepth parent' depth' (n'.next op.isWeighted)
    refine ⟨_,m',Layers.compile_single_eq_ok_iff.mpr
      ⟨t,middle,after',Operation.fit_of_inside hfit _ _,hafter',rfl⟩,?_⟩
    simp only [Plan.bare,hbare]
  | block name branches rest =>
    obtain ⟨image,plans,channels,k,after,himage,hbranches,hrest,rfl⟩ :=
      Layers.compile_block_eq_ok_iff.mp h
    obtain ⟨plans',k',hplans',hinside⟩ := branches.compile_elsewhere hbranches
      (Nat.succ_ne_zero depth) (layerPath parent' name) (depth' + 1) (n'.next false)
    obtain ⟨after',m',hafter',hbare⟩ := rest.compile_elsewhere hrest hdepth parent' depth' k'
    refine ⟨_,m',Layers.compile_block_eq_ok_iff.mpr
      ⟨image,plans',channels,k',after',himage,hplans',hafter',rfl⟩,?_⟩
    simp only [Plan.bare,hinside,hbare]

theorem Branches.compile_elsewhere (branches : Branches α) {image : ImageShape} {parent : String}
    {depth channels : ℕ} {n m : Numbering} {plans : BranchPlans α Node}
    (h : branches.compile image parent depth n = .ok (plans,channels,m)) (hdepth : depth ≠ 0)
    (parent' : String) (depth' : ℕ) (n' : Numbering) :
    ∃ plans' m', branches.compile image parent' depth' n' = .ok (plans',channels,m') ∧
      plans'.bare = plans.bare := by
  cases branches with
  | nil =>
    obtain ⟨rfl,rfl,-⟩ := Branches.compile_nil_eq_ok_iff.mp h
    exact ⟨.done,n',rfl,rfl⟩
  | cons name layers rest =>
    obtain ⟨steps,width,k,after,others,hlayers,hrest,rfl,rfl⟩ :=
      Branches.compile_cons_eq_ok_iff.mp h
    obtain ⟨steps',k',hsteps',hinside⟩ :=
      layers.compile_elsewhere hlayers hdepth (layerPath parent' name) depth' n'
    obtain ⟨after',m',hafter',hbare⟩ := rest.compile_elsewhere hrest hdepth parent' depth' k'
    refine ⟨_,m',Branches.compile_cons_eq_ok_iff.mpr
      ⟨steps',width,k',after',others,hsteps',hafter',rfl,rfl⟩,?_⟩
    simp only [BranchPlans.bare,hinside,hbare]

end

namespace Engine

/-- Layers inside a block are an engine of their own, which runs as the layers do. -/
theorem exists_alone {layers : Layers α} {shape out : List ℕ} {parent : String} {depth : ℕ}
    {n m : Numbering} {plan : Plan α Node}
    (h : layers.compile shape parent depth n = .ok (plan,out,m)) (hdepth : depth ≠ 0)
    (hlayers : layers.isEmpty = false) {x y d e : Interval α} {rows : ℕ} (hx : x.shape = shape)
    (hrows : rows ≠ 0) (hd : d.shape = rows :: out) {passages : List (Passage α Node)}
    (hpasses : plan.Passes x y d e passages) (name : String) :
    ∃ engine alone, compile ⟨name,shape,layers⟩ = .ok engine ∧
      engine.propagate x d = .ok alone ∧ alone.output = y ∧ alone.inputDerivative = e ∧
      ∀ k p, passages[k]? = some p →
        alone.activation? k = some p.input ∧ alone.derivative? k = some p.sensitivity := by
  obtain ⟨plan',m',hplan',hbare⟩ := layers.compile_elsewhere h hdepth "" 0 ⟨0,0⟩
  have hengine : compile ⟨name,shape,layers⟩ = .ok ⟨name,shape,out,plan'⟩ :=
    compile_eq_ok_iff.mpr ⟨hlayers,rfl,rfl,m',hplan'⟩
  have hbares := plan.passes_bare_iff.mpr ⟨passages,hpasses,rfl⟩
  rw [← hbare,Plan.passes_bare_iff] at hbares
  obtain ⟨passages',hpasses',hsame⟩ := hbares
  obtain ⟨alone,halone,hy,he,hstores⟩ :=
    exists_propagate_of_passes hengine hx hrows hd hpasses'
  refine ⟨_,alone,hengine,halone,hy,he,fun k p hk => ?_⟩
  have hget := congrArg (·[k]?) hsame
  simp only [List.getElem?_map,hk,Option.map_some] at hget
  obtain ⟨p',hp',hbare'⟩ := Option.map_eq_some_iff.mp hget
  obtain ⟨hactivation,hderivative⟩ := hstores k p' hp'
  have hinput : p'.input = p.input := congrArg (fun q : Passage α Unit => q.input) hbare'
  have hsensitivity : p'.sensitivity = p.sensitivity :=
    congrArg (fun q : Passage α Unit => q.sensitivity) hbare'
  exact ⟨hinput ▸ hactivation,hsensitivity ▸ hderivative⟩

end Engine

def Branches.toList {α : Type} : Branches α → List (String × Layers α)
  | .nil => []
  | .cons name layers rest => (name,layers) :: rest.toList

/-- One branch of a block in a run: its layers, the id of the first one, its place among the
channels of the block, its part of the sensitivity to the block's output, and what comes out at
both of its ends. -/
structure BranchRun (α : Type) where
  name : String
  layers : Layers α
  first : ℕ
  offset : ℕ
  width : ℕ
  part : Interval α
  output : Interval α
  returned : Interval α

/-- What a branch gives is what its layers give as a network of their own, node by node; without
layers it passes everything on. -/
structure BranchRun.Alone (b : BranchRun α) (shape : List ℕ) (x : Interval α) (r : Run α) : Prop where
  empty : b.layers.isEmpty = true → b.output = x ∧ b.returned = b.part
  network : b.layers.isEmpty = false → ∀ name, ∃ e alone,
    Engine.compile ⟨name,shape,b.layers⟩ = .ok e ∧ e.propagate x b.part = .ok alone ∧
      alone.output = b.output ∧ alone.inputDerivative = b.returned ∧
      ∀ k < b.layers.nodeCount, ∃ a d,
        alone.activation? k = some a ∧ r.activation? (b.first + k) = some a ∧
        alone.derivative? k = some d ∧ r.derivative? (b.first + k) = some d

/-- Branches side by side from an offset and an id on. -/
def BranchRun.Adjacent {α : Type} (runs : List (BranchRun α)) (offset first : ℕ) : Prop :=
  ∀ k b, runs[k]? = some b → b.offset = offset + ((runs.take k).map (·.width)).sum ∧
    b.first = first + ((runs.take k).map (·.layers.nodeCount)).sum

theorem BranchRun.Adjacent.cons {α : Type} {runs : List (BranchRun α)} {b : BranchRun α}
    (h : Adjacent runs (b.offset + b.width) (b.first + b.layers.nodeCount)) :
    Adjacent (b :: runs) b.offset b.first := by
  intro k c hk
  cases k with
  | zero =>
    obtain rfl := Option.some.inj hk
    exact ⟨rfl,rfl⟩
  | succ k =>
    obtain ⟨hoffset,hfirst⟩ := h k c hk
    rw [List.take_succ_cons,List.map_cons,List.sum_cons,List.map_cons,List.sum_cons]
    exact ⟨by omega,by omega⟩

theorem Layers.length_passages (layers : Layers α) {shape out : List ℕ} {parent : String}
    {depth : ℕ} {n m : Numbering} {plan : Plan α Node}
    (h : layers.compile shape parent depth n = .ok (plan,out,m)) {x y d e : Interval α}
    {passages : List (Passage α Node)} (hpasses : plan.Passes x y d e passages) :
    passages.length = layers.nodeCount := by
  have hnotes := congrArg List.length (plan.map_note_of_passes hpasses)
  rw [List.length_map,List.length_map] at hnotes
  rw [hnotes,← (layers.compiles_declared h).length_eq,layers.length_declared]

theorem Branches.length_passages (branches : Branches α) {image : ImageShape} {parent : String}
    {depth channels : ℕ} {n m : Numbering} {plans : BranchPlans α Node}
    (h : branches.compile image parent depth n = .ok (plans,channels,m)) {x d : Interval α}
    {offset : ℕ} {total last : Option (Interval α)} {outputs : List (Interval α)}
    {passages : List (Passage α Node)}
    (hpasses : plans.Passes x d offset total outputs last passages) :
    passages.length = branches.nodeCount := by
  have hnotes := congrArg List.length (plans.map_note_of_passes hpasses)
  rw [List.length_map,List.length_map] at hnotes
  rw [hnotes,← (branches.compiles_declared h).length_eq,branches.length_declared]

theorem prefix_drop_append {β : Type} {a b l : List β} {k n : ℕ} (h : a ++ b <+: l.drop k)
    (hn : a.length = n) : a <+: l.drop k ∧ b <+: l.drop (k + n) := by
  obtain ⟨tail,htail⟩ := h
  rw [List.append_assoc] at htail
  refine ⟨⟨_,htail⟩,tail,?_⟩
  rw [← List.drop_drop,← htail,← hn,List.drop_left]

theorem getElem?_of_prefix_drop {β : Type} {a l : List β} {k i : ℕ} {v : β} (h : a <+: l.drop k)
    (hi : a[i]? = some v) : l[k + i]? = some v := by
  obtain ⟨tail,htail⟩ := h
  rw [← List.getElem?_drop,← htail,List.getElem?_append_left (List.getElem?_eq_some_iff.mp hi).1,hi]

theorem Layers.alone_of_passes (layers : Layers α) {shape out : List ℕ} {parent : String}
    {depth : ℕ} {n m : Numbering} {plan : Plan α Node}
    (h : layers.compile shape parent depth n = .ok (plan,out,m)) (hdepth : depth ≠ 0)
    {x y d e : Interval α} {rows first : ℕ} (hx : x.shape = shape) (hrows : rows ≠ 0)
    (hd : d.shape = rows :: out) {nested passages : List (Passage α Node)}
    (hpasses : plan.Passes x y d e nested) {r : Run α} (hstores : r.Stores passages)
    (hnested : nested <+: passages.drop first) (name : String) (offset width : ℕ) :
    BranchRun.Alone ⟨name,layers,first,offset,width,d,y,e⟩ shape x r := by
  refine ⟨fun hempty => ?_,fun hlayers name => ?_⟩
  · cases layers with
    | nil =>
      obtain ⟨rfl,-,-⟩ := Layers.compile_nil_eq_ok_iff.mp h
      cases hpasses
      exact ⟨rfl,rfl⟩
    | single => cases hempty
    | block => cases hempty
  · obtain ⟨engine,alone,hengine,halone,hy,he,hstored⟩ :=
      Engine.exists_alone h hdepth hlayers hx hrows hd hpasses name
    refine ⟨engine,alone,hengine,halone,hy,he,fun k hk => ?_⟩
    have hlt : k < nested.length := (layers.length_passages h hpasses).symm ▸ hk
    have hp := List.getElem?_eq_getElem hlt
    obtain ⟨hactivation,hderivative⟩ := hstored k _ hp
    obtain ⟨hactivation',hderivative'⟩ := hstores _ _ (getElem?_of_prefix_drop hnested hp)
    exact ⟨_,_,hactivation,hactivation',hderivative,hderivative'⟩

/-- The branches of a block run one by one, each on its part of the sensitivity. -/
theorem Branches.exists_runs (branches : Branches α) {image : ImageShape} {parent : String}
    {depth channels : ℕ} {n m : Numbering} {plans : BranchPlans α Node}
    (h : branches.compile image parent depth n = .ok (plans,channels,m)) (hdepth : depth ≠ 0)
    {x d : Interval α} {offset first rows limit : ℕ} {total last : Option (Interval α)}
    {outputs : List (Interval α)} {inside passages : List (Passage α Node)}
    (hpasses : plans.Passes x d offset total outputs last inside) (hx : x.shape = image.toList)
    (hd : d.shape = [rows,limit,image.height,image.width]) (hrows : rows ≠ 0) {r : Run α}
    (hstores : r.Stores passages) (hinside : inside <+: passages.drop first)
    {declared : List (Declared α)}
    (hdeclared : branches.declared parent depth <+: declared.drop first) :
    ∃ runs : List (BranchRun α), runs.map (fun b => (b.name,b.layers)) = branches.toList ∧
      runs.map (·.output) = outputs ∧ (runs.map (·.width)).sum = channels ∧
      (runs.map (·.returned)).foldlM (fun total e => some <$> addReturned total e) total =
        .ok last ∧
      BranchRun.Adjacent runs offset first ∧
      ∀ b ∈ runs, d.slice 1 b.offset (b.offset + b.width) = (.ok b.part : Except (Error α) _) ∧
        b.Alone image.toList x r ∧
        b.layers.declared (layerPath parent b.name) depth <+: declared.drop b.first := by
  cases branches with
  | nil =>
    obtain ⟨rfl,rfl,-⟩ := Branches.compile_nil_eq_ok_iff.mp h
    cases hpasses
    exact ⟨[],rfl,rfl,rfl,rfl,fun k b hk => by simp at hk,by simp⟩
  | cons name layers rest =>
    obtain ⟨steps,width,k,after,others,hlayers,hrest,rfl,rfl⟩ :=
      Branches.compile_cons_eq_ok_iff.mp h
    cases hpasses with
    | @branch _ _ _ _ y _ part e sum _ _ _ others' nested later hpart hfirst hsum hothers =>
    obtain ⟨hnested,hlater⟩ := prefix_drop_append hinside (layers.length_passages hlayers hfirst)
    obtain ⟨hhere,hthere⟩ := prefix_drop_append hdeclared (layers.length_declared _ _)
    obtain ⟨runs,hbranches,houtputs,hwidths,htotal,hadjacent,hall⟩ := rest.exists_runs hrest hdepth
      hothers hx hd hrows hstores hlater hthere
    let b : BranchRun α := ⟨name,layers,first,offset,width,part,y,e⟩
    have hshape := Tensor.shape_of_slice hpart hd
    rw [Nat.add_sub_cancel_left] at hshape
    have halone : b.Alone image.toList x r :=
      layers.alone_of_passes hlayers hdepth hx hrows hshape hfirst hstores hnested name offset width
    refine ⟨b :: runs,?_,?_,?_,?_,BranchRun.Adjacent.cons hadjacent,
      List.forall_mem_cons.mpr ⟨⟨hpart,halone,hhere⟩,hall⟩⟩
    · rw [List.map_cons,hbranches,Branches.toList]
    · rw [List.map_cons,houtputs]
    · rw [List.map_cons,List.sum_cons,hwidths]
    · rw [List.map_cons,Error.foldlM_cons_eq_ok_iff]
      exact ⟨some sum,Error.map_eq_ok_iff.mpr ⟨sum,hsum,rfl⟩,htotal⟩

/-- A block that passages go through, at its place among the layers that were declared: its input
and its sensitivity go to its branches, whose outputs are joined. -/
structure Block.At (declared : List (Declared α)) (passages : List (Passage α Node)) (i : ℕ)
    (path : String) (branches : Branches α) (level : ℕ) (p : Passage α Node)
    (inside : List (Passage α Node)) : Prop where
  here : passages[i]? = some p
  within : inside <+: passages.drop (i + 1)
  declares : branches.declared path (level + 1) <+: declared.drop (i + 1)
  splits : ∃ image plans channels n m outputs,
    branches.compile image path (level + 1) n = .ok (plans,channels,m) ∧
    p.note.inputShape = image.toList ∧ p.note.outputShape =
      [channels % Window.wordCount,image.height,image.width] ∧
    plans.Passes p.input p.sensitivity 0 none outputs (some p.returned) inside ∧
    Tensor.concat outputs 0 = (.ok p.output : Except (Error α) _)

namespace Block.At

variable {declared others : List (Declared α)} {passages later : List (Passage α Node)} {i k : ℕ}
  {path : String} {branches : Branches α} {level : ℕ} {p : Passage α Node}
  {inside : List (Passage α Node)}

theorem cons (h : At declared passages i path branches level p inside) (d : Declared α)
    (q : Passage α Node) : At (d :: declared) (q :: passages) (i + 1) path branches level p inside :=
  ⟨h.here,h.within,h.declares,h.splits⟩

theorem append_right (h : At declared passages i path branches level p inside)
    (others : List (Declared α)) (later : List (Passage α Node)) :
    At (declared ++ others) (passages ++ later) i path branches level p inside := by
  refine ⟨?_,?_,?_,h.splits⟩
  · rw [List.getElem?_append_left (List.getElem?_eq_some_iff.mp h.here).1,h.here]
  · rw [List.drop_append]
    exact h.within.trans (List.prefix_append _ _)
  · rw [List.drop_append]
    exact h.declares.trans (List.prefix_append _ _)

theorem append_left (h : At declared passages i path branches level p inside)
    (hothers : others.length = k) (hlater : later.length = k) :
    At (others ++ declared) (later ++ passages) (k + i) path branches level p inside := by
  refine ⟨?_,?_,?_,h.splits⟩
  · rw [← hlater,List.getElem?_append_right (Nat.le_add_right _ _),Nat.add_sub_cancel_left,h.here]
  · rw [Nat.add_assoc,← List.drop_drop,← hlater,List.drop_left]
    exact h.within
  · rw [Nat.add_assoc,← List.drop_drop,← hothers,List.drop_left]
    exact h.declares

end Block.At

mutual

theorem Layers.exists_block (layers : Layers α) {shape out : List ℕ} {parent : String}
    {depth : ℕ} {n m : Numbering} {plan : Plan α Node}
    (h : layers.compile shape parent depth n = .ok (plan,out,m)) {x y d e : Interval α}
    {passages : List (Passage α Node)} (hpasses : plan.Passes x y d e passages) {i : ℕ}
    {path : String} {branches : Branches α} {level : ℕ}
    (hi : (layers.declared parent depth)[i]? = some ⟨path,.block branches,level⟩) :
    ∃ p inside, Block.At (layers.declared parent depth) passages i path branches level p inside := by
  cases layers with
  | nil => cases hi
  | single name op rest =>
    obtain ⟨t,middle,after,-,hrest,rfl⟩ := Layers.compile_single_eq_ok_iff.mp h
    cases hpasses with
    | layer _ hafter _ =>
    cases i with
    | zero => cases hi
    | succ i =>
      obtain ⟨p,inside,hp⟩ := rest.exists_block hrest hafter hi
      exact ⟨p,inside,hp.cons _ _⟩
  | block name nested rest =>
    obtain ⟨image,plans,channels,k,after,himage,hbranches,hrest,rfl⟩ :=
      Layers.compile_block_eq_ok_iff.mp h
    obtain ⟨-,rfl⟩ := Branches.image_eq_ok_iff.mp himage
    cases hpasses with
    | @block _ _ _ _ _ _ _ _ _ outputs inside later hsplit hmerged hafter =>
    cases i with
    | zero =>
      cases hi
      exact ⟨_,inside,rfl,List.prefix_append _ _,List.prefix_append _ _,
        image,plans,channels,_,k,outputs,hbranches,rfl,rfl,hsplit,hmerged⟩
    | succ i =>
      have hlength := nested.length_declared (layerPath parent name) (depth + 1)
      rw [Layers.declared,List.getElem?_cons_succ] at hi
      by_cases hlt : i < nested.nodeCount
      · rw [List.getElem?_append_left (hlength.symm ▸ hlt)] at hi
        obtain ⟨p,inside,hp⟩ := nested.exists_block hbranches hsplit hi
        exact ⟨p,inside,(hp.append_right _ _).cons _ _⟩
      · push Not at hlt
        rw [List.getElem?_append_right (hlength.symm ▸ hlt),hlength] at hi
        obtain ⟨p,inside,hp⟩ := rest.exists_block hrest hafter hi
        have hp := hp.append_left hlength (nested.length_passages hbranches hsplit)
        rw [Nat.add_sub_cancel' hlt] at hp
        exact ⟨p,inside,hp.cons _ _⟩

theorem Branches.exists_block (branches : Branches α) {image : ImageShape} {parent : String}
    {depth channels : ℕ} {n m : Numbering} {plans : BranchPlans α Node}
    (h : branches.compile image parent depth n = .ok (plans,channels,m)) {x d : Interval α}
    {offset : ℕ} {total last : Option (Interval α)} {outputs : List (Interval α)}
    {passages : List (Passage α Node)}
    (hpasses : plans.Passes x d offset total outputs last passages) {i : ℕ} {path : String}
    {nested : Branches α} {level : ℕ}
    (hi : (branches.declared parent depth)[i]? = some ⟨path,.block nested,level⟩) :
    ∃ p inside, Block.At (branches.declared parent depth) passages i path nested level p inside := by
  cases branches with
  | nil => cases hi
  | cons name layers rest =>
    obtain ⟨steps,width,k,after,others,hlayers,hrest,rfl,-⟩ :=
      Branches.compile_cons_eq_ok_iff.mp h
    cases hpasses with
    | branch _ hfirst _ hothers =>
    have hlength := layers.length_declared (layerPath parent name) depth
    rw [Branches.declared] at hi
    by_cases hlt : i < layers.nodeCount
    · rw [List.getElem?_append_left (hlength.symm ▸ hlt)] at hi
      obtain ⟨p,inside,hp⟩ := layers.exists_block hlayers hfirst hi
      exact ⟨p,inside,hp.append_right _ _⟩
    · push Not at hlt
      rw [List.getElem?_append_right (hlength.symm ▸ hlt),hlength] at hi
      obtain ⟨p,inside,hp⟩ := rest.exists_block hrest hothers hi
      have hp := hp.append_left hlength (layers.length_passages hlayers hfirst)
      rw [Nat.add_sub_cancel' hlt] at hp
      exact ⟨p,inside,hp⟩

end

theorem foldlM_addReturned_some {parts : List (Interval α)} {sum : Interval α}
    {last : Option (Interval α)}
    (h : parts.foldlM (fun total e => some <$> addReturned total e) (some sum) = .ok last) :
    ∃ t, last = some t ∧ parts.foldlM Interval.add sum = .ok t := by
  induction parts generalizing sum with
  | nil =>
    obtain rfl := Error.pure_eq_ok_iff.mp h
    exact ⟨sum,rfl,rfl⟩
  | cons part parts ih =>
    obtain ⟨u,hu,h⟩ := Error.foldlM_cons_eq_ok_iff.mp h
    obtain ⟨next,hnext,rfl⟩ := Error.map_eq_ok_iff.mp hu
    obtain ⟨t,rfl,ht⟩ := ih h
    exact ⟨t,rfl,Error.foldlM_cons_eq_ok_iff.mpr ⟨next,hnext,ht⟩⟩

theorem exists_sum_of_foldlM_addReturned {parts : List (Interval α)} {t : Interval α}
    (h : parts.foldlM (fun total e => some <$> addReturned total e) none = .ok (some t)) :
    ∃ first rest, parts = first :: rest ∧ rest.foldlM Interval.add first = .ok t := by
  cases parts with
  | nil => cases h
  | cons first rest =>
    obtain ⟨u,hu,h⟩ := Error.foldlM_cons_eq_ok_iff.mp h
    obtain ⟨next,hnext,rfl⟩ := Error.map_eq_ok_iff.mp hu
    obtain rfl := Except.ok.inj hnext
    obtain ⟨t',ht',hsum⟩ := foldlM_addReturned_some h
    obtain rfl := Option.some.inj ht'
    exact ⟨first,rest,rfl,hsum⟩

/-- The run of a block as the runs of its branches. Their layers are those declared behind the
block; their channels are the block's, one part behind the other; each part runs alone, on the
input of the block and on its channels of the sensitivity; and the block joins what comes out and
adds up what is passed back, both in the order of declaration. -/
structure Block.SplitsInto (declared : List (Declared α)) (r : Run α) (i : ℕ) (path : String)
    (branches : Branches α) (level : ℕ) (p : Passage α Node) (runs : List (BranchRun α)) :
    Prop where
  branches : runs.map (fun b => (b.name,b.layers)) = branches.toList
  adjacent : BranchRun.Adjacent runs 0 (i + 1)
  declares : ∀ b ∈ runs,
    b.layers.declared (layerPath path b.name) (level + 1) <+: declared.drop b.first
  channels : ∃ rows height width,
    p.note.outputShape = [(runs.map (·.width)).sum,height,width] ∧
    p.sensitivity.shape = [rows,(runs.map (·.width)).sum,height,width]
  cut : ∀ b ∈ runs,
    p.sensitivity.slice 1 b.offset (b.offset + b.width) = (.ok b.part : Except (Error α) _)
  alone : ∀ b ∈ runs, b.Alone p.note.inputShape p.input r
  merged : Tensor.concat (runs.map (·.output)) 0 = (.ok p.output : Except (Error α) _)
  returned : ∃ first rest, runs.map (·.returned) = first :: rest ∧
    rest.foldlM Interval.add first = .ok p.returned

theorem Block.At.exists_splitsInto {declared : List (Declared α)} {passages : List (Passage α Node)}
    {i : ℕ} {path : String} {branches : Branches α} {level : ℕ} {p : Passage α Node}
    {inside : List (Passage α Node)}
    (h : Block.At declared passages i path branches level p inside) {rows : ℕ} (hrows : rows ≠ 0)
    (hp : p.Shaped rows) {r : Run α} (hstores : r.Stores passages) :
    ∃ runs, Block.SplitsInto declared r i path branches level p runs := by
  obtain ⟨image,plans,channels,n,m,outputs,hcompile,hinput,houtput,hpasses,hmerged⟩ := h.splits
  have hword := ((branches.fits_of_compile hcompile).shape_merged hpasses
    (hp.input.trans hinput) hmerged).2
  rw [hword] at houtput
  have hd : p.sensitivity.shape = [rows,channels,image.height,image.width] := by
    rw [hp.sensitivity,houtput]
  obtain ⟨runs,hbranches,houtputs,hwidths,htotal,hadjacent,hall⟩ := branches.exists_runs hcompile
    (Nat.succ_ne_zero level) hpasses (hp.input.trans hinput) hd hrows hstores h.within h.declares
  refine ⟨runs,hbranches,hadjacent,fun b hb => (hall b hb).2.2,⟨rows,image.height,image.width,?_,?_⟩,
    fun b hb => (hall b hb).1,fun b hb => ?_,?_,exists_sum_of_foldlM_addReturned htotal⟩
  · rw [houtput,hwidths]
  · rw [hd,hwidths]
  · rw [hinput]
    exact (hall b hb).2.1
  · rw [houtputs]
    exact hmerged

namespace Engine

/-- A block runs each of its branches alone. In every finished run of a compiled network, whatever
its arithmetic, each block that the network declares, at any depth, gives what its branches give
as networks of their own. -/
theorem runs_branches_alone {net : Network α} {e : Engine α} {x seed : Interval α} {r : Run α}
    (he : compile net = .ok e) (hr : e.propagate x seed = .ok r) :
    ∃ passages, e.plan.Passes x r.output seed r.inputDerivative passages ∧
      passages.map Passage.note = e.nodes ∧ ∀ i path branches level,
        net.declared[i]? = some ⟨path,.block branches,level⟩ → ∃ p runs, passages[i]? = some p ∧
          r.activation? i = some p.input ∧ r.derivative? i = some p.sensitivity ∧
          Block.SplitsInto net.declared r i path branches level p runs := by
  obtain ⟨rows,passages,hrows,-,hpasses,hnotes,hstores,hshaped⟩ := shaped_of_propagate he hr
  refine ⟨passages,hpasses,hnotes,fun i path branches level hi => ?_⟩
  obtain ⟨-,-,-,m,hplan⟩ := compile_eq_ok_iff.mp he
  obtain ⟨p,inside,hat⟩ := net.layers.exists_block hplan hpasses hi
  obtain ⟨runs,hruns⟩ :=
    hat.exists_splitsInto hrows (hshaped p (List.mem_of_getElem? hat.here)) hstores
  obtain ⟨hactivation,hderivative⟩ := hstores i p hat.here
  exact ⟨p,runs,hat.here,hactivation,hderivative,hruns⟩

/-- A block inside a block, beside a branch without layers. -/
theorem runs_branches_alone_nested : ∃ (net : Network Single) (e : Engine Single) (r : Run Single),
    compile net = .ok e ∧
      e.propagate (Tensor.fill [1,1,1] ⟨0,1⟩) (Tensor.fill [1,2,1,1] ⟨0,1⟩) = .ok r ∧
      ∃ passages, e.plan.Passes (Tensor.fill [1,1,1] ⟨0,1⟩) r.output (Tensor.fill [1,2,1,1] ⟨0,1⟩)
        r.inputDerivative passages ∧ passages.length = 3 ∧ ∃ p runs, passages[1]? = some p ∧
          Block.SplitsInto net.declared r 1 "b/r/c"
            (.cons "m" (.single "a" .relu .nil) .nil) 1 p runs := by
  let inner : Branches Single := .cons "m" (.single "a" .relu .nil) .nil
  let net : Network Single := ⟨"n",[1,1,1],
    .block "b" (.cons "l" .nil (.cons "r" (.block "c" inner .nil) .nil)) .nil⟩
  obtain ⟨e,r,he,hr⟩ : ∃ e r, compile net = .ok e ∧
      e.propagate (Tensor.fill [1,1,1] ⟨0,1⟩) (Tensor.fill [1,2,1,1] ⟨0,1⟩) = .ok r :=
    exists_run_of_isOk (by decide +kernel)
  have hblock : net.declared[1]? = some ⟨"b/r/c",.block inner,1⟩ := rfl
  obtain ⟨passages,hpasses,hnotes,hblocks⟩ := runs_branches_alone he hr
  obtain ⟨p,runs,hp,-,-,hruns⟩ := hblocks 1 "b/r/c" inner 1 hblock
  have hlength : passages.length = 3 := by
    rw [← List.length_map,hnotes]
    exact nodeCount_eq he
  exact ⟨net,e,r,he,hr,passages,hpasses,hlength,p,runs,hp,hruns⟩

end Engine
end Sensitivity
