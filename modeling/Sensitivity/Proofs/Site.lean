import Sensitivity.Proofs.Listing

/-! The layers of a network in their places. The shapes between the layers follow from the input
shape alone, without any numbering or path, and a network compiles exactly where they exist. Every
layer of the network is listed with the shape that it is given. -/
namespace Sensitivity

variable {α : Type} [Scalar α]

/-- The output shape of an operation that fits; a softmax only fits where it closes the network. -/
def Operation.shape? (op : Operation α) (closes : Bool) (shape : List ℕ) : Option (List ℕ) :=
  match op, closes with
  | .softmax, false => none
  | op, _ => (Transform.ofOperation op shape).toOption.map (·.2)

mutual

/-- The shape that layers give, if all of them fit; `top` says that no block is around them. -/
def Layers.shape? (top : Bool) (shape : List ℕ) : Layers α → Option (List ℕ)
  | .nil => some shape
  | .single _ op rest => do rest.shape? top (← op.shape? (top && rest.isEmpty) shape)
  | .block _ branches rest => do
    let image ← (branches.image shape).toOption
    let channels ← branches.channels? image
    rest.shape? top [channels % Window.wordCount,image.height,image.width]

/-- The channels that branches give together, if all of them fit and keep the extents. -/
def Branches.channels? (image : ImageShape) : Branches α → Option ℕ
  | .nil => some 0
  | .cons _ layers rest => do
    let out ← layers.shape? false image.toList
    let width ← (branchWidth image out : Except (Error α) ℕ).toOption
    let others ← rest.channels? image
    return width + others

end

/-- The output shape of a layer that fits, with all that it holds. -/
def LayerKind.shape? (kind : LayerKind α) (closes : Bool) (shape : List ℕ) : Option (List ℕ) :=
  match kind with
  | .single op => op.shape? closes shape
  | .block branches => do
    let image ← (branches.image shape).toOption
    let channels ← branches.channels? image
    return [channels % Window.wordCount,image.height,image.width]

/-- A layer in its place: whether it closes the network, and the shape that the layers before it in
its sequence give, if all of these fit. -/
structure Site (α : Type) extends Declared α where
  closes : Bool
  input? : Option (List ℕ)

mutual

/-- All layers in their places, a block before what it holds. Each branch starts from the input of
its block. -/
def Layers.sites (parent : String) (depth : ℕ) (input? : Option (List ℕ)) :
    Layers α → List (Site α)
  | .nil => []
  | .single name op rest =>
    let s : Site α := ⟨⟨layerPath parent name,.single op,depth⟩,depth == 0 && rest.isEmpty,input?⟩
    s :: rest.sites parent depth (input?.bind (s.kind.shape? s.closes))
  | .block name branches rest =>
    let s : Site α :=
      ⟨⟨layerPath parent name,.block branches,depth⟩,depth == 0 && rest.isEmpty,input?⟩
    s :: (branches.sites (layerPath parent name) (depth + 1) input? ++
      rest.sites parent depth (input?.bind (s.kind.shape? s.closes)))

def Branches.sites (parent : String) (depth : ℕ) (input? : Option (List ℕ)) :
    Branches α → List (Site α)
  | .nil => []
  | .cons name layers rest =>
    layers.sites (layerPath parent name) depth input? ++ rest.sites parent depth input?

end

def Network.sites (net : Network α) : List (Site α) := net.layers.sites "" 0 (some net.inputShape)

mutual

theorem Layers.map_sites (layers : Layers α) (parent : String) (depth : ℕ)
    (input? : Option (List ℕ)) :
    (layers.sites parent depth input?).map Site.toDeclared = layers.declared parent depth := by
  cases layers with
  | nil => rfl
  | single name op rest =>
    rw [Layers.sites,Layers.declared,List.map_cons,rest.map_sites]
  | block name branches rest =>
    rw [Layers.sites,Layers.declared,List.map_cons,List.map_append,branches.map_sites,
      rest.map_sites]

theorem Branches.map_sites (branches : Branches α) (parent : String) (depth : ℕ)
    (input? : Option (List ℕ)) :
    (branches.sites parent depth input?).map Site.toDeclared = branches.declared parent depth := by
  cases branches with
  | nil => rfl
  | cons name layers rest =>
    rw [Branches.sites,Branches.declared,List.map_append,layers.map_sites,rest.map_sites]

end

theorem Layers.length_sites (layers : Layers α) (parent : String) (depth : ℕ)
    (input? : Option (List ℕ)) :
    (layers.sites parent depth input?).length = layers.nodeCount := by
  rw [← layers.length_declared parent depth,← layers.map_sites parent depth input?,List.length_map]

theorem Branches.length_sites (branches : Branches α) (parent : String) (depth : ℕ)
    (input? : Option (List ℕ)) :
    (branches.sites parent depth input?).length = branches.nodeCount := by
  rw [← branches.length_declared parent depth,← branches.map_sites parent depth input?,
    List.length_map]

theorem toOption_eq_some_iff {ε β : Type} {x : Except ε β} {b : β} :
    x.toOption = some b ↔ x = .ok b := by
  cases x <;> simp [Except.toOption]

theorem Operation.shape?_eq (op : Operation α) (path : String) (closes : Bool) (shape : List ℕ) :
    op.shape? closes shape = (op.fit path shape closes).toOption.map (·.2) := by
  cases op <;> cases closes <;> rfl

theorem Operation.shape?_of_fit {op : Operation α} {path : String} {closes : Bool}
    {shape out : List ℕ} {t : Transform α} (h : op.fit path shape closes = .ok (t,out)) :
    op.shape? closes shape = some out := by
  rw [op.shape?_eq path,h]
  rfl

theorem Operation.exists_fit {op : Operation α} {closes : Bool} {shape out : List ℕ}
    (h : op.shape? closes shape = some out) (path : String) :
    ∃ t, op.fit path shape closes = .ok (t,out) := by
  rw [op.shape?_eq path,Option.map_eq_some_iff] at h
  obtain ⟨⟨t,_⟩,hfit,rfl⟩ := h
  exact ⟨t,toOption_eq_some_iff.mp hfit⟩

theorem LayerKind.shape?_block_eq_some_iff {branches : Branches α} {closes : Bool}
    {shape out : List ℕ} : (LayerKind.block branches).shape? closes shape = some out ↔
      ∃ image channels, branches.image shape = .ok image ∧
        branches.channels? image = some channels ∧
        out = [channels % Window.wordCount,image.height,image.width] := by
  simp [LayerKind.shape?,Option.bind_eq_some_iff,toOption_eq_some_iff,eq_comm (a := out)]

theorem Layers.shape?_single_eq_some_iff {name : String} {op : Operation α} {rest : Layers α}
    {top : Bool} {shape out : List ℕ} :
    (Layers.single name op rest).shape? top shape = some out ↔
      ∃ middle, (LayerKind.single op).shape? (top && rest.isEmpty) shape = some middle ∧
        rest.shape? top middle = some out := by
  simp [Layers.shape?,LayerKind.shape?,Option.bind_eq_some_iff]

theorem Layers.shape?_block_eq_some_iff {name : String} {branches : Branches α} {rest : Layers α}
    {top : Bool} {shape out : List ℕ} (closes : Bool) :
    (Layers.block name branches rest).shape? top shape = some out ↔
      ∃ middle, (LayerKind.block branches).shape? closes shape = some middle ∧
        rest.shape? top middle = some out := by
  simp [Layers.shape?,LayerKind.shape?,Option.bind_eq_some_iff,and_assoc]

theorem Branches.channels?_cons_eq_some_iff {name : String} {layers : Layers α} {rest : Branches α}
    {image : ImageShape} {channels : ℕ} :
    (Branches.cons name layers rest).channels? image = some channels ↔
      ∃ width others, layers.shape? false image.toList = some [width,image.height,image.width] ∧
        rest.channels? image = some others ∧ channels = width + others := by
  simp only [Branches.channels?,Option.bind_eq_bind,Option.bind_eq_some_iff,toOption_eq_some_iff,
    branchWidth_eq_ok_iff,Option.pure_def,Option.some_inj]
  constructor
  · rintro ⟨_,hlayers,width,rfl,others,hrest,rfl⟩
    exact ⟨width,others,hlayers,hrest,rfl⟩
  · rintro ⟨width,others,hlayers,hrest,rfl⟩
    exact ⟨_,hlayers,width,rfl,others,hrest,rfl⟩

mutual

theorem Layers.shape?_of_compile (layers : Layers α) {shape out : List ℕ} {parent : String}
    {depth : ℕ} {n m : Numbering} {plan : Plan α Node}
    (h : layers.compile shape parent depth n = .ok (plan,out,m)) :
    layers.shape? (depth == 0) shape = some out := by
  cases layers with
  | nil =>
    obtain ⟨-,rfl,-⟩ := Layers.compile_nil_eq_ok_iff.mp h
    rfl
  | single name op rest =>
    obtain ⟨t,middle,after,hfit,hrest,-⟩ := Layers.compile_single_eq_ok_iff.mp h
    exact Layers.shape?_single_eq_some_iff.mpr
      ⟨middle,Operation.shape?_of_fit hfit,rest.shape?_of_compile hrest⟩
  | block name branches rest =>
    obtain ⟨image,plans,channels,k,after,himage,hbranches,hrest,-⟩ :=
      Layers.compile_block_eq_ok_iff.mp h
    refine (Layers.shape?_block_eq_some_iff false).mpr ⟨_,?_,rest.shape?_of_compile hrest⟩
    exact LayerKind.shape?_block_eq_some_iff.mpr
      ⟨image,channels,himage,branches.channels?_of_compile hbranches,rfl⟩

theorem Branches.channels?_of_compile (branches : Branches α) {image : ImageShape}
    {parent : String} {depth channels : ℕ} {n m : Numbering} {plans : BranchPlans α Node}
    (h : branches.compile image parent (depth + 1) n = .ok (plans,channels,m)) :
    branches.channels? image = some channels := by
  cases branches with
  | nil =>
    obtain ⟨-,rfl,-⟩ := Branches.compile_nil_eq_ok_iff.mp h
    rfl
  | cons name layers rest =>
    obtain ⟨steps,width,k,after,others,hlayers,hrest,-,rfl⟩ :=
      Branches.compile_cons_eq_ok_iff.mp h
    exact Branches.channels?_cons_eq_some_iff.mpr ⟨width,others,layers.shape?_of_compile hlayers,
      rest.channels?_of_compile hrest,rfl⟩

end

mutual

theorem Layers.exists_compile (layers : Layers α) {shape out : List ℕ} {depth : ℕ}
    (h : layers.shape? (depth == 0) shape = some out) (parent : String) (n : Numbering) :
    ∃ plan m, layers.compile shape parent depth n = .ok (plan,out,m) := by
  cases layers with
  | nil =>
    obtain rfl : shape = out := Option.some.inj h
    exact ⟨.done,n,rfl⟩
  | single name op rest =>
    obtain ⟨middle,hop,hrest⟩ := Layers.shape?_single_eq_some_iff.mp h
    obtain ⟨t,hfit⟩ := Operation.exists_fit hop (layerPath parent name)
    obtain ⟨after,m,hcompile⟩ := rest.exists_compile hrest parent (n.next op.isWeighted)
    exact ⟨_,m,Layers.compile_single_eq_ok_iff.mpr ⟨t,middle,after,hfit,hcompile,rfl⟩⟩
  | block name branches rest =>
    obtain ⟨middle,hblock,hrest⟩ := (Layers.shape?_block_eq_some_iff false).mp h
    obtain ⟨image,channels,himage,hchannels,rfl⟩ := LayerKind.shape?_block_eq_some_iff.mp hblock
    obtain ⟨plans,k,hbranches⟩ :=
      branches.exists_compile hchannels (layerPath parent name) depth (n.next false)
    obtain ⟨after,m,hcompile⟩ := rest.exists_compile hrest parent k
    exact ⟨_,m,Layers.compile_block_eq_ok_iff.mpr
      ⟨image,plans,channels,k,after,himage,hbranches,hcompile,rfl⟩⟩

theorem Branches.exists_compile (branches : Branches α) {image : ImageShape} {channels : ℕ}
    (h : branches.channels? image = some channels) (parent : String) (depth : ℕ) (n : Numbering) :
    ∃ plans m, branches.compile image parent (depth + 1) n = .ok (plans,channels,m) := by
  cases branches with
  | nil =>
    obtain rfl : 0 = channels := Option.some.inj h
    exact ⟨.done,n,rfl⟩
  | cons name layers rest =>
    obtain ⟨width,others,hlayers,hrest,rfl⟩ := Branches.channels?_cons_eq_some_iff.mp h
    have hlayers : layers.shape? (depth + 1 == 0) image.toList =
        some [width,image.height,image.width] := hlayers
    obtain ⟨steps,k,hsteps⟩ := layers.exists_compile hlayers (layerPath parent name) n
    obtain ⟨after,m,hcompile⟩ := rest.exists_compile hrest parent depth k
    exact ⟨_,m,Branches.compile_cons_eq_ok_iff.mpr
      ⟨steps,width,k,after,others,hsteps,hcompile,rfl,rfl⟩⟩

end

theorem Engine.exists_compile_iff {net : Network α} {out : List ℕ} :
    (∃ e, compile net = .ok e ∧ e.outputShape = out) ↔
      net.layers.isEmpty = false ∧ net.layers.shape? true net.inputShape = some out := by
  constructor
  · rintro ⟨e,he,rfl⟩
    obtain ⟨hlayers,-,-,m,hplan⟩ := compile_eq_ok_iff.mp he
    exact ⟨hlayers,net.layers.shape?_of_compile hplan⟩
  · rintro ⟨hlayers,hshape⟩
    have hshape : net.layers.shape? (0 == 0) net.inputShape = some out := hshape
    obtain ⟨plan,m,hplan⟩ := net.layers.exists_compile hshape "" ⟨0,0⟩
    exact ⟨⟨net.name,net.inputShape,out,plan⟩,compile_eq_ok_iff.mpr ⟨hlayers,rfl,rfl,m,hplan⟩,rfl⟩

/-- The layer fits the shape that it is given, with all that it holds. -/
def Site.Passes (s : Site α) : Prop :=
  ∃ input out, s.input? = some input ∧ s.kind.shape? s.closes input = some out

mutual

theorem Layers.passes_of_shape? (layers : Layers α) {shape out : List ℕ} {parent : String}
    {depth : ℕ} (h : layers.shape? (depth == 0) shape = some out) :
    ∀ s ∈ layers.sites parent depth (some shape), s.Passes := by
  cases layers with
  | nil => exact fun s hs => absurd hs List.not_mem_nil
  | single name op rest =>
    obtain ⟨middle,hop,hrest⟩ := Layers.shape?_single_eq_some_iff.mp h
    rw [Layers.sites,List.forall_mem_cons]
    refine ⟨⟨shape,middle,rfl,hop⟩,?_⟩
    rw [Option.bind_some,hop]
    exact rest.passes_of_shape? hrest
  | block name branches rest =>
    obtain ⟨middle,hblock,hrest⟩ :=
      (Layers.shape?_block_eq_some_iff (depth == 0 && rest.isEmpty)).mp h
    obtain ⟨image,channels,himage,hbranches,rfl⟩ := LayerKind.shape?_block_eq_some_iff.mp hblock
    obtain ⟨-,rfl⟩ := Branches.image_eq_ok_iff.mp himage
    rw [Layers.sites,List.forall_mem_cons,List.forall_mem_append]
    refine ⟨⟨_,_,rfl,hblock⟩,branches.passes_of_channels? hbranches,?_⟩
    rw [Option.bind_some,hblock]
    exact rest.passes_of_shape? hrest

theorem Branches.passes_of_channels? (branches : Branches α) {image : ImageShape}
    {parent : String} {depth channels : ℕ} (h : branches.channels? image = some channels) :
    ∀ s ∈ branches.sites parent (depth + 1) (some image.toList), s.Passes := by
  cases branches with
  | nil => exact fun s hs => absurd hs List.not_mem_nil
  | cons name layers rest =>
    obtain ⟨width,others,hlayers,hrest,rfl⟩ := Branches.channels?_cons_eq_some_iff.mp h
    rw [Branches.sites,List.forall_mem_append]
    exact ⟨layers.passes_of_shape? hlayers,rest.passes_of_channels? hrest⟩

end

end Sensitivity
