import Sensitivity.Proofs.Site

/-! Where a network does not compile. The error names one layer, by its place in the order of
declaration and by its path, and it is the own check of this layer that fails, on the shape that the
layers before it give. All layers that were compiled before it fit. -/
namespace Sensitivity

variable {α : Type}

open Error (Plain plain_ok plain_error plain_ite atLayer_of_plain)

theorem ofShape_eq_error {user : String} {shape : List ℕ} {source : Error α}
    (h : (ImageShape.ofShape user shape : Except (Error α) ImageShape) = .error source) :
    shape.length ≠ 3 ∧ source = .badConfig (.imageShape user shape) := by
  unfold ImageShape.ofShape at h
  split at h
  · cases h
  next hshape =>
    refine ⟨fun hlength => ?_,(Except.error.inj h).symm⟩
    obtain ⟨c,y,z,rfl⟩ := List.length_eq_three.mp hlength
    exact hshape c y z rfl

theorem branchWidth_eq_error {image : ImageShape} {out : List ℕ} {source : Error α}
    (h : (branchWidth image out : Except (Error α) ℕ) = .error source) :
    out.length ≠ 3 ∧ source = .badConfig (.imageShape "inception branch output" out) ∨
      ∃ width height length, out = [width,height,length] ∧
        ¬ (height = image.height ∧ length = image.width) ∧
        source = .shapeMismatch [width,image.height,image.width] out := by
  rcases Error.bind_eq_error_iff.mp h with h | ⟨found,hfound,h⟩
  · exact .inl (ofShape_eq_error h)
  · obtain rfl := ImageShape.ofShape_eq_ok_iff.mp hfound
    split at h
    · cases h
    next hextents =>
      exact .inr ⟨found.channels,found.height,found.width,rfl,hextents,(Except.error.inj h).symm⟩

theorem plain_ofShape (user : String) (shape : List ℕ) :
    Plain (ImageShape.ofShape user shape : Except (Error α) ImageShape) := by
  intro e h
  rw [(ofShape_eq_error h).2]
  exact id

theorem plain_count (extent window stride padding : ℕ) :
    Plain (Window.count extent window stride padding : Except (Error α) ℕ) :=
  plain_ite (plain_error id) (plain_ok _)

/-- The number of layers that a layer is with what it holds. -/
def LayerKind.size : LayerKind α → ℕ
  | .single _ => 1
  | .block branches => 1 + branches.nodeCount

theorem LayerKind.size_pos (kind : LayerKind α) : 0 < kind.size := by
  cases kind with
  | single op => exact Nat.one_pos
  | block branches => exact Nat.lt_of_lt_of_le Nat.one_pos (Nat.le_add_right 1 _)

variable [Scalar α]

/-- Branches over one image of which one fits, but has an output that the others cannot be joined
with, and all before it can be: the number of layers in the branches up to this one, and the
error. -/
inductive Branches.Rejects (image : ImageShape) : Branches α → ℕ → Error α → Prop
  | rank {name : String} {layers : Layers α} {rest : Branches α} {out : List ℕ} :
    layers.shape? false image.toList = some out → out.length ≠ 3 →
    Rejects image (.cons name layers rest) layers.nodeCount
      (.badConfig (.imageShape "inception branch output" out))
  | extents {name : String} {layers : Layers α} {rest : Branches α} {width height length : ℕ} :
    layers.shape? false image.toList = some [width,height,length] →
    ¬ (height = image.height ∧ length = image.width) →
    Rejects image (.cons name layers rest) layers.nodeCount
      (.shapeMismatch [width,image.height,image.width] [width,height,length])
  | next {name : String} {layers : Layers α} {rest : Branches α} {width inside : ℕ}
    {source : Error α} :
    layers.shape? false image.toList = some [width,image.height,image.width] →
    Rejects image rest inside source →
    Rejects image (.cons name layers rest) (layers.nodeCount + inside) source

/-- The own check of a layer fails on a shape: the number of layers in it that were compiled
before, and the error. -/
inductive Site.Rejects (s : Site α) (shape : List ℕ) : ℕ → Error α → Prop
  | unfit {op : Operation α} {source : Error α} : s.kind = .single op →
    (op = .softmax → s.closes = true) → Transform.ofOperation op shape = .error source →
    Rejects s shape 0 source
  | softmax : s.kind = .single .softmax → s.closes = false →
    Rejects s shape 0 (.unsupported (.innerSoftmax s.path))
  | noBranches : s.kind = .block .nil → Rejects s shape 0 (.badConfig .noBranches)
  | image {branches : Branches α} : s.kind = .block branches → branches ≠ .nil →
    shape.length ≠ 3 → Rejects s shape 0 (.badConfig (.imageShape "inception" shape))
  | branch {branches : Branches α} {image : ImageShape} {inside : ℕ} {source : Error α} :
    s.kind = .block branches → image.toList = shape → branches.Rejects image inside source →
    Rejects s shape inside source

/-- A layer of a listing that does not fit, while all that were compiled before it do. The layers
before it are those that end before it does, and those in it that its check came after. -/
structure Fault (sites : List (Site α)) (k : ℕ) (s : Site α) (shape : List ℕ) (inside : ℕ)
    (source : Error α) : Prop where
  site : sites[k]? = some s
  input : s.input? = some shape
  rejects : s.Rejects shape inside source
  room : k + 1 + inside ≤ sites.length
  passes : ∀ j p, sites[j]? = some p →
    j + p.kind.size ≤ k ∨ k < j ∧ j + p.kind.size ≤ k + 1 + inside → p.Passes

theorem plain_ofOperation (op : Operation α) (shape : List ℕ) :
    Plain (Transform.ofOperation op shape) := by
  cases op with
  | dense layer =>
    exact (plain_ite (plain_ok _) (plain_error id)).bind fun _ => plain_ok _
  | convolution layer =>
    have hcheck : Plain layer.check := plain_ite (plain_error id)
      (plain_ite (plain_error id) (plain_ite (plain_error id) (plain_ok _)))
    have hbuild : Plain (ConvolutionTransform.build layer shape) :=
      hcheck.bind fun _ => (plain_ofShape _ _).bind fun _ => plain_ite (plain_error id)
        ((plain_count _ _ _ _).bind fun _ => (plain_count _ _ _ _).bind fun _ => plain_ok _)
    exact hbuild.bind fun _ => plain_ok _
  | pooling layer =>
    have hcheck : Plain (layer.check : Except (Error α) Pooling) :=
      plain_ite (plain_error id) (plain_ite (plain_error id) (plain_ok _))
    have hbuild : Plain (PoolingTransform.build layer shape : Except (Error α) _) :=
      hcheck.bind fun _ => (plain_ofShape _ _).bind fun _ =>
        (plain_count _ _ _ _).bind fun _ => (plain_count _ _ _ _).bind fun _ => plain_ok _
    exact hbuild.bind fun _ => plain_ok _
  | responseNorm layer =>
    have hcheck : Plain layer.check :=
      plain_ite (plain_error id) (plain_ite (plain_error id) (plain_ok _))
    have hbuild : Plain (ResponseNormTransform.build layer shape) :=
      hcheck.bind fun _ => (plain_ofShape _ _).bind fun _ => plain_ok _
    exact hbuild.bind fun _ => plain_ok _
  | relu => exact plain_ok _
  | softmax => exact plain_ite (plain_error id) (plain_ok _)
  | dropout rate =>
    have hcheck : Plain (Dropout.check rate) := plain_ite (plain_ok _) (plain_error id)
    exact hcheck.bind fun _ => plain_ok _

theorem Branches.Rejects.plain {branches : Branches α} {image : ImageShape} {inside : ℕ}
    {source : Error α} (h : branches.Rejects image inside source) : ¬ source.IsInLayer := by
  induction h with
  | rank => exact id
  | extents => exact id
  | next _ _ ih => exact ih

theorem Site.Rejects.plain {s : Site α} {shape : List ℕ} {inside : ℕ} {source : Error α}
    (h : s.Rejects shape inside source) : ¬ source.IsInLayer := by
  cases h with
  | unfit _ _ hbuild => exact plain_ofOperation _ _ _ hbuild
  | softmax => exact id
  | noBranches => exact id
  | image => exact id
  | branch _ _ hbranch => exact hbranch.plain

theorem Branches.passes_first {name parent : String} {layers : Layers α} {rest : Branches α}
    {image : ImageShape} {out : List ℕ} {depth j : ℕ} {p : Site α}
    (h : layers.shape? false image.toList = some out) (hj : j < layers.nodeCount)
    (hp : ((Branches.cons name layers rest).sites parent (depth + 1) (some image.toList))[j]? =
      some p) : p.Passes := by
  rw [Branches.sites,List.getElem?_append_left (by rwa [Layers.length_sites])] at hp
  have hpasses : ∀ s ∈ layers.sites (layerPath parent name) (depth + 1) (some image.toList),
      s.Passes := layers.passes_of_shape? h
  exact hpasses p (List.mem_of_getElem? hp)

theorem Branches.Rejects.passes {branches : Branches α} {image : ImageShape} {inside : ℕ}
    {source : Error α} (h : branches.Rejects image inside source) (parent : String) (depth : ℕ) :
    inside ≤ branches.nodeCount ∧ ∀ j p, j < inside →
      (branches.sites parent (depth + 1) (some image.toList))[j]? = some p → p.Passes := by
  induction h with
  | rank hlayers =>
    exact ⟨Nat.le_add_right _ _,fun j p hj hp => Branches.passes_first hlayers hj hp⟩
  | extents hlayers =>
    exact ⟨Nat.le_add_right _ _,fun j p hj hp => Branches.passes_first hlayers hj hp⟩
  | @next name layers rest width inside source hlayers _ ih =>
    refine ⟨Nat.add_le_add_left ih.1 _,fun j p hj hp => ?_⟩
    by_cases hfirst : j < layers.nodeCount
    · exact Branches.passes_first hlayers hfirst hp
    · rw [Branches.sites,List.getElem?_append_right (by rw [Layers.length_sites]; omega),
        Layers.length_sites] at hp
      exact ih.2 _ p (by omega) hp

namespace Fault

variable {xs ys : List (Site α)} {k inside : ℕ} {s b : Site α} {shape : List ℕ} {source : Error α}

theorem append_left (h : Fault ys k s shape inside source) (hxs : ∀ p ∈ xs, p.Passes) :
    Fault (xs ++ ys) (xs.length + k) s shape inside source := by
  refine ⟨?_,h.input,h.rejects,?_,fun j p hp hbefore => ?_⟩
  · rw [List.getElem?_append_right (Nat.le_add_right _ _),Nat.add_sub_cancel_left]
    exact h.site
  · have hroom := h.room
    rw [List.length_append]
    omega
  · by_cases hj : j < xs.length
    · rw [List.getElem?_append_left hj] at hp
      exact hxs p (List.mem_of_getElem? hp)
    · rw [List.getElem?_append_right (not_lt.mp hj)] at hp
      exact h.passes _ p hp (by omega)

theorem append_right (h : Fault xs k s shape inside source) :
    Fault (xs ++ ys) k s shape inside source := by
  have hroom := h.room
  refine ⟨?_,h.input,h.rejects,?_,fun j p hp hbefore => ?_⟩
  · rw [List.getElem?_append_left (by omega)]
    exact h.site
  · rw [List.length_append]
    omega
  · have hsize := p.kind.size_pos
    rw [List.getElem?_append_left (by omega)] at hp
    exact h.passes j p hp hbefore

/-- A block around a fault has yet to be compiled itself. -/
theorem inside_block (h : Fault xs k s shape inside source) (hb : b.kind.size = 1 + xs.length) :
    Fault (b :: xs) (k + 1) s shape inside source := by
  have hroom := h.room
  refine ⟨h.site,h.input,h.rejects,?_,fun j p hp hbefore => ?_⟩
  · rw [List.length_cons]
    omega
  · cases j with
    | zero =>
      obtain rfl : b = p := Option.some.inj hp
      omega
    | succ j => exact h.passes j p hp (by omega)

theorem head (hinput : s.input? = some shape) (hrejects : s.Rejects shape inside source)
    (hroom : inside ≤ xs.length) (hpasses : ∀ j p, j < inside → xs[j]? = some p → p.Passes) :
    Fault (s :: xs) 0 s shape inside source := by
  refine ⟨rfl,hinput,hrejects,?_,fun j p hp hbefore => ?_⟩
  · rw [List.length_cons]
    omega
  · have hsize := p.kind.size_pos
    cases j with
    | zero => omega
    | succ j => exact hpasses j p (by omega) hp

end Fault

/-- An error that names the layer with the fault among sites that are numbered from `start` on. -/
def Error.Names (e : Error α) (start : ℕ) (xs : List (Site α)) : Prop :=
  ∃ k s shape inside source, e = .inLayer (start + k) s.path source ∧
    Fault xs k s shape inside source

namespace Error.Names

variable {xs ys : List (Site α)} {start inside : ℕ} {s b : Site α} {shape : List ℕ}
  {e source : Error α}

theorem head (hinput : s.input? = some shape) (hrejects : s.Rejects shape inside source)
    (hroom : inside ≤ xs.length) (hpasses : ∀ j p, j < inside → xs[j]? = some p → p.Passes) :
    (source.atLayer start s.path).Names start (s :: xs) :=
  ⟨0,s,shape,inside,source,atLayer_of_plain hrejects.plain start s.path,
    .head hinput hrejects hroom hpasses⟩

theorem head_zero (hinput : s.input? = some shape) (hrejects : s.Rejects shape 0 source) :
    (source.atLayer start s.path).Names start (s :: xs) :=
  head hinput hrejects (Nat.zero_le _) fun j _ hj => absurd hj (Nat.not_lt_zero j)

theorem append_left (h : e.Names (start + xs.length) ys) (hxs : ∀ p ∈ xs, p.Passes) :
    e.Names start (xs ++ ys) := by
  obtain ⟨k,s,shape,inside,source,rfl,hfault⟩ := h
  exact ⟨xs.length + k,s,shape,inside,source,by rw [Nat.add_assoc],hfault.append_left hxs⟩

theorem cons (h : e.Names (start + 1) xs) (hb : b.Passes) : e.Names start (b :: xs) := by
  have hbehind : e.Names (start + [b].length) xs := h
  exact hbehind.append_left (List.forall_mem_singleton.mpr hb)

theorem append_right (h : e.Names start xs) : e.Names start (xs ++ ys) := by
  obtain ⟨k,s,shape,inside,source,rfl,hfault⟩ := h
  exact ⟨k,s,shape,inside,source,rfl,hfault.append_right⟩

/-- A layer inside has named itself already, and the name of the block is not added. -/
theorem inside_block (h : e.Names (start + 1) xs) (hb : b.kind.size = 1 + xs.length) :
    (e.atLayer start b.path).Names start (b :: xs) := by
  obtain ⟨k,s,shape,inside,source,rfl,hfault⟩ := h
  refine ⟨k + 1,s,shape,inside,source,?_,hfault.inside_block hb⟩
  rw [Error.atLayer,Nat.add_assoc,Nat.add_comm 1]

end Error.Names

theorem Operation.rejects_of_fit {op : Operation α} {path : String} {closes : Bool}
    {depth : ℕ} {input? : Option (List ℕ)} {shape : List ℕ} {source : Error α}
    (h : op.fit path shape closes = .error source) :
    (⟨⟨path,.single op,depth⟩,closes,input?⟩ : Site α).Rejects shape 0 source := by
  unfold Operation.fit at h
  split at h
  · rw [← Except.error.inj h]
    exact .softmax rfl rfl
  next hplace =>
    refine .unfit rfl (fun hop => ?_) h
    cases closes with
    | true => rfl
    | false => exact absurd rfl (hplace hop)

theorem Branches.rejects_of_image {branches : Branches α} {path : String} {closes : Bool}
    {depth : ℕ} {input? : Option (List ℕ)} {shape : List ℕ} {source : Error α}
    (h : branches.image shape = .error source) :
    (⟨⟨path,.block branches,depth⟩,closes,input?⟩ : Site α).Rejects shape 0 source := by
  cases branches with
  | nil =>
    rw [← Except.error.inj h]
    exact .noBranches rfl
  | cons name layers rest =>
    obtain ⟨hlength,rfl⟩ := ofShape_eq_error h
    exact .image rfl (by simp) hlength

theorem Layers.compile_single_eq_error {name parent : String} {op : Operation α} {rest : Layers α}
    {shape : List ℕ} {depth : ℕ} {n : Numbering} {e : Error α}
    (h : (Layers.single name op rest).compile shape parent depth n = .error e) :
    (∃ source, op.fit (layerPath parent name) shape (depth == 0 && rest.isEmpty) = .error source ∧
      source.atLayer n.nodes (layerPath parent name) = e) ∨
    ∃ t middle, op.fit (layerPath parent name) shape (depth == 0 && rest.isEmpty) =
        .ok (t,middle) ∧
      rest.compile middle parent depth (n.next op.isWeighted) = .error e := by
  simpa [Layers.compile,Error.bind_eq_error_iff,Error.within_eq_error_iff,Error.within_eq_ok_iff,
    pure,Except.pure] using h

theorem Layers.compile_block_eq_error {name parent : String} {branches : Branches α}
    {rest : Layers α} {shape : List ℕ} {depth : ℕ} {n : Numbering} {e : Error α}
    (h : (Layers.block name branches rest).compile shape parent depth n = .error e) :
    (∃ source, branches.image shape = .error source ∧
      source.atLayer n.nodes (layerPath parent name) = e) ∨
    (∃ image source, branches.image shape = .ok image ∧
      branches.compile image (layerPath parent name) (depth + 1) (n.next false) = .error source ∧
      source.atLayer n.nodes (layerPath parent name) = e) ∨
    ∃ image plans channels m, branches.image shape = .ok image ∧
      branches.compile image (layerPath parent name) (depth + 1) (n.next false) =
        .ok (plans,channels,m) ∧
      rest.compile [channels % Window.wordCount,image.height,image.width] parent depth m =
        .error e := by
  simp only [Layers.compile,Error.bind_eq_error_iff,Error.within_eq_error_iff,
    Error.within_eq_ok_iff,Prod.exists,pure,Except.pure,reduceCtorEq,and_false,exists_false,
    or_false] at h
  rcases h with himage | ⟨image,himage,hinside⟩
  · exact .inl himage
  · rcases hinside with ⟨source,hbranches,hsource⟩ | ⟨plans,channels,m,hbranches,hrest⟩
    · exact .inr (.inl ⟨image,source,himage,hbranches,hsource⟩)
    · exact .inr (.inr ⟨image,plans,channels,m,himage,hbranches,hrest⟩)

theorem Branches.compile_cons_eq_error {name parent : String} {layers : Layers α}
    {rest : Branches α} {image : ImageShape} {depth : ℕ} {n : Numbering} {e : Error α}
    (h : (Branches.cons name layers rest).compile image parent depth n = .error e) :
    layers.compile image.toList (layerPath parent name) depth n = .error e ∨
    (∃ steps out m, layers.compile image.toList (layerPath parent name) depth n =
        .ok (steps,out,m) ∧ (branchWidth image out : Except (Error α) ℕ) = .error e) ∨
    ∃ steps width m, layers.compile image.toList (layerPath parent name) depth n =
        .ok (steps,[width,image.height,image.width],m) ∧
      rest.compile image parent depth m = .error e := by
  simp only [Branches.compile,Error.bind_eq_error_iff,Prod.exists,branchWidth_eq_ok_iff,pure,
    Except.pure,reduceCtorEq,and_false,exists_false,or_false] at h
  rcases h with hlayers | ⟨steps,out,m,hlayers,hwidth | ⟨width,rfl,hrest⟩⟩
  · exact .inl hlayers
  · exact .inr (.inl ⟨steps,out,m,hlayers,hwidth⟩)
  · exact .inr (.inr ⟨steps,width,m,hlayers,hrest⟩)

mutual

theorem Layers.names_of_compile (layers : Layers α) {shape : List ℕ} {parent : String} {depth : ℕ}
    {n : Numbering} {e : Error α} (h : layers.compile shape parent depth n = .error e) :
    e.Names n.nodes (layers.sites parent depth (some shape)) := by
  cases layers with
  | nil => cases h
  | single name op rest =>
    rw [Layers.sites]
    rcases Layers.compile_single_eq_error h with ⟨source,hfit,rfl⟩ | ⟨t,middle,hfit,hrest⟩
    · exact .head_zero rfl (Operation.rejects_of_fit hfit)
    · have hshape := Operation.shape?_of_fit hfit
      rw [Option.bind_some,LayerKind.shape?,hshape]
      exact .cons (rest.names_of_compile hrest) ⟨shape,middle,rfl,hshape⟩
  | block name branches rest =>
    rw [Layers.sites]
    rcases Layers.compile_block_eq_error h with ⟨source,himage,rfl⟩ |
      ⟨image,source,himage,hbranches,rfl⟩ | ⟨image,plans,channels,m,himage,hbranches,hrest⟩
    · exact .head_zero rfl (Branches.rejects_of_image himage)
    · obtain ⟨-,rfl⟩ := Branches.image_eq_ok_iff.mp himage
      have hlength := branches.length_sites (layerPath parent name) (depth + 1) (some image.toList)
      let here : Site α := ⟨⟨layerPath parent name,.block branches,depth⟩,
        depth == 0 && rest.isEmpty,some image.toList⟩
      rcases branches.names_of_compile hbranches with hnames | ⟨inside,hrejects⟩
      · have hsize : here.kind.size = 1 + _ := congrArg (1 + ·) hlength.symm
        exact (hnames.inside_block hsize).append_right
      · obtain ⟨hinside,hpasses⟩ := hrejects.passes (layerPath parent name) depth
        have hhere : here.Rejects image.toList inside source := .branch rfl rfl hrejects
        exact (Error.Names.head rfl hhere (hlength ▸ hinside) hpasses).append_right
    · obtain ⟨-,rfl⟩ := Branches.image_eq_ok_iff.mp himage
      have hchannels := branches.channels?_of_compile hbranches
      have hshape : (LayerKind.block branches).shape? (depth == 0 && rest.isEmpty) image.toList =
          some [channels % Window.wordCount,image.height,image.width] :=
        LayerKind.shape?_block_eq_some_iff.mpr ⟨image,channels,himage,hchannels,rfl⟩
      have hrest := rest.names_of_compile hrest
      rw [(branches.ids_compile hbranches).2,
        ← branches.length_sites (layerPath parent name) (depth + 1) (some image.toList)] at hrest
      rw [Option.bind_some,hshape]
      exact .cons (hrest.append_left (branches.passes_of_channels? hchannels))
        ⟨image.toList,_,rfl,hshape⟩

theorem Branches.names_of_compile (branches : Branches α) {image : ImageShape} {parent : String}
    {depth : ℕ} {n : Numbering} {e : Error α}
    (h : branches.compile image parent (depth + 1) n = .error e) :
    e.Names n.nodes (branches.sites parent (depth + 1) (some image.toList)) ∨
      ∃ inside, branches.Rejects image inside e := by
  cases branches with
  | nil => cases h
  | cons name layers rest =>
    rw [Branches.sites]
    rcases Branches.compile_cons_eq_error h with hlayers | ⟨steps,out,m,hlayers,hwidth⟩ |
      ⟨steps,width,m,hlayers,hrest⟩
    · exact .inl (layers.names_of_compile hlayers).append_right
    · have hshape := layers.shape?_of_compile hlayers
      refine .inr ⟨layers.nodeCount,?_⟩
      rcases branchWidth_eq_error hwidth with ⟨hlength,rfl⟩ | ⟨_,_,_,rfl,hextents,rfl⟩
      · exact .rank hshape hlength
      · exact .extents hshape hextents
    · have hshape := layers.shape?_of_compile hlayers
      rcases rest.names_of_compile hrest with hnames | ⟨inside,hrejects⟩
      · rw [(layers.ids_compile hlayers).2,
          ← layers.length_sites (layerPath parent name) (depth + 1) (some image.toList)] at hnames
        exact .inl (hnames.append_left (layers.passes_of_shape? hshape))
      · exact .inr ⟨layers.nodeCount + inside,.next hshape hrejects⟩

end

namespace Engine

variable {net : Network α} {e : Error α}

/-- Where a network with layers does not compile, the error names one layer of it and no other, by
its place in the order of declaration and by its path. The own check of this layer fails, on the
shape that the layers before it in its sequence give, and all layers compiled before it fit. -/
theorem compile_error_names_layer (hlayers : net.layers.isEmpty = false)
    (he : compile net = .error e) :
    ∃ k s shape inside source, e = .inLayer k s.path source ∧ ¬ source.IsInLayer ∧
      net.declared[k]? = some s.toDeclared ∧ Fault net.sites k s shape inside source := by
  have hplan : net.layers.compile net.inputShape "" 0 ⟨0,0⟩ = .error e := by
    simpa [compile,hlayers,Error.bind_eq_error_iff,pure,Except.pure] using he
  obtain ⟨k,s,shape,inside,source,rfl,hfault⟩ := net.layers.names_of_compile hplan
  have hdeclared := congrArg (·[k]?) (net.layers.map_sites "" 0 (some net.inputShape))
  simp only [List.getElem?_map,hfault.site,Option.map_some] at hdeclared
  exact ⟨k,s,shape,inside,source,by rw [Nat.zero_add],hfault.rejects.plain,hdeclared.symm,hfault⟩

/-- A softmax behind an activation in the second branch of a block. -/
theorem compile_error_names_layer_softmax : ∃ net : Network Single,
    net.declared.map (·.path) = ["b","b/l/a","b/r/c","b/r/s","d"] ∧
    compile net = .error (.inLayer 3 "b/r/s" (.unsupported (.innerSoftmax "b/r/s"))) ∧
    ∃ s shape inside source, s.path = "b/r/s" ∧ net.declared[3]? = some s.toDeclared ∧
      Fault net.sites 3 s shape inside source := by
  let net : Network Single := ⟨"n",[1,1,1],.block "b"
    (.cons "l" (.single "a" .relu .nil)
      (.cons "r" (.single "c" .relu (.single "s" .softmax .nil)) .nil))
    (.single "d" .relu .nil)⟩
  have he : compile net =
      .error (.inLayer 3 "b/r/s" (.unsupported (.innerSoftmax "b/r/s"))) := rfl
  obtain ⟨k,s,shape,inside,source,hname,-,hdeclared,hfault⟩ := compile_error_names_layer rfl he
  obtain ⟨rfl,hpath,-⟩ := Error.inLayer.inj hname
  exact ⟨net,by decide,he,s,shape,inside,source,hpath.symm,hdeclared,hfault⟩

end Engine
end Sensitivity
