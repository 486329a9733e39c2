import Sensitivity.Proofs.Pruning
import Sensitivity.Proofs.Shape.Indicator

/-! One order of layers for all. A network lists its layers depth first in the order of their
declaration; compilation, the walks over its weights, indicators and selections number the layers
by this list, although each of them counts by itself. -/
namespace Sensitivity

variable {α : Type}

def LayerKind.weights? : LayerKind α → Option (Tensor α)
  | .single op => op.weights?
  | .block _ => none

/-- A layer of a network: its path, its kind, and the number of blocks around it. -/
structure Declared (α : Type) where
  path : String
  kind : LayerKind α
  depth : ℕ

mutual

/-- All layers in the order of their declaration, a block before what it holds. -/
def Layers.declared (parent : String) (depth : ℕ) : Layers α → List (Declared α)
  | .nil => []
  | .single name op rest =>
    ⟨layerPath parent name,.single op,depth⟩ :: rest.declared parent depth
  | .block name branches rest => ⟨layerPath parent name,.block branches,depth⟩ ::
    (branches.declared (layerPath parent name) (depth + 1) ++ rest.declared parent depth)

def Branches.declared (parent : String) (depth : ℕ) : Branches α → List (Declared α)
  | .nil => []
  | .cons name layers rest =>
    layers.declared (layerPath parent name) depth ++ rest.declared parent depth

end

def Network.declared (net : Network α) : List (Declared α) := net.layers.declared "" 0

theorem Operation.isWeighted_iff_tag (op : Operation α) :
    op.isWeighted = true ↔ op.tag = "fully_connected" ∨ op.tag = "convolutional" := by
  cases op with
  | pooling layer => cases h : layer.mode <;> simp [isWeighted,weights?,tag,h]
  | _ => simp [isWeighted,weights?,tag]

theorem LayerKind.isWeighted_iff_tag (kind : LayerKind α) :
    kind.isWeighted = true ↔ kind.tag = "fully_connected" ∨ kind.tag = "convolutional" := by
  cases kind with
  | single op => exact op.isWeighted_iff_tag
  | block branches => simp [isWeighted,tag]

mutual

theorem Layers.length_declared (layers : Layers α) (parent : String) (depth : ℕ) :
    (layers.declared parent depth).length = layers.nodeCount := by
  cases layers with
  | nil => rfl
  | single name op rest =>
    rw [Layers.declared,List.length_cons,rest.length_declared,Layers.nodeCount,Nat.add_comm]
  | block name branches rest =>
    rw [Layers.declared,List.length_cons,List.length_append,branches.length_declared,
      rest.length_declared,Layers.nodeCount]
    omega

theorem Branches.length_declared (branches : Branches α) (parent : String) (depth : ℕ) :
    (branches.declared parent depth).length = branches.nodeCount := by
  cases branches with
  | nil => rfl
  | cons name layers rest =>
    rw [Branches.declared,List.length_append,layers.length_declared,rest.length_declared,
      Branches.nodeCount]

end

theorem isSome_eq_of_rel {β γ : Type} {R : β → γ → Prop} {a : Option β} {b : Option γ}
    (h : Option.Rel R a b) : a.isSome = b.isSome := by
  cases h <;> rfl

theorem map_filter_isSome {β γ : Type} {f : β → Option γ} {p : β → Bool} {l : List β}
    (h : ∀ b ∈ l, (f b).isSome = p b) : (l.filter p).map f = (l.filterMap f).map some := by
  induction l with
  | nil => rfl
  | cons b l ih =>
    obtain ⟨hb,hl⟩ := List.forall_mem_cons.mp h
    rw [List.filter_cons,List.filterMap_cons,← hb]
    cases hf : f b with
    | none => simpa using ih hl
    | some c => simpa [hf] using ih hl

namespace Engine

/-- The weighted nodes with their transforms. -/
def weightedEntries (e : Engine α) : List (Node × Option (Transform α)) :=
  e.listing.filter fun entry => entry.1.weighted?.isSome

theorem weighted_eq (e : Engine α) : e.weighted = e.weightedEntries.map (·.1.id) := by
  rw [weighted,nodes,weightedEntries,List.filter_map,List.map_map]
  rfl

end Engine

variable [Scalar α]

/-- A node that was compiled from a layer. -/
structure Declared.Compiles (d : Declared α) (entry : Node × Option (Transform α)) : Prop where
  path : entry.1.path = d.path
  tag : entry.1.tag = d.kind.tag
  depth : entry.1.depth = d.depth
  weights : entry.2.bind Transform.weights? = d.kind.weights?
  weighted : entry.1.weighted?.isSome = d.kind.isWeighted

mutual

theorem Layers.compiles_declared (layers : Layers α) {shape out : List ℕ} {parent : String}
    {depth : ℕ} {n m : Numbering} {plan : Plan α Node}
    (h : layers.compile shape parent depth n = .ok (plan,out,m)) :
    List.Forall₂ Declared.Compiles (layers.declared parent depth) plan.listing := by
  cases layers with
  | nil =>
    obtain ⟨rfl,-,-⟩ := Layers.compile_nil_eq_ok_iff.mp h
    exact .nil
  | single name op rest =>
    obtain ⟨t,middle,after,hfit,hrest,rfl⟩ := Layers.compile_single_eq_ok_iff.mp h
    have ht := (Transform.resolves_of_ofOperation (Operation.fit_eq_ok hfit)).weights?
    refine .cons ⟨rfl,rfl,rfl,ht,?_⟩ (rest.compiles_declared hrest)
    simp only [Operation.node,LayerKind.isWeighted]
    split <;> simp_all
  | block name branches rest =>
    obtain ⟨image,plans,channels,k,after,-,hbranches,hrest,rfl⟩ :=
      Layers.compile_block_eq_ok_iff.mp h
    refine .cons ⟨rfl,rfl,rfl,rfl,rfl⟩ ?_
    exact List.rel_append (branches.compiles_declared hbranches) (rest.compiles_declared hrest)

theorem Branches.compiles_declared (branches : Branches α) {image : ImageShape} {parent : String}
    {depth channels : ℕ} {n m : Numbering} {plans : BranchPlans α Node}
    (h : branches.compile image parent depth n = .ok (plans,channels,m)) :
    List.Forall₂ Declared.Compiles (branches.declared parent depth) plans.listing := by
  cases branches with
  | nil =>
    obtain ⟨rfl,-,-⟩ := Branches.compile_nil_eq_ok_iff.mp h
    exact .nil
  | cons name layers rest =>
    obtain ⟨steps,width,k,after,others,hlayers,hrest,rfl,-⟩ :=
      Branches.compile_cons_eq_ok_iff.mp h
    exact List.rel_append (layers.compiles_declared hlayers) (rest.compiles_declared hrest)

end

mutual

theorem Layers.weighted?_compile (layers : Layers α) {shape out : List ℕ} {parent : String}
    {depth : ℕ} {n m : Numbering} {plan : Plan α Node}
    (h : layers.compile shape parent depth n = .ok (plan,out,m)) :
    plan.listing.filterMap (·.1.weighted?) = List.range' n.weighted layers.weightedCount ∧
      m.weighted = n.weighted + layers.weightedCount := by
  cases layers with
  | nil =>
    obtain ⟨rfl,-,rfl⟩ := Layers.compile_nil_eq_ok_iff.mp h
    exact ⟨rfl,rfl⟩
  | single name op rest =>
    obtain ⟨t,middle,after,-,hrest,rfl⟩ := Layers.compile_single_eq_ok_iff.mp h
    obtain ⟨hweighted,hm⟩ := rest.weighted?_compile hrest
    rw [Plan.listing,Layers.weightedCount,List.filterMap_cons,hweighted,hm]
    simp only [Operation.node,Numbering.next]
    by_cases hop : op.isWeighted
    · simp only [if_pos hop]
      exact ⟨by rw [Nat.add_comm 1,List.range'_succ],by omega⟩
    · simp only [if_neg hop]
      exact ⟨by rw [Nat.zero_add],by omega⟩
  | block name branches rest =>
    obtain ⟨image,plans,channels,k,after,-,hbranches,hrest,rfl⟩ :=
      Layers.compile_block_eq_ok_iff.mp h
    obtain ⟨hinside,hk⟩ := branches.weighted?_compile hbranches
    obtain ⟨hweighted,hm⟩ := rest.weighted?_compile hrest
    rw [Plan.listing,Layers.weightedCount,List.filterMap_cons_none rfl,List.filterMap_append,
      hinside,hweighted,hm,hk]
    simp only [Numbering.next,Bool.false_eq_true,if_false]
    exact ⟨List.range'_append_1,by omega⟩

theorem Branches.weighted?_compile (branches : Branches α) {image : ImageShape} {parent : String}
    {depth channels : ℕ} {n m : Numbering} {plans : BranchPlans α Node}
    (h : branches.compile image parent depth n = .ok (plans,channels,m)) :
    plans.listing.filterMap (·.1.weighted?) = List.range' n.weighted branches.weightedCount ∧
      m.weighted = n.weighted + branches.weightedCount := by
  cases branches with
  | nil =>
    obtain ⟨rfl,-,rfl⟩ := Branches.compile_nil_eq_ok_iff.mp h
    exact ⟨rfl,rfl⟩
  | cons name layers rest =>
    obtain ⟨steps,width,k,after,others,hlayers,hrest,rfl,-⟩ :=
      Branches.compile_cons_eq_ok_iff.mp h
    obtain ⟨hinside,hk⟩ := layers.weighted?_compile hlayers
    obtain ⟨hweighted,hm⟩ := rest.weighted?_compile hrest
    rw [BranchPlans.listing,Branches.weightedCount,List.filterMap_append,hinside,hweighted,hm,hk]
    exact ⟨List.range'_append_1,by omega⟩

end

namespace Engine

variable {net : Network α} {e : Engine α}

theorem compiles_declared (he : compile net = .ok e) :
    List.Forall₂ Declared.Compiles net.declared e.listing := by
  obtain ⟨-,-,-,m,hplan⟩ := compile_eq_ok_iff.mp he
  exact net.layers.compiles_declared hplan

theorem getElem?_listing_id (he : compile net = .ok e) {entry : Node × Option (Transform α)}
    (hentry : entry ∈ e.listing) : e.listing[entry.1.id]? = some entry := by
  obtain ⟨k,hk⟩ := List.getElem?_of_mem hentry
  rw [id_of_listing_getElem? he hk,hk]

theorem exists_declared (he : compile net = .ok e) {entry : Node × Option (Transform α)}
    (hentry : entry ∈ e.listing) :
    ∃ d, net.declared[entry.1.id]? = some d ∧ d.Compiles entry := by
  obtain ⟨hk,hget⟩ := List.getElem?_eq_some_iff.mp (getElem?_listing_id he hentry)
  have hcompiles := compiles_declared he
  have hk' := hcompiles.length_eq ▸ hk
  have hd := hcompiles.get hk' hk
  rw [List.get_eq_getElem,List.get_eq_getElem,hget] at hd
  exact ⟨_,List.getElem?_eq_getElem hk',hd⟩

theorem isSome_weights? (he : compile net = .ok e) {entry : Node × Option (Transform α)}
    (hentry : entry ∈ e.listing) : (Node.weights? entry).isSome = entry.1.weighted?.isSome := by
  obtain ⟨d,-,hd⟩ := exists_declared he hentry
  rw [Node.weights?,Option.isSome_map,hd.weights,hd.weighted]
  cases d.kind <;> rfl

/-- The weighted nodes with their transforms are the weighted layers of the network, and are
numbered from zero on. -/
theorem map_weightedEntries (he : compile net = .ok e) :
    e.weightedEntries.map Node.weights? = net.weighted.map some ∧
      e.weightedEntries.map (·.1.weighted?) = (List.range net.layers.weightedCount).map some := by
  obtain ⟨-,-,-,m,hplan⟩ := compile_eq_ok_iff.mp he
  rw [← weights_listing he,List.range_eq_range',← (net.layers.weighted?_compile hplan).1]
  exact ⟨map_filter_isSome fun entry hentry => isSome_weights? he hentry,
    map_filter_isSome fun _ _ => rfl⟩

theorem getElem?_weightedEntries (he : compile net = .ok e) {k : ℕ}
    {entry : Node × Option (Transform α)} (hk : e.weightedEntries[k]? = some entry) :
    entry.1.weighted? = some k ∧ ∃ w, net.weighted[k]? = some w ∧ Node.weights? entry = some w := by
  obtain ⟨hweights,hnumbers⟩ := map_weightedEntries he
  have hweights := congrArg (·[k]?) hweights
  have hnumbers := congrArg (·[k]?) hnumbers
  simp only [List.getElem?_map,hk,Option.map_some] at hweights hnumbers
  obtain ⟨w,hw,hentry⟩ := Option.map_eq_some_iff.mp hweights.symm
  obtain ⟨i,hi,hnumber⟩ := Option.map_eq_some_iff.mp hnumbers.symm
  obtain ⟨hk',hi⟩ := List.getElem?_eq_some_iff.mp hi
  rw [← hi,List.getElem_range] at hnumber
  exact ⟨hnumber.symm,w,hw,hentry.symm⟩

theorem weighted?_eq_some_iff (he : compile net = .ok e) {node : Node} (hnode : node ∈ e.nodes)
    {k : ℕ} : node.weighted? = some k ↔ e.weighted[k]? = some node.id := by
  obtain ⟨entry,hentry,rfl⟩ := List.mem_map.mp hnode
  rw [weighted_eq,List.getElem?_map]
  constructor
  · intro h
    have hmem : entry ∈ e.weightedEntries := List.mem_filter.mpr ⟨hentry,by simp [h]⟩
    obtain ⟨i,hi⟩ := List.getElem?_of_mem hmem
    obtain rfl := Option.some.inj (h.symm.trans (getElem?_weightedEntries he hi).1)
    rw [hi,Option.map_some]
  · intro h
    obtain ⟨found,hfound,hid⟩ := Option.map_eq_some_iff.mp h
    have hmem := List.mem_of_mem_filter (List.mem_of_getElem? hfound)
    have heq := (getElem?_listing_id he hmem).symm.trans (hid ▸ getElem?_listing_id he hentry)
    obtain rfl := Option.some.inj heq
    exact (getElem?_weightedEntries he hfound).1

/-- One layer as the `k`-th weighted node of an engine, as the `k`-th weighted layer of its network
where weights are read and where they are changed, and as it was declared. -/
structure WeightedNode (e : Engine α) (net : Network α) (k : ℕ) (node : Node) (t : Transform α)
    (w : Tensor α) : Prop where
  weighted : e.weighted[k]? = some node.id
  listed : e.listing[node.id]? = some (node,some t)
  weights : t.weights? = some w
  declared : ∃ op, net.declared[node.id]? = some ⟨node.path,.single op,node.depth⟩ ∧
    op.weights? = some w
  read : net.weighted[k]? = some (node.path,w)
  changed : ∀ f, (net.mapWeights f).weighted[k]? = some (node.path,w.mapPositions (f k))

theorem exists_weightedNode (he : compile net = .ok e) {k : ℕ} (hk : k < e.weighted.length) :
    ∃ node t w, e.WeightedNode net k node t w := by
  have hlt : k < e.weightedEntries.length := by simpa [weighted_eq] using hk
  obtain ⟨⟨node,t⟩,hentry⟩ : ∃ entry, e.weightedEntries[k]? = some entry :=
    ⟨_,List.getElem?_eq_getElem hlt⟩
  have hmem := List.mem_of_mem_filter (List.mem_of_getElem? hentry)
  obtain ⟨-,v,hread,hweights⟩ := getElem?_weightedEntries he hentry
  obtain ⟨w,hw,rfl⟩ := Option.map_eq_some_iff.mp hweights
  obtain ⟨t,rfl,hw⟩ := Option.bind_eq_some_iff.mp hw
  obtain ⟨⟨path,kind,depth⟩,hdeclared,hd⟩ := exists_declared he hmem
  refine ⟨node,t,w,?_,getElem?_listing_id he hmem,hw,?_,hread,fun f => ?_⟩
  · rw [weighted_eq,List.getElem?_map,hentry,Option.map_some]
  · have hpath : node.path = path := hd.path
    have hdepth : node.depth = depth := hd.depth
    have hkind : kind.weights? = some w := hd.weights.symm.trans hw
    cases kind with
    | single op => exact ⟨op,by rw [hpath,hdepth]; exact hdeclared,hkind⟩
    | block branches => cases hkind
  · rw [Network.weighted_mapWeights,List.getElem?_mapIdx,hread,Option.map_some]

theorem nodes_declared (he : compile net = .ok e) :
    e.nodes.map (fun node => (node.id,node.path,node.tag,node.depth)) =
      net.declared.mapIdx fun i d => (i,d.path,d.kind.tag,d.depth) := by
  have hcompiles := compiles_declared he
  refine List.ext_getElem (by simp [nodes,hcompiles.length_eq]) fun k hk hk' => ?_
  have hlt : k < e.listing.length := by simpa [nodes] using hk
  have hd := hcompiles.get (hcompiles.length_eq ▸ hlt) hlt
  have hid := id_of_listing_getElem? he (List.getElem?_eq_getElem hlt)
  simp only [List.get_eq_getElem] at hd
  simp only [nodes,List.getElem_map,List.getElem_mapIdx,hid,hd.path,hd.tag,hd.depth]

theorem weighted_eq_filter_tag (he : compile net = .ok e) : e.weighted =
    (e.nodes.filter fun node => node.tag = "fully_connected" ∨ node.tag = "convolutional").map
      (·.id) := by
  rw [weighted]
  refine congrArg (List.map Node.id) (List.filter_congr fun node hnode => ?_)
  obtain ⟨entry,hentry,rfl⟩ := List.mem_map.mp hnode
  obtain ⟨d,-,hd⟩ := exists_declared he hentry
  rw [Bool.eq_iff_iff,hd.weighted,hd.tag,LayerKind.isWeighted_iff_tag,decide_eq_true_eq]

theorem pairwise_weighted (he : compile net = .ok e) : e.weighted.Pairwise (· < ·) := by
  have hids : (e.nodes.map (·.id)).Pairwise (· < ·) := by
    rw [ids_nodes he]
    exact List.pairwise_lt_range
  exact hids.sublist (List.Sublist.map _ List.filter_sublist)

theorem length_weighted (he : compile net = .ok e) : e.weighted.length = net.weighted.length := by
  have hlength := congrArg List.length (map_weightedEntries he).1
  simpa [weighted_eq] using hlength

theorem WeightedNode.getElem?_layers (he : compile net = .ok e) {k : ℕ} {node : Node}
    {t : Transform α} {w : Tensor α} (h : e.WeightedNode net k node t w) {score : Bound α → α}
    {r : Run α} {ind : Indicators α} (hind : Indicators.compute score e r = .ok ind) :
    ∃ l, ind.layers[k]? = some l ∧ Indicator.ofNode score r node (some t) = some (.ok l) ∧
      l.path = node.path ∧ l.values.shape = w.shape := by
  have hdomain : ∀ entry ∈ e.listing, (Indicator.ofNode score r entry.1 entry.2).isSome =
      entry.1.weighted?.isSome := by
    intro entry hentry
    rw [← isSome_weights? he hentry]
    exact (isSome_eq_of_rel (Indicator.rel_ofNode score r entry)).symm
  have hcompute := Indicators.compute_eq_ok_iff.mp hind
  have hmap : e.weightedEntries.map (fun entry => Indicator.ofNode score r entry.1 entry.2) =
      ind.layers.map fun l => some (.ok l) := by
    rw [weightedEntries,map_filter_isSome hdomain,← List.forall₂_eq_eq_eq,
      List.forall₂_map_left_iff,List.forall₂_map_right_iff]
    exact hcompute.imp fun c l hc => congrArg some hc
  have hweighted := h.weighted
  rw [weighted_eq,List.getElem?_map] at hweighted
  obtain ⟨entry,hentry,hid⟩ := Option.map_eq_some_iff.mp hweighted
  have hlisted := getElem?_listing_id he (List.mem_of_mem_filter (List.mem_of_getElem? hentry))
  rw [hid,h.listed] at hlisted
  obtain rfl := Option.some.inj hlisted
  have hlayer := congrArg (·[k]?) hmap
  simp only [List.getElem?_map,hentry,Option.map_some] at hlayer
  obtain ⟨l,hl,hof⟩ := Option.map_eq_some_iff.mp hlayer.symm
  have hrel := Indicator.rel_ofNode score r (node,some t)
  have hweights : Node.weights? (node,some t) = some (node.path,w) := by
    simp [Node.weights?,h.weights]
  rw [hweights,← hof] at hrel
  cases hrel with
  | some hrel => exact ⟨l,hl,hof.symm,hrel l rfl⟩

/-- Everything that counts layers counts them in the order of their declaration. The nodes of a
compiled network are its layers, numbered from zero on; the weighted ones are the fully connected
and the convolutional ones, and the `k`-th of them is the `k`-th weighted layer of the network,
for reading and for changing its weights. Every finished run has indicators, whose `k`-th tensor is
about that layer, and every selection made from them is carried out on the network. -/
theorem numbers_layers_alike {net : Network Single} {e : Engine Single}
    (he : compile net = .ok e) :
    e.nodes.map (fun node => (node.id,node.path,node.tag,node.depth)) =
        net.declared.mapIdx (fun i d => (i,d.path,d.kind.tag,d.depth)) ∧
      e.nodeCount = net.nodeCount ∧
      e.weighted = (e.nodes.filter fun node =>
        node.tag = "fully_connected" ∨ node.tag = "convolutional").map (·.id) ∧
      e.weighted.Pairwise (· < ·) ∧
      (∀ node ∈ e.nodes, ∀ k, node.weighted? = some k ↔ e.weighted[k]? = some node.id) ∧
      e.weighted.length = net.weighted.length ∧
      (∀ k < e.weighted.length, ∃ node t w, e.WeightedNode net k node t w) ∧
      ∀ x seed r, e.propagate x seed = .ok r → ∀ score : Bound Single → Single,
        ∃ ind, Indicators.compute score e r = .ok ind ∧
          ind.layers.length = e.weighted.length ∧
          (∀ k node t w, e.WeightedNode net k node t w → ∃ l, ind.layers[k]? = some l ∧
            Indicator.ofNode score r node (some t) = some (.ok l) ∧
            l.path = node.path ∧ l.values.shape = w.shape) ∧
          ind.total = net.weightCount ∧
          ∀ fraction s, Selection.ofFraction ind fraction = .ok s → s.apply net =
            (Selection.zero s.weights net,.ok (Selection.report net.weighted s.weights)) := by
  refine ⟨nodes_declared he,nodeCount_eq he,weighted_eq_filter_tag he,pairwise_weighted he,
    fun node hnode k => weighted?_eq_some_iff he hnode,length_weighted he,
    fun k hk => exists_weightedNode he hk,fun x seed r hr score => ?_⟩
  obtain ⟨rows,passages,-,-,-,hnotes,hstores,hshaped⟩ := shaped_of_propagate he hr
  have hind := compute_eq_ok he hnotes hstores hshaped score
  have hmatch := Indicators.match_of_compute he hind
  refine ⟨_,hind,?_,fun k node t w h => h.getElem?_layers he hind,hmatch.total_eq,
    fun fraction s hs => ?_⟩
  · rw [length_weighted he]
    exact hmatch.length_eq.symm
  · obtain ⟨hfirst,hshapes⟩ := Selection.takesFirst_of_ofFraction hmatch hs
    exact Selection.apply_eq_ok hshapes hfirst.inRange

/-- A convolution in a block before a fully connected layer. -/
theorem numbers_layers_alike_block : ∃ (net : Network Single) (e : Engine Single),
    compile net = .ok e ∧ net.declared.map (·.path) = ["b","b/l/c","b/r/a","d"] ∧
      e.weighted = [1,3] ∧ ∀ k < 2, ∃ node t w, e.WeightedNode net k node t w := by
  let net : Network Single := ⟨"n",[1,1,1],.block "b"
    (.cons "l" (.single "c" (.convolution ⟨1,1,1,1,Tensor.fill [1,1,1,1] 1,rfl,#[0],1,0,1⟩) .nil)
      (.cons "r" (.single "a" .relu .nil) .nil))
    (.single "d" (.dense ⟨2,1,Tensor.fill [2,1] 1,rfl,#[0]⟩) .nil)⟩
  obtain ⟨e,he,hpaths,hweighted⟩ : ∃ e, compile net = .ok e ∧
      net.declared.map (·.path) = ["b","b/l/c","b/r/a","d"] ∧ e.weighted = [1,3] :=
    ⟨_,rfl,by decide,rfl⟩
  obtain ⟨-,-,-,-,-,-,hnodes,-⟩ := numbers_layers_alike he
  rw [hweighted] at hnodes
  exact ⟨net,e,he,hpaths,hweighted,hnodes⟩

end Engine
end Sensitivity
