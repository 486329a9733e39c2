import Sensitivity.Proofs.Description.Reading

/-! Loading, storing and loading again. What is loaded can be described, so that its text is read
as the same network, unless a float is not finite or attributes that were left out no longer find
room in the innermost blocks; then the text cannot be read at all. -/
namespace Sensitivity

open Json

/-! ### What a text can hold -/

theorem Json.exists_of_mem_mapM {β γ : Type} {f : β → Option γ} {bs : List β} {cs : List γ}
    (h : bs.mapM f = some cs) {c : γ} (hc : c ∈ cs) : ∃ b ∈ bs, f b = some c := by
  induction mapM_eq_some_iff.mp h with
  | nil => cases hc
  | cons hb _ ih =>
    rcases List.mem_cons.mp hc with rfl | hc
    · exact ⟨_,List.mem_cons_self,hb⟩
    · obtain ⟨b,hmem,hb⟩ := ih (mapM_eq_some_iff.mpr ‹_›) hc
      exact ⟨b,List.mem_cons_of_mem _ hmem,hb⟩

theorem Json.exists_of_mem_toList? {β : Type} {f : ℕ → Json → Option β} {room : ℕ} {j : Json}
    {ys : List β} (h : toList? f room j = some ys) {y : β} (hy : y ∈ ys) :
    ∃ room j, f room j = some y := by
  cases room with
  | zero => cases h
  | succ room =>
    cases j with
    | array items =>
      obtain ⟨item,-,hitem⟩ := exists_of_mem_mapM h hy
      exact ⟨room,item,hitem⟩
    | _ => cases h

theorem Json.optional?_cases {β : Type} {f : Json → Option β} {fallback r : β} {o : Option Json}
    (h : optional? f fallback o = some r) : r = fallback ∨ ∃ j, f j = some r := by
  cases o with
  | none => exact .inl (Option.some.inj h).symm
  | some j => exact .inr ⟨j,h⟩

theorem Attribute.lt_of_ofJson? {room : ℕ} {j : Json} {k : ℤ}
    (h : Attribute.ofJson? room j = some (.int k)) : k < 2 ^ (63 : ℕ) := by
  cases j with
  | number lexeme =>
    simp only [Attribute.ofJson?] at h
    obtain ⟨v,-,h⟩ := Option.bind_eq_some_iff.mp h
    cases hint : v.toInt? with
    | none => simp [hint] at h
    | some n =>
      obtain rfl : n = k := by simpa [hint] using h
      exact Value.lt_of_toInt? hint
  | string text => cases text <;> simp [Attribute.ofJson?] at h
  | array items =>
    cases room with
    | zero => simp [Attribute.ofJson?] at h
    | succ room =>
      simp only [Attribute.ofJson?] at h
      obtain ⟨values,-,h⟩ := Option.bind_eq_some_iff.mp h
      split at h <;> simp at h
  | _ => simp [Attribute.ofJson?] at h

theorem lt_of_attributesOf? {room : ℕ} {j : Json} {attributes : List (String × Attribute Single)}
    (h : attributesOf? room j = some attributes) (key : String) (k : ℤ)
    (hmem : (key,Attribute.int k) ∈ attributes) : k < 2 ^ (63 : ℕ) := by
  cases room with
  | zero => cases h
  | succ room =>
    cases j with
    | object members =>
      obtain ⟨member,-,hmember⟩ := exists_of_mem_mapM h hmem
      obtain ⟨name,-,hmember⟩ := Option.bind_eq_some_iff.mp hmember
      obtain ⟨value,hvalue,heq⟩ := Option.bind_eq_some_iff.mp hmember
      obtain ⟨-,rfl⟩ := Prod.mk.inj (Option.some.inj heq)
      exact Attribute.lt_of_ofJson? hvalue
    | _ => cases h

theorem LayerSpecs.all_ofList {q : LayerFields → Prop} {list : List (LayerFields × BranchSpecs)}
    (h : ∀ l ∈ list, q l.1 ∧ l.2.All q) : (LayerSpecs.ofList list).All q := by
  induction list with
  | nil => trivial
  | cons l list ih =>
    obtain ⟨hfields,hbranches⟩ := h l List.mem_cons_self
    exact ⟨hfields,hbranches,ih fun l hl => h l (List.mem_cons_of_mem _ hl)⟩

theorem BranchSpecs.all_ofList {q : LayerFields → Prop} {list : List (String × LayerSpecs)}
    (h : ∀ b ∈ list, b.2.All q) : (BranchSpecs.ofList list).All q := by
  induction list with
  | nil => trivial
  | cons b list ih =>
    exact ⟨h b List.mem_cons_self,ih fun b hb => h b (List.mem_cons_of_mem _ hb)⟩

mutual

theorem storable_of_layersOf? (room : ℕ) {j : Json} {specs : LayerSpecs}
    (h : layersOf? room j = some specs) : specs.All LayerFields.Storable := by
  match room, j, h with
  | room + 1, .array items, h =>
    obtain ⟨list,hlist,rfl⟩ := Option.map_eq_some_iff.mp h
    refine LayerSpecs.all_ofList fun l hl => ?_
    obtain ⟨item,-,hitem⟩ := exists_of_mem_mapM hlist hl
    exact storable_of_layerOf? room hitem

theorem storable_of_layerOf? (room : ℕ) {j : Json} {l : LayerFields × BranchSpecs}
    (h : layerOf? room j = some l) : l.1.Storable ∧ l.2.All LayerFields.Storable := by
  match room, h with
  | room + 1, h =>
    rw [layerOf?] at h
    obtain ⟨⟨_,fields⟩,-,h⟩ := Option.bind_eq_some_iff.mp h
    split at h
    next =>
      obtain ⟨name,-,h⟩ := Option.bind_eq_some_iff.mp h
      obtain ⟨kind,-,h⟩ := Option.bind_eq_some_iff.mp h
      obtain ⟨attributes,hattributes,h⟩ := Option.bind_eq_some_iff.mp h
      obtain ⟨weights,-,h⟩ := Option.bind_eq_some_iff.mp h
      obtain ⟨bias,-,h⟩ := Option.bind_eq_some_iff.mp h
      obtain ⟨branches,hbranches,h⟩ := Option.bind_eq_some_iff.mp h
      obtain rfl := Option.some.inj h
      refine ⟨fun key k hk => ?_,?_⟩
      · obtain rfl | ⟨j,hj⟩ := optional?_cases hattributes
        · cases hk
        · exact lt_of_attributesOf? hj key k hk
      · obtain rfl | ⟨j,hj⟩ := optional?_cases hbranches
        · trivial
        · exact storable_of_branchesOf? room hj
    next => cases h

theorem storable_of_branchesOf? (room : ℕ) {j : Json} {specs : BranchSpecs}
    (h : branchesOf? room j = some specs) : specs.All LayerFields.Storable := by
  match room, j, h with
  | room + 1, .array items, h =>
    obtain ⟨list,hlist,rfl⟩ := Option.map_eq_some_iff.mp h
    refine BranchSpecs.all_ofList fun b hb => ?_
    obtain ⟨item,-,hitem⟩ := exists_of_mem_mapM hlist hb
    exact storable_of_branchOf? room hitem

theorem storable_of_branchOf? (room : ℕ) {j : Json} {b : String × LayerSpecs}
    (h : branchOf? room j = some b) : b.2.All LayerFields.Storable := by
  match room, h with
  | room + 1, h =>
    rw [branchOf?] at h
    obtain ⟨⟨_,fields⟩,-,h⟩ := Option.bind_eq_some_iff.mp h
    split at h
    next =>
      obtain ⟨name,-,h⟩ := Option.bind_eq_some_iff.mp h
      obtain ⟨layers,hlayers,h⟩ := Option.bind_eq_some_iff.mp h
      obtain rfl := Option.some.inj h
      obtain rfl | ⟨j,hj⟩ := optional?_cases hlayers
      · trivial
      · exact storable_of_layersOf? room hj
    next => cases h

end

namespace Description

theorem storable_of_ofJson? {j : Json} {d : Description} (h : ofJson? j = some d) :
    (∀ n ∈ d.inputShape, n < 2 ^ (64 : ℕ)) ∧ d.layers.All LayerFields.Storable := by
  obtain ⟨⟨room,fields⟩,-,h⟩ := Option.bind_eq_some_iff.mp h
  split at h
  next =>
    obtain ⟨name,-,h⟩ := Option.bind_eq_some_iff.mp h
    obtain ⟨shape,hshape,h⟩ := Option.bind_eq_some_iff.mp h
    obtain ⟨layers,hlayers,h⟩ := Option.bind_eq_some_iff.mp h
    obtain rfl := Option.some.inj h
    refine ⟨fun n hn => ?_,storable_of_layersOf? _ hlayers⟩
    obtain ⟨_,j,hj⟩ := exists_of_mem_toList? hshape hn
    exact lt_of_toNat? hj
  next => cases h

end Description

/-! ### What is written for a network -/

theorem TensorData.legible_of_addressable {w : Tensor Single} {v : Array Single}
    (ha : Tensor.Addressable w.shape) (hv : v.size ∈ w.shape)
    (hread : ∀ x ∈ w.toList ++ v.toList, x.ReadsBack) :
    (ofTensor w).Legible ∧ (ofVector v).Legible := by
  have hsmall : ∀ n ∈ w.shape, n < 2 ^ (64 : ℕ) := fun n hn =>
    (ha.mem_lt hn).trans (by decide)
  refine ⟨⟨hsmall,fun x hx => hread x (List.mem_append_left _ hx)⟩,⟨fun n hn => ?_,
    fun x hx => hread x (List.mem_append_right _ hx)⟩⟩
  obtain rfl := List.mem_singleton.mp hn
  exact hsmall _ hv

theorem LayerFields.legible_ofOperation {name : String} {op : Operation Single}
    (h : op.Describable) (hread : ∀ x ∈ (ofOperation name op).singles, x.ReadsBack) :
    (ofOperation name op).Legible := by
  have hsome : ∀ {d : TensorData}, d.Legible → ∀ d' ∈ some d, d'.Legible := by
    rintro d hd _ ⟨⟩
    exact hd
  cases op with
  | dense layer =>
    obtain ⟨hcheck,ha⟩ := h
    obtain ⟨hweights,hbias⟩ := TensorData.legible_of_addressable ha
      (by simp [(Dense.check_eq_ok_iff.mp hcheck).2,layer.shape_weights]) hread
    exact ⟨by simp [ofOperation],hsome hweights,hsome hbias⟩
  | convolution layer =>
    obtain ⟨hcheck,ha,hstride,hpadding,hgroups⟩ := h
    obtain ⟨hweights,hbias⟩ := TensorData.legible_of_addressable ha
      (by simp [(Convolution.check_eq_ok_iff.mp hcheck).2.2.2,layer.shape_weights]) hread
    refine ⟨fun a ha room => ?_,hsome hweights,hsome hbias⟩
    simp only [ofOperation,List.mem_cons,List.not_mem_nil,or_false] at ha
    rcases ha with rfl | rfl | rfl
    · exact Attribute.ofJson?_natural hgroups
    · exact Attribute.ofJson?_natural hpadding
    · exact Attribute.ofJson?_natural hstride
  | pooling layer =>
    obtain ⟨-,hsize,hstride,hpadding⟩ := h
    refine ⟨fun a ha room => ?_,by simp [ofOperation],by simp [ofOperation]⟩
    simp only [ofOperation,List.mem_cons,List.not_mem_nil,or_false] at ha
    rcases ha with rfl | rfl | rfl
    · exact Attribute.ofJson?_natural hpadding
    · exact Attribute.ofJson?_natural hsize
    · exact Attribute.ofJson?_natural hstride
  | responseNorm layer =>
    refine ⟨fun a ha room => ?_,by simp [ofOperation],by simp [ofOperation]⟩
    have hsingle : ∀ x ∈ [layer.alpha,layer.beta,layer.offset], x.ReadsBack := fun x hx =>
      hread x hx
    simp only [ofOperation,List.mem_cons,List.not_mem_nil,or_false] at ha
    rcases ha with rfl | rfl | rfl | rfl
    · exact Attribute.ofJson?_float (hsingle _ (by simp))
    · exact Attribute.ofJson?_float (hsingle _ (by simp))
    · exact Attribute.ofJson?_float (hsingle _ (by simp))
    · exact Attribute.ofJson?_natural h.2
  | relu => exact ⟨by simp [ofOperation],by simp [ofOperation],by simp [ofOperation]⟩
  | softmax => exact ⟨by simp [ofOperation],by simp [ofOperation],by simp [ofOperation]⟩
  | dropout rate =>
    refine ⟨fun a ha room => ?_,by simp [ofOperation],by simp [ofOperation]⟩
    obtain rfl := List.mem_singleton.mp ha
    exact Attribute.ofJson?_float (hread rate List.mem_cons_self)

mutual

theorem LayerSpecs.legible_ofLayers {layers : Layers Single} (h : layers.All Operation.Describable)
    (hread : (LayerSpecs.ofLayers layers).All fun f => ∀ x ∈ f.singles, x.ReadsBack) :
    (LayerSpecs.ofLayers layers).All LayerFields.Legible := by
  cases layers with
  | nil => trivial
  | single name op rest =>
    rw [LayerSpecs.ofLayers] at hread ⊢
    exact ⟨LayerFields.legible_ofOperation h.1 hread.1,trivial,
      LayerSpecs.legible_ofLayers h.2 hread.2.2⟩
  | block name branches rest =>
    rw [LayerSpecs.ofLayers] at hread ⊢
    exact ⟨⟨by simp,by simp,by simp⟩,BranchSpecs.legible_ofBranches h.1 hread.2.1,
      LayerSpecs.legible_ofLayers h.2 hread.2.2⟩

theorem BranchSpecs.legible_ofBranches {branches : Branches Single}
    (h : branches.All Operation.Describable)
    (hread : (BranchSpecs.ofBranches branches).All fun f => ∀ x ∈ f.singles, x.ReadsBack) :
    (BranchSpecs.ofBranches branches).All LayerFields.Legible := by
  cases branches with
  | nil => trivial
  | cons name layers rest =>
    rw [BranchSpecs.ofBranches] at hread ⊢
    exact ⟨LayerSpecs.legible_ofLayers h.1 hread.1,BranchSpecs.legible_ofBranches h.2 hread.2⟩

end

mutual

theorem LayerSpecs.All.mp {p q : LayerFields → Prop} (specs : LayerSpecs)
    (h : specs.All fun f => p f → q f) (hp : specs.All p) : specs.All q := by
  cases specs with
  | nil => trivial
  | cons f branches rest =>
    exact ⟨h.1 hp.1,BranchSpecs.All.mp branches h.2.1 hp.2.1,LayerSpecs.All.mp rest h.2.2 hp.2.2⟩

theorem BranchSpecs.All.mp {p q : LayerFields → Prop} (specs : BranchSpecs)
    (h : specs.All fun f => p f → q f) (hp : specs.All p) : specs.All q := by
  cases specs with
  | nil => trivial
  | cons name layers rest =>
    exact ⟨LayerSpecs.All.mp layers h.1 hp.1,BranchSpecs.All.mp rest h.2 hp.2⟩

end

namespace Network

variable {t : String} {net : Network Single}

theorem ofText_eq_ok_iff : ofText t = .ok net ↔ ∃ j d, Json.ofText? t = some j ∧
    Description.ofJson? j = some d ∧ d.toNetwork = .ok net := by
  unfold ofText
  cases hj : Json.ofText? t with
  | none => simp
  | some j =>
    cases hd : Description.ofJson? j with
    | none => simp [hd]
    | some d => simp [hd]

theorem describable_of_ofText (h : ofText t = .ok net) :
    (∀ n ∈ net.inputShape, n < 2 ^ (64 : ℕ)) ∧ net.layers.All Operation.Describable := by
  obtain ⟨j,d,-,hd,hnet⟩ := ofText_eq_ok_iff.mp h
  obtain ⟨hshape,hlayers⟩ := Description.storable_of_ofJson? hd
  rw [(Description.toNetwork_eq_ok_iff.mp hnet).2.1]
  exact ⟨hshape,Description.describable_of_toNetwork hlayers hnet⟩

theorem ofText?_toText (net : Network Single) :
    Json.ofText? net.toText = some (Description.ofNetwork net).toJson :=
  (Description.ofNetwork net).wellFormed_toJson.ofText?_pretty

theorem ofText_toText_of_describable (hshape : ∀ n ∈ net.inputShape, n < 2 ^ (64 : ℕ))
    (hlayers : net.layers.All Operation.Describable)
    (hread : (Description.ofNetwork net).layers.All fun f => ∀ x ∈ f.singles, x.ReadsBack)
    (hheight : (Description.ofNetwork net).height ≤ nestingLimit) : ofText net.toText = .ok net :=
  ofText_eq_ok_iff.mpr ⟨_,_,ofText?_toText net,Description.ofJson?_toJson_of_legible hshape
    (LayerSpecs.legible_ofLayers hlayers hread) hheight,
    Description.toNetwork_ofNetwork_of_all hlayers⟩

theorem ofText_toText_of_not (h : ¬((Description.ofNetwork net).layers.All LayerFields.IsFinite ∧
    (Description.ofNetwork net).height ≤ nestingLimit)) :
    ofText net.toText = .error (.malformed .unreadable) := by
  have hnone : Description.ofJson? (Description.ofNetwork net).toJson = none := by
    rw [Option.eq_none_iff_forall_ne_some]
    exact fun d hd => h (Description.of_ofJson?_toJson hd)
  unfold ofText
  rw [ofText?_toText,Option.bind_some,hnone]

/-- A loaded network whose finite floats are read back is loaded again from its own text if all its
floats are finite and its document is not too deep; otherwise that text cannot be read. -/
theorem ofText_toText (h : ofText t = .ok net)
    (hread : (Description.ofNetwork net).layers.All fun f =>
      ∀ x ∈ f.singles, x.isFinite → x.ReadsBack) :
    ((Description.ofNetwork net).layers.All LayerFields.IsFinite →
      (Description.ofNetwork net).height ≤ nestingLimit → ofText net.toText = .ok net) ∧
    (¬((Description.ofNetwork net).layers.All LayerFields.IsFinite ∧
      (Description.ofNetwork net).height ≤ nestingLimit) →
        ofText net.toText = .error (.malformed .unreadable)) := by
  obtain ⟨hshape,hlayers⟩ := describable_of_ofText h
  refine ⟨fun hfinite hheight => ?_,ofText_toText_of_not⟩
  have hboth := LayerSpecs.all_of_forall (Description.ofNetwork net).layers
    (q := fun f => (∀ x ∈ f.singles, x.isFinite → x.ReadsBack) → f.IsFinite →
      ∀ x ∈ f.singles, x.ReadsBack) fun f hread hfinite x hx => hread x hx (hfinite x hx)
  exact ofText_toText_of_describable hshape hlayers (.mp _ (.mp _ hboth hread) hfinite) hheight

/-- A weight inside a block that is stored, and one beyond the largest float that is not. -/
theorem ofText_toText_block : ∃ net overflowing : Network Single,
    ofText ("[\"n\",[1],[[\"b\",\"inception\",{},null,null,[[\"l\"," ++
      "[[\"f\",\"fully_connected\",{},[[1,1],[0.3]]]]]]]]]") = .ok net ∧
    ofText net.toText = .ok net ∧
    ofText "[\"n\",[1],[[\"f\",\"fully_connected\",{},[[1,1],[1e39]]]]]" = .ok overflowing ∧
    ofText overflowing.toText = .error (.malformed .unreadable) := by
  obtain ⟨net,hnet,h⟩ := Error.exists_of_any (p := fun net : Network Single =>
    decide ((Description.ofNetwork net).layers.All (fun f =>
      ∀ x ∈ f.singles, x.isFinite → x.ReadsBack) ∧
      (Description.ofNetwork net).layers.All LayerFields.IsFinite ∧
      (Description.ofNetwork net).height ≤ nestingLimit)) (x := ofText
        ("[\"n\",[1],[[\"b\",\"inception\",{},null,null,[[\"l\"," ++
          "[[\"f\",\"fully_connected\",{},[[1,1],[0.3]]]]]]]]]")) (by decide +kernel)
  obtain ⟨overflowing,hoverflowing,h'⟩ := Error.exists_of_any (p := fun net : Network Single =>
    decide ((Description.ofNetwork net).layers.All (fun f =>
      ∀ x ∈ f.singles, x.isFinite → x.ReadsBack) ∧
      ¬(Description.ofNetwork net).layers.All LayerFields.IsFinite)) (x := ofText
        "[\"n\",[1],[[\"f\",\"fully_connected\",{},[[1,1],[1e39]]]]]") (by decide +kernel)
  obtain ⟨hread,hfinite,hheight⟩ := of_decide_eq_true h
  obtain ⟨hread',hinfinite⟩ := of_decide_eq_true h'
  exact ⟨net,overflowing,hnet,(ofText_toText hnet hread).1 hfinite hheight,hoverflowing,
    (ofText_toText hoverflowing hread').2 fun hall => hinfinite hall.1⟩

end Network
end Sensitivity
