import Sensitivity.Proofs.Listing
import Sensitivity.Proofs.Word
import Sensitivity.Proofs.Description.RoundTrip

/-! Output extents. The number of windows along an axis comes from a quotient of its padded extent
and is recorded when a layer is compiled. It is the number of those that fit as long as every sum on
the way is a word. The attributes of a described layer leave room for its margins, but not for every
extent between them; once a padded extent is too large for a word, windows are lost. -/
namespace Sensitivity

variable {α : Type}

namespace Windows

/-- Positive strides, and numbers of which only the padded extents can be too large for a word. -/
structure Bounded (w : Windows) : Prop where
  stride_ne_zero : w.stride ≠ 0
  stride_lt : w.stride < Window.wordCount
  margins_lt : 2 * w.padding < Window.wordCount
  height_lt : w.height < Window.wordCount
  width_lt : w.width < Window.wordCount

/-- The output has a row and a column for each window that fits along the axes of the image. -/
def Fill (w : Windows) (image output : ImageShape) : Prop :=
  (Window.fitting image.height w.height w.stride w.padding).encard = output.height ∧
    (Window.fitting image.width w.width w.stride w.padding).encard = output.width

/-- A number that is found is right exactly if it was found within words. -/
theorem Bounded.encard_eq_iff {w : Windows} (hw : w.Bounded) {extent window n : ℕ}
    (hwindow : window < Window.wordCount)
    (hn : (Window.count extent window w.stride w.padding : Except (Error α) ℕ) = .ok n) :
    (Window.fitting extent window w.stride w.padding).encard = n ↔
      Window.InWords extent window w.stride w.padding := by
  constructor
  · intro heq
    by_contra hwords
    have hlt := (Window.undercounted_of_not_inWords hw.stride_ne_zero hw.stride_lt hwindow
      hw.margins_lt hwords).number n hn
    exact hlt.ne heq.symm
  · intro hwords
    exact (Window.counted_of_inWords hw.stride_ne_zero hwords).number n hn

end Windows

/-! ### Layers that can be described -/

theorem Operation.Describable.bounded {op : Operation Single} (h : op.Describable) {w : Windows}
    (hw : op.windows? = some w) : w.Bounded := by
  cases op with
  | convolution layer =>
    obtain ⟨hcheck,haddress,hstride,hpadding,-⟩ := h
    obtain rfl := Option.some.inj hw
    have hextent : ∀ n ∈ layer.weights.shape, n < Window.wordCount :=
      fun n hn => Window.lt_wordCount (haddress.mem_lt hn)
    rw [layer.shape_weights] at hextent
    exact ⟨(Convolution.check_eq_ok_iff.mp hcheck).2.1,Window.lt_wordCount hstride,
      Window.margins_lt_wordCount hpadding,hextent layer.height (by simp),
      hextent layer.width (by simp)⟩
  | pooling layer =>
    obtain ⟨hcheck,hsize,hstride,hpadding⟩ := h
    obtain rfl := Option.some.inj hw
    exact ⟨(Pooling.check_eq_ok_iff.mp hcheck).2.2.1,Window.lt_wordCount hstride,
      Window.margins_lt_wordCount hpadding,Window.lt_wordCount hsize,Window.lt_wordCount hsize⟩
  | _ => cases hw

variable [Scalar α]

theorem Transform.Resolves.exists_count {op : Operation α} {shape out : List ℕ} {t : Transform α}
    (h : Resolves op shape t out) {w : Windows} (hw : op.windows? = some w) :
    ∃ image output : ImageShape, shape = image.toList ∧ out = output.toList ∧
      (Window.count image.height w.height w.stride w.padding : Except (Error α) ℕ) =
        .ok output.height ∧
      (Window.count image.width w.width w.stride w.padding : Except (Error α) ℕ) =
        .ok output.width := by
  cases h with
  | @convolution t ht =>
    obtain rfl := Option.some.inj hw
    exact ⟨t.input,t.output,rfl,rfl,ht.output_height,ht.output_width⟩
  | @pooling t ht =>
    obtain rfl := Option.some.inj hw
    exact ⟨t.input,t.output,rfl,rfl,ht.output_height,ht.output_width⟩
  | _ => cases hw

/-- The node of a single layer has the shapes that its operation was resolved against. -/
def Declared.Resolved (d : Declared α) (entry : Node × Option (Transform α)) : Prop :=
  ∀ op, d.kind = .single op →
    ∃ t, Transform.Resolves op entry.1.inputShape t entry.1.outputShape

theorem Declared.resolved_block {path : String} {branches : Branches α} {depth : ℕ}
    {entry : Node × Option (Transform α)} :
    Declared.Resolved ⟨path,.block branches,depth⟩ entry := by
  intro op hop
  cases hop

mutual

theorem Layers.resolved_declared (layers : Layers α) {shape out : List ℕ} {parent : String}
    {depth : ℕ} {n m : Numbering} {plan : Plan α Node}
    (h : layers.compile shape parent depth n = .ok (plan,out,m)) :
    List.Forall₂ Declared.Resolved (layers.declared parent depth) plan.listing := by
  cases layers with
  | nil =>
    obtain ⟨rfl,-,-⟩ := Layers.compile_nil_eq_ok_iff.mp h
    exact .nil
  | single name op rest =>
    obtain ⟨t,middle,after,hfit,hrest,rfl⟩ := Layers.compile_single_eq_ok_iff.mp h
    have ht := Transform.resolves_of_ofOperation (Operation.fit_eq_ok hfit)
    refine .cons ?_ (rest.resolved_declared hrest)
    intro op' hop'
    cases hop'
    exact ⟨t,ht⟩
  | block name branches rest =>
    obtain ⟨image,plans,channels,k,after,-,hbranches,hrest,rfl⟩ :=
      Layers.compile_block_eq_ok_iff.mp h
    exact .cons Declared.resolved_block
      (List.rel_append (branches.resolved_declared hbranches) (rest.resolved_declared hrest))

theorem Branches.resolved_declared (branches : Branches α) {image : ImageShape} {parent : String}
    {depth channels : ℕ} {n m : Numbering} {plans : BranchPlans α Node}
    (h : branches.compile image parent depth n = .ok (plans,channels,m)) :
    List.Forall₂ Declared.Resolved (branches.declared parent depth) plans.listing := by
  cases branches with
  | nil =>
    obtain ⟨rfl,-,-⟩ := Branches.compile_nil_eq_ok_iff.mp h
    exact .nil
  | cons name layers rest =>
    obtain ⟨steps,width,k,after,others,hlayers,hrest,rfl,-⟩ :=
      Branches.compile_cons_eq_ok_iff.mp h
    exact List.rel_append (layers.resolved_declared hlayers) (rest.resolved_declared hrest)

end

theorem Engine.exists_resolves {net : Network α} {e : Engine α} (he : compile net = .ok e) {k : ℕ}
    {d : Declared α} (hk : net.declared[k]? = some d) {op : Operation α} (hop : d.kind = .single op) :
    ∃ node t, e.nodes[k]? = some node ∧
      Transform.Resolves op node.inputShape t node.outputShape := by
  obtain ⟨-,-,-,m,hplan⟩ := compile_eq_ok_iff.mp he
  have hresolved := net.layers.resolved_declared hplan
  obtain ⟨hlt,rfl⟩ := List.getElem?_eq_some_iff.mp hk
  have hlt' : k < e.listing.length := hresolved.length_eq ▸ hlt
  obtain ⟨t,ht⟩ := hresolved.get hlt hlt' op hop
  refine ⟨e.listing[k].1,t,?_,ht⟩
  rw [nodes,List.getElem?_map,List.getElem?_eq_getElem hlt']
  rfl

namespace Windows

/-- The attributes of a described convolution or pooling layer leave room in words for its margins,
but not for every extent between them. As long as the padded extent is a word, and so is the number
of its positions if empty windows stand at each of them, windows are counted exactly where one fits,
and it is their number. Otherwise at least one fits, and none are found, or too few. So the output
shape that is recorded for the layer in a compiled network is that of the windows exactly if no sum
along either axis left the words. -/
theorem counted_in_words {f : LayerFields} {op : Operation Single} {w : Windows}
    (hf : f.Storable) (hop : f.operation = .ok op) (hw : op.windows? = some w) :
    2 * w.padding < Window.wordCount ∧
    (∀ window ∈ [w.height,w.width], ∀ extent,
      (Window.InWords extent window w.stride w.padding ↔
        extent + 2 * w.padding < Window.wordCount ∧
        (window = 0 → w.stride = 1 → extent + 2 * w.padding + 1 < Window.wordCount)) ∧
      (Window.InWords extent window w.stride w.padding →
        Window.Counted Single extent window w.stride w.padding) ∧
      (¬ Window.InWords extent window w.stride w.padding →
        Window.Undercounted Single extent window w.stride w.padding)) ∧
    ∀ (net : Network Single) (e : Engine Single) (k : ℕ) (d : Declared Single),
      Engine.compile net = .ok e → net.declared[k]? = some d → d.kind = .single op →
      ∃ node image output, e.nodes[k]? = some node ∧ node.inputShape = ImageShape.toList image ∧
        node.outputShape = ImageShape.toList output ∧ (w.Fill image output ↔ w.InWords image) := by
  have hbounded := (LayerFields.describable_of_operation hf hop).bounded hw
  refine ⟨hbounded.margins_lt,fun window hwindow extent => ⟨?_,?_,?_⟩,?_⟩
  · exact Window.inWords_iff hbounded.stride_ne_zero hbounded.margins_lt
  · exact Window.counted_of_inWords hbounded.stride_ne_zero
  · refine Window.undercounted_of_not_inWords hbounded.stride_ne_zero hbounded.stride_lt ?_
      hbounded.margins_lt
    rcases List.mem_pair.mp hwindow with rfl | rfl
    · exact hbounded.height_lt
    · exact hbounded.width_lt
  · intro net e k d he hk hkind
    obtain ⟨node,t,hnode,hresolves⟩ := Engine.exists_resolves he hk hkind
    obtain ⟨image,output,hinput,houtput,hrows,hcolumns⟩ := hresolves.exists_count hw
    exact ⟨node,image,output,hnode,hinput,houtput,and_congr
      (hbounded.encard_eq_iff hbounded.height_lt hrows)
      (hbounded.encard_eq_iff hbounded.width_lt hcolumns)⟩

/-- Windows of one cell, with margins of `2 ^ 63 - 1` cells and as far apart. Between those margins
a single cell is still a padded extent in words. For three cells it is not: three windows fit and one
is recorded. -/
theorem counted_in_words_lost : ∃ (f : LayerFields) (op : Operation Single) (w : Windows)
    (net : Network Single) (e : Engine Single) (node : Node),
    f.Storable ∧ f.operation = .ok op ∧ op.windows? = some w ∧
      Window.Counted Single 1 w.height w.stride w.padding ∧
      Window.Undercounted Single 3 w.height w.stride w.padding ∧
      (Window.fitting 3 w.height w.stride w.padding).encard = 3 ∧
      net.layers = .single "c" op .nil ∧ Engine.compile net = .ok e ∧ e.nodes = [node] ∧
      node.inputShape = [1,3,3] ∧ node.outputShape = [1,1,1] ∧ ¬ w.Fill ⟨1,3,3⟩ ⟨1,1,1⟩ := by
  let w : Windows := ⟨1,1,9223372036854775807,9223372036854775807⟩
  let layer : Convolution Single := ⟨1,1,1,1,.fill [1,1,1,1] 1,rfl,#[0],
    9223372036854775807,9223372036854775807,1⟩
  let f : LayerFields := ⟨"c","convolutional",
    [("padding",.int 9223372036854775807),("stride",.int 9223372036854775807)],
    some ⟨[1,1,1,1],[1]⟩,none⟩
  let net : Network Single := ⟨"n",[1,3,3],.single "c" (.convolution layer) .nil⟩
  let node : Node := ⟨0,"c","convolutional",0,[1,3,3],[1,1,1],some 0⟩
  let e : Engine Single := ⟨"n",[1,3,3],[1,1,1],
    .layer node (.convolution ⟨layer,⟨1,3,3⟩,⟨1,1,1⟩⟩) .done⟩
  have hf : f.Storable := by
    intro key v hv
    obtain ⟨-,rfl⟩ | ⟨-,rfl⟩ : (key = "padding" ∧ v = 9223372036854775807) ∨
        (key = "stride" ∧ v = 9223372036854775807) := by simpa [f] using hv
    · decide
    · decide
  have hop : f.operation = .ok (.convolution layer) := by rfl
  have he : Engine.compile net = .ok e := by cbv
  obtain ⟨-,hwindow,hrecorded⟩ := counted_in_words (w := w) hf hop rfl
  obtain ⟨hiff,hcounted,-⟩ := hwindow w.height List.mem_cons_self 1
  obtain ⟨hiff',-,hlost⟩ := hwindow w.height List.mem_cons_self 3
  have hwords : ¬ Window.InWords 3 w.height w.stride w.padding :=
    fun h => absurd (hiff'.mp h).1 (by decide)
  have hthree : (Window.fitting 3 w.height w.stride w.padding).encard = 3 := by
    rw [Window.encard_fitting (by decide) (show w.height ≤ 3 + 2 * w.padding by decide)]
    norm_num [w]
  obtain ⟨_,image,output,hnode,hinput,houtput,hfill⟩ := hrecorded net e 0 _ he rfl rfl
  obtain rfl : node = _ := Option.some.inj hnode
  obtain rfl : (⟨1,3,3⟩ : ImageShape) = image := ImageShape.toList_injective hinput
  obtain rfl : (⟨1,1,1⟩ : ImageShape) = output := ImageShape.toList_injective houtput
  exact ⟨f,_,w,net,e,node,hf,hop,rfl,hcounted (hiff.mpr (by decide)),hlost hwords,hthree,rfl,he,rfl,
    rfl,rfl,fun h => hwords (hfill.mp h).1⟩

end Windows
end Sensitivity
