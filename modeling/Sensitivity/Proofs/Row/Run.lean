import Sensitivity.Proofs.Maximum
import Sensitivity.Proofs.Row.Layer
import Sensitivity.Proofs.Shape.Indicator

/-! Rows of seeds in whole runs. A run with a seed of several rows is, row by row, the runs with
each row alone; the activations are the same in all of them, since no seed reaches them. -/
namespace Sensitivity

variable {α ν : Type} [Scalar α]

/-- A passage with one row of the sensitivities alone. -/
structure Passage.HasRow (b : ℕ) (p p' : Passage α ν) : Prop where
  note : p'.note = p.note
  input : p'.input = p.input
  output : p'.output = p.output
  sensitivity : p.sensitivity.HasRow b p'.sensitivity
  returned : p.returned.HasRow b p'.returned

theorem exists_addReturned_row {total total' : Option (Interval α)} {e e' sum : Interval α} {b : ℕ}
    (htotal : Option.Rel (Interval.HasRow · b ·) total total') (he : e.HasRow b e')
    (h : addReturned total e = .ok sum) :
    ∃ sum', addReturned total' e' = .ok sum' ∧ sum.HasRow b sum' := by
  cases htotal with
  | none =>
    obtain rfl := Except.ok.inj h
    exact ⟨e',rfl,he⟩
  | some ht => exact ht.exists_add he h

mutual

/-- Each row passes through fitted layers on its own. -/
theorem Plan.Fits.exists_row {plan : Plan α Node} {shape out : List ℕ} (hfits : plan.Fits shape out)
    {rows b : ℕ} {x y d d' e : Interval α} {passages : List (Passage α Node)}
    (h : plan.Passes x y d e passages) (hx : x.shape = shape) (hd : d.shape = rows :: out)
    (hrow : d.HasRow b d') :
    ∃ e' passages', plan.Passes x y d' e' passages' ∧ e.HasRow b e' ∧
      List.Forall₂ (Passage.HasRow b) passages passages' := by
  cases plan with
  | done =>
    cases hfits
    cases h
    exact ⟨d',[],.done _ _,hrow,.nil⟩
  | layer node t rest =>
    cases hfits with
    | layer ht hrest =>
    cases h with
    | layer hz hafter he =>
    obtain ⟨f',passages',hpasses,hf,hall⟩ :=
      hrest.exists_row hafter (ht.shape_forward hz hx) hd hrow
    obtain ⟨e',he',hrow'⟩ := ht.exists_backward_row hf he
    exact ⟨e',_,.layer hz hpasses he',hrow',.cons ⟨rfl,rfl,rfl,hf,hrow'⟩ hall⟩
  | block node branches rest =>
    cases hfits with
    | block hinside hinput houtput hrest =>
    cases h with
    | block hsplit hz hafter =>
    have hzshape := (hinside.shape_merged hsplit (hx.trans hinput) hz).1.trans houtput.symm
    obtain ⟨hf,-⟩ := hrest.shapes hafter hzshape hd
    obtain ⟨f',passages',hpasses,hfrow,hall⟩ := hrest.exists_row hafter hzshape hd hrow
    obtain ⟨last,nested,hnested,hlast,hinsideAll⟩ := hinside.exists_row hsplit (hx.trans hinput)
      (hf.trans (by rw [houtput])) hfrow .none
    cases hlast with
    | some he =>
    exact ⟨_,_,.block hnested hz hpasses,he,
      .cons ⟨rfl,rfl,rfl,hfrow,he⟩ (List.rel_append hinsideAll hall)⟩

theorem BranchPlans.Fits.exists_row {branches : BranchPlans α Node} {image : ImageShape}
    {channels : ℕ} (hfits : branches.Fits image channels) {rows b limit offset : ℕ}
    {x d d' : Interval α} {total total' last : Option (Interval α)} {outputs : List (Interval α)}
    {passages : List (Passage α Node)}
    (h : branches.Passes x d offset total outputs last passages) (hx : x.shape = image.toList)
    (hd : d.shape = [rows,limit,image.height,image.width]) (hrow : d.HasRow b d')
    (htotal : Option.Rel (Interval.HasRow · b ·) total total') :
    ∃ last' passages', branches.Passes x d' offset total' outputs last' passages' ∧
      Option.Rel (Interval.HasRow · b ·) last last' ∧
      List.Forall₂ (Passage.HasRow b) passages passages' := by
  cases branches with
  | done =>
    cases hfits
    cases h
    exact ⟨total',[],.done _ _ _ _,htotal,.nil⟩
  | branch steps width rest =>
    cases hfits with
    | branch hsteps hrest =>
    cases h with
    | branch hpart hfirst hadded hothers =>
    have hpartShape := Tensor.shape_of_slice hpart hd
    rw [Nat.add_sub_cancel_left] at hpartShape
    obtain ⟨part',hpart',hpartRow⟩ := hrow.exists_slice hd hpart
    obtain ⟨e',inside,hinside,he,hinsideAll⟩ := hsteps.exists_row hfirst hx hpartShape hpartRow
    obtain ⟨sum',hsum',hsum⟩ := exists_addReturned_row htotal he hadded
    obtain ⟨last',later,hlater,hlast,hall⟩ := hrest.exists_row hothers hx hd hrow (.some hsum)
    exact ⟨last',_,.branch hpart' hinside hsum' hlater,hlast,List.rel_append hinsideAll hall⟩

end

mutual

/-- What is met on the way forward does not depend on the sensitivity. -/
theorem Plan.forward_unique (plan : Plan α ν) {x y y' d d' e e' : Interval α}
    {passages passages' : List (Passage α ν)} (h : plan.Passes x y d e passages)
    (h' : plan.Passes x y' d' e' passages') :
    y' = y ∧ passages'.map (·.input) = passages.map (·.input) := by
  cases plan with
  | done =>
    cases h
    cases h'
    exact ⟨rfl,rfl⟩
  | layer note t rest =>
    cases h with
    | layer hz hafter _ =>
    cases h' with
    | layer hz' hafter' _ =>
    obtain rfl := Except.ok.inj (hz.symm.trans hz')
    obtain ⟨rfl,hinputs⟩ := rest.forward_unique hafter hafter'
    exact ⟨rfl,by rw [List.map_cons,List.map_cons,hinputs]⟩
  | block note branches rest =>
    cases h with
    | block hsplit hz hafter =>
    cases h' with
    | block hsplit' hz' hafter' =>
    obtain ⟨rfl,hinside⟩ := branches.forward_unique hsplit hsplit'
    obtain rfl := Except.ok.inj (hz.symm.trans hz')
    obtain ⟨rfl,hinputs⟩ := rest.forward_unique hafter hafter'
    exact ⟨rfl,by simp only [List.map_cons,List.map_append,hinside,hinputs]⟩

theorem BranchPlans.forward_unique (branches : BranchPlans α ν) {x d d' : Interval α}
    {offset offset' : ℕ} {total total' last last' : Option (Interval α)}
    {outputs outputs' : List (Interval α)} {passages passages' : List (Passage α ν)}
    (h : branches.Passes x d offset total outputs last passages)
    (h' : branches.Passes x d' offset' total' outputs' last' passages') :
    outputs' = outputs ∧ passages'.map (·.input) = passages.map (·.input) := by
  cases branches with
  | done =>
    cases h
    cases h'
    exact ⟨rfl,rfl⟩
  | branch steps width rest =>
    cases h with
    | branch _ hfirst _ hothers =>
    cases h' with
    | branch _ hfirst' _ hothers' =>
    obtain ⟨rfl,hinside⟩ := steps.forward_unique hfirst hfirst'
    obtain ⟨rfl,hinputs⟩ := rest.forward_unique hothers hothers'
    exact ⟨rfl,by simp only [List.map_append,hinside,hinputs]⟩

end

theorem Transform.Fits.contribution_row {t : Transform α} {shape out : List ℕ}
    (ht : t.Fits shape out) {x d d' : Interval α} {rows b : ℕ} (h : d.HasRow b d')
    (hd : d.shape = rows :: out) {w : Tensor α} (hw : t.weights? = some w) {k : ℕ}
    (hk : k < w.shape.prod) : t.contribution x d' k 0 = t.contribution x d k b := by
  cases t with
  | dense t =>
    obtain ⟨-,-,rfl⟩ := ht
    obtain rfl := Option.some.inj hw
    obtain ⟨-,-,hread⟩ := (Interval.hasRow_iff hd).mp h
    have hout : 0 < t.layer.outputs := Nat.pos_of_ne_zero fun h0 => by
      simp [t.layer.shape_weights,h0] at hk
    simp only [List.prod_cons,List.prod_nil,Nat.mul_one] at hread
    simp only [contribution,Indicator.denseContribution,Nat.zero_mul,Nat.zero_add,
      hread _ (Nat.mod_lt k hout)]
  | convolution t =>
    obtain ⟨hresolved,-,rfl⟩ := ht
    obtain rfl := Option.some.inj hw
    simp only [contribution,Indicator.convolutionContribution]
    refine congrArg (Bound.scale · _) (List.foldl_ext _ _ _ ?_)
    rintro acc ⟨i,j⟩ hmem
    obtain ⟨hi,hj⟩ := mem_grid2.mp hmem
    have ho : k / t.layer.width / t.layer.height / t.layer.groupInputs < t.output.channels := by
      rw [hresolved.output_channels,Nat.div_div_eq_div_mul,Nat.div_div_eq_div_mul]
      refine Nat.div_lt_of_lt_mul ?_
      rw [t.layer.shape_weights] at hk
      calc k < [t.layer.outputs,t.layer.groupInputs,t.layer.height,t.layer.width].prod := hk
        _ = t.layer.width * (t.layer.height * t.layer.groupInputs) * t.layer.outputs := by
          simp only [List.prod_cons,List.prod_nil]
          ring
    simp only [Indicator.convolutionTerm,h.at4 hd ho hi hj]
  | pooling t => cases hw
  | responseNorm t => cases hw
  | relu => cases hw
  | softmax => cases hw
  | dropout keep => cases hw

namespace WeightedPassage

/-- The indicators that one row alone gives. -/
def rowIndicators (score : Bound α → α) (b : ℕ) (w : WeightedPassage α) : LayerIndicators α :=
  ⟨w.passage.note.path,Tensor.ofFn w.weights.shape fun k =>
    max 0 (score (w.transform.contribution w.passage.input w.passage.sensitivity k b))⟩

theorem read_rowIndicators (score : Bound α → α) (b : ℕ) (w : WeightedPassage α) {k : ℕ}
    (hk : k < w.weights.shape.prod) : (w.rowIndicators score b).values.read k =
      max 0 (score (w.transform.contribution w.passage.input w.passage.sensitivity k b)) :=
  Tensor.read_ofFn _ _ hk

end WeightedPassage

namespace Engine

variable {net : Network α} {e : Engine α} {passages passages' : List (Passage α Node)}

theorem map_indicators_row (he : compile net = .ok e) (hnotes : passages.map Passage.note = e.nodes)
    {rows b : ℕ} (hshaped : ∀ p ∈ passages, p.Shaped rows)
    (hrow : List.Forall₂ (Passage.HasRow b) passages passages') (score : Bound α → α) :
    (e.weightedPassages passages').map (WeightedPassage.indicators score 1) =
      (e.weightedPassages passages).map (WeightedPassage.rowIndicators score b) := by
  have hpairs := forall₂_weightedPassages hrow e
  refine List.ext_getElem (by simp [hpairs.length_eq]) fun k hk hk' => ?_
  rw [List.length_map] at hk hk'
  obtain ⟨hp,htransform,hweights⟩ := hpairs.get hk' hk
  simp only [List.get_eq_getElem] at hp htransform hweights
  rw [List.getElem_map,List.getElem_map]
  set w := (e.weightedPassages passages)[k]
  set w' := (e.weightedPassages passages')[k]
  obtain ⟨hmem,hw,hfits⟩ := fits_of_mem_weightedPassages he hnotes (List.getElem_mem hk')
  have hvalues : (Tensor.ofFn w.weights.shape fun k => Indicator.best score 1
      (w.transform.contribution w.passage.input w'.passage.sensitivity k)) =
      Tensor.ofFn w.weights.shape fun k =>
        max 0 (score (w.transform.contribution w.passage.input w.passage.sensitivity k b)) := by
    refine Tensor.ofFn_congr fun k hk => ?_
    rw [← hfits.contribution_row hp.sensitivity (hshaped _ hmem).sensitivity hw hk]
    rfl
  rw [WeightedPassage.indicators,WeightedPassage.rowIndicators,hp.note,hp.input,htransform,hweights,
    hvalues]

/-- The runs of an engine with all rows of a seed and with one of them alone. -/
structure RowRun (e : Engine α) (r : Run α) (b : ℕ) (r' : Run α) : Prop where
  output : r'.output = r.output
  inputDerivative :
    r.inputDerivative.slice 0 b (b + 1) = (.ok r'.inputDerivative : Except (Error α) _)
  nodes : ∀ id < e.nodeCount, ∃ a d d', r.activation? id = some a ∧ r'.activation? id = some a ∧
    r.derivative? id = some d ∧ r'.derivative? id = some d' ∧
    d.slice 0 b (b + 1) = (.ok d' : Except (Error α) _)

theorem exists_rowRun (he : compile net = .ok e) {x seed : Interval α} {r : Run α} {rows b : ℕ}
    (hr : e.propagate x seed = .ok r) (hseed : seed.shape = rows :: e.outputShape) (hb : b < rows)
    (hpasses : e.plan.Passes x r.output seed r.inputDerivative passages)
    (hnotes : passages.map Passage.note = e.nodes) (hstores : r.Stores passages)
    (hshaped : ∀ p ∈ passages, p.Shaped rows) :
    ∃ r', (∃ part, seed.slice 0 b (b + 1) = (.ok part : Except (Error α) _) ∧
        e.propagate x part = .ok r' ∧ e.RowRun r b r') ∧
      ∀ score, Indicators.compute score e r' =
        .ok ⟨(e.weightedPassages passages).map (WeightedPassage.rowIndicators score b)⟩ := by
  obtain ⟨hx,-⟩ := propagate_eq_ok_iff.mp hr
  obtain ⟨part,hpart⟩ := Interval.exists_hasRow hseed hb
  obtain ⟨d,passages',hpasses',hd,hall⟩ := (fits_of_compile he).exists_row hpasses hx hseed hpart
  obtain ⟨-,hpartShape,-⟩ := (Interval.hasRow_iff hseed).mp hpart
  obtain ⟨r',hr',houtput,rfl,hstores'⟩ :=
    exists_propagate_of_passes he hx Nat.one_ne_zero hpartShape hpasses'
  have hnotes' : passages'.map Passage.note = e.nodes := e.plan.map_note_of_passes hpasses'
  obtain ⟨-,hshaped'⟩ := (fits_of_compile he).shapes hpasses' hx hpartShape
  refine ⟨r',⟨part,Interval.slice_eq_ok_iff_hasRow.mpr hpart,hr',houtput,
    Interval.slice_eq_ok_iff_hasRow.mpr hd,fun id hid => ?_⟩,fun score => ?_⟩
  · obtain ⟨p,p',hrow,⟨hactivation,hderivative⟩,hactivation',hderivative'⟩ :=
      Run.exists_stored hall hnotes hstores hstores' hid
    exact ⟨_,_,_,hactivation,hrow.input ▸ hactivation',hderivative,hderivative',
      Interval.slice_eq_ok_iff_hasRow.mpr hrow.sensitivity⟩
  · rw [compute_eq_ok he hnotes' hstores' hshaped',map_indicators_row he hnotes hshaped hall]

theorem activations_unique (he : compile net = .ok e) {x seed seed' : Interval α} {r r' : Run α}
    (hr : e.propagate x seed = .ok r) (hr' : e.propagate x seed' = .ok r') :
    r'.output = r.output ∧ ∀ id < e.nodeCount, r'.activation? id = r.activation? id := by
  obtain ⟨passages,hpasses,-,hstores⟩ := exists_passes_of_propagate he hr
  obtain ⟨passages',hpasses',hnotes',hstores'⟩ := exists_passes_of_propagate he hr'
  obtain ⟨houtput,hinputs⟩ := e.plan.forward_unique hpasses hpasses'
  refine ⟨houtput,fun id hid => ?_⟩
  rw [← List.forall₂_eq_eq_eq,List.forall₂_map_left_iff,List.forall₂_map_right_iff] at hinputs
  obtain ⟨p',p,hinput,⟨hactivation',-⟩,hactivation,-⟩ :=
    Run.exists_stored hinputs hnotes' hstores' hstores hid
  rw [hactivation',hactivation,hinput]

end Engine

theorem Single.max_of_nonneg {x : Single} (y : Single) (hx : 0 ≤ x) :
    x ≤ Max.max x y ∧ Max.max 0 y ≤ Max.max x y ∧
      (Max.max x y = x ∨ Scalar.Same (Max.max x y) (Max.max 0 y)) := by
  obtain ⟨hzero,hnumber⟩ := isNumber_of_le hx
  rcases max_cases y hnumber with ⟨h,hle⟩ | ⟨h,hle⟩
  · rcases max_cases y hzero with ⟨h0,-⟩ | ⟨h0,hle0⟩
    · rw [h,h0]
      exact ⟨hnumber,hx,.inl rfl⟩
    · rw [h,h0]
      exact ⟨hnumber,hle (isNumber_of_le hle0).2,.inl rfl⟩
  · have hy := (isNumber_of_le hle).2
    rcases max_cases y hzero with ⟨h0,hle0⟩ | ⟨h0,-⟩
    · rw [h,h0]
      exact ⟨hle,Single.le_trans hx hle,.inr ⟨hle0 hy,Single.le_trans hx hle⟩⟩
    · rw [h,h0]
      exact ⟨hle,hy,.inr ⟨hy,hy⟩⟩

namespace Indicator

variable (score : Bound Single → Single) (contribution : ℕ → Bound Single)

theorem foldl_best_spec (l : List ℕ) {acc : Single} (hacc : 0 ≤ acc) :
    let last := l.foldl (fun best row => max best (score (contribution row))) acc
    acc ≤ last ∧ (∀ b ∈ l, max 0 (score (contribution b)) ≤ last) ∧
      (last = acc ∨ ∃ b ∈ l, Scalar.Same last (max 0 (score (contribution b)))) := by
  induction l generalizing acc with
  | nil => exact ⟨(Single.isNumber_of_le hacc).2,by simp,.inl rfl⟩
  | cons b l ih =>
    obtain ⟨hstep,hbelow,hcases⟩ := Single.max_of_nonneg (score (contribution b)) hacc
    obtain ⟨hgrows,habove,hreached⟩ := ih (Single.le_trans hacc hstep)
    refine ⟨Single.le_trans hstep hgrows,
      List.forall_mem_cons.mpr ⟨Single.le_trans hbelow hgrows,habove⟩,?_⟩
    rw [List.foldl_cons]
    rcases hreached with hreached | ⟨c,hc,hsame⟩
    · rw [hreached]
      exact hcases.imp_right fun hsame => ⟨b,List.mem_cons_self,hsame⟩
    · exact .inr ⟨c,List.mem_cons_of_mem b hc,hsame⟩

theorem best_rows {rows : ℕ} (hrows : rows ≠ 0) :
    (∀ b < rows, max 0 (score (contribution b)) ≤ best score rows contribution) ∧
      ∃ b < rows, Scalar.Same (best score rows contribution) (max 0 (score (contribution b))) := by
  have hzero : (0 : Single) ≤ 0 := by decide
  obtain ⟨-,habove,hreached⟩ := foldl_best_spec score contribution (List.range rows) hzero
  have habove : ∀ b < rows, max 0 (score (contribution b)) ≤ best score rows contribution :=
    fun b hb => habove b (List.mem_range.mpr hb)
  refine ⟨habove,?_⟩
  rcases hreached with hreached | ⟨b,hb,hsame⟩
  · have hfirst := habove 0 (Nat.pos_of_ne_zero hrows)
    have hbest : best score rows contribution = 0 := hreached
    rw [hbest] at hfirst ⊢
    exact ⟨0,Nat.pos_of_ne_zero hrows,(Single.max_of_nonneg _ hzero).1,hfirst⟩
  · exact ⟨b,List.mem_range.mp hb,hsame⟩

end Indicator

/-- Indicators of several rows are, weight by weight, the largest ones of the rows alone. -/
structure Indicators.IsMaximum (ind : Indicators Single) (rows : ℕ) (inds : ℕ → Indicators Single) :
    Prop where
  above : ∀ b < rows, List.Forall₂ (fun l l' => l'.path = l.path ∧
    l'.values.shape = l.values.shape ∧ ∀ k < l.values.size, l'.values.read k ≤ l.values.read k)
    ind.layers (inds b).layers
  reached : ∀ (n : ℕ) l, ind.layers[n]? = some l → ∀ k < l.values.size, ∃ b < rows, ∃ l',
    (inds b).layers[n]? = some l' ∧ Scalar.Same (l.values.read k) (l'.values.read k)

theorem Indicators.isMaximum_of_map (weighted : List (WeightedPassage Single))
    (score : Bound Single → Single) {rows : ℕ} (hrows : rows ≠ 0) :
    Indicators.IsMaximum ⟨weighted.map (WeightedPassage.indicators score rows)⟩ rows
      fun b => ⟨weighted.map (WeightedPassage.rowIndicators score b)⟩ := by
  refine ⟨fun b hb => ?_,fun n l hl k hk => ?_⟩
  · rw [List.forall₂_map_left_iff,List.forall₂_map_right_iff,List.forall₂_same]
    refine fun w _ => ⟨rfl,rfl,fun k hk => ?_⟩
    rw [Tensor.size_eq] at hk
    rw [w.read_indicators score rows hk,w.read_rowIndicators score b hk]
    exact (Indicator.best_rows score _ hrows).1 b hb
  · rw [List.getElem?_map] at hl
    obtain ⟨w,hw,rfl⟩ := Option.map_eq_some_iff.mp hl
    rw [Tensor.size_eq] at hk
    obtain ⟨b,hb,hsame⟩ := (Indicator.best_rows score
      (w.transform.contribution w.passage.input w.passage.sensitivity k) hrows).2
    refine ⟨b,hb,w.rowIndicators score b,by rw [List.getElem?_map,hw,Option.map_some],?_⟩
    rw [w.read_indicators score rows hk,w.read_rowIndicators score b hk]
    exact hsame

namespace Engine

/-- Rows of a seed never meet. In every finished run, each row of the seed alone makes a run with
the same activations and with that row of every sensitivity; the activations are the same whatever
the seed; and every indicator is the largest one of the rows alone. -/
theorem rows_never_meet {net : Network Single} {e : Engine Single} {x seed : Interval Single}
    {r : Run Single} (he : compile net = .ok e) (hr : e.propagate x seed = .ok r) :
    ∃ (rows : ℕ) (runs : ℕ → Run Single), rows ≠ 0 ∧ seed.shape = rows :: e.outputShape ∧
      (∀ b < rows, ∃ part, seed.slice 0 b (b + 1) = (.ok part : Except (Error Single) _) ∧
        e.propagate x part = .ok (runs b) ∧ e.RowRun r b (runs b)) ∧
      (∀ other r', e.propagate x other = .ok r' →
        r'.output = r.output ∧ ∀ id < e.nodeCount, r'.activation? id = r.activation? id) ∧
      ∀ score : Score, ∃ (ind : Indicators Single) (inds : ℕ → Indicators Single),
        Indicators.compute score.apply e r = .ok ind ∧
        (∀ b < rows, Indicators.compute score.apply e (runs b) = .ok (inds b)) ∧
        ind.IsMaximum rows inds := by
  obtain ⟨rows,passages,hrows,hseed,hpasses,hnotes,hstores,hshaped⟩ := shaped_of_propagate he hr
  have : Nonempty (Run Single) := ⟨r⟩
  choose! runs hruns hinds using fun b (hb : b < rows) =>
    exists_rowRun he hr hseed hb hpasses hnotes hstores hshaped
  refine ⟨rows,runs,hrows,hseed,hruns,fun _ _ => activations_unique he hr,fun score => ?_⟩
  exact ⟨_,_,compute_eq_ok he hnotes hstores hshaped score.apply,
    fun b hb => hinds b hb score.apply,Indicators.isMaximum_of_map _ score.apply hrows⟩

/-- Two rows through a convolution and a block with an empty branch. -/
theorem rows_never_meet_block : ∃ (net : Network Single) (e : Engine Single)
    (seed : Interval Single) (r : Run Single) (runs : ℕ → Run Single), compile net = .ok e ∧
      seed.shape = [2,2,1,1] ∧ e.propagate (Tensor.fill [1,1,1] ⟨0,1⟩) seed = .ok r ∧
      (∀ b < 2, e.RowRun r b (runs b)) ∧ ∃ (ind : Indicators Single) (inds : ℕ → Indicators Single),
        Indicators.compute Score.width.apply e r = .ok ind ∧ ind.IsMaximum 2 inds := by
  let net : Network Single := ⟨"n",[1,1,1],
    .single "c" (.convolution ⟨1,1,1,1,Tensor.fill [1,1,1,1] 1,rfl,#[0],1,0,1⟩)
      (.block "b" (.cons "l" .nil (.cons "r" (.single "a" .relu .nil) .nil)) .nil)⟩
  let seed : Interval Single := Tensor.ofFn [2,2,1,1] fun i => if i = 0 then ⟨0,1⟩ else ⟨1,1⟩
  obtain ⟨e,r,he,hr⟩ : ∃ e r, compile net = .ok e ∧
      e.propagate (Tensor.fill [1,1,1] ⟨0,1⟩) seed = .ok r := exists_run_of_isOk (by decide +kernel)
  obtain ⟨rows,runs,-,hshape,hruns,-,hscores⟩ := rows_never_meet he hr
  have hrows : rows = 2 := (List.cons.inj hshape).1.symm
  subst hrows
  obtain ⟨ind,inds,hind,-,hmaximum⟩ := hscores .width
  exact ⟨net,e,seed,r,runs,he,rfl,hr,fun b hb => (hruns b hb).choose_spec.2.2,ind,inds,hind,hmaximum⟩

end Engine
end Sensitivity
