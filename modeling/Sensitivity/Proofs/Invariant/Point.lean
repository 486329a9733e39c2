import Sensitivity.Proofs.Inclusion.ResponseNorm
import Sensitivity.Proofs.Invariant.Layer
import Sensitivity.Proofs.Sound.Run

/-! Runs on single values. Bounds that hold one value each give bounds of this kind behind every
layer, and on the way back wherever the slopes at the input are unique. What they hold is what the
network gives at exact values, since bounds around these are all that a run stores. -/
namespace Sensitivity

namespace Bound

/-- A bound that holds one value. -/
def IsPoint (b : Bound ℝ) : Prop := b.lower = b.upper

variable {b : Bound ℝ} {v : ℝ}

namespace IsPoint

theorem eq_of_contains (h : b.IsPoint) (hv : b.Contains v) : v = b.lower :=
  le_antisymm (hv.2.trans h.ge) hv.1

theorem eq_point (h : b.IsPoint) (hv : b.Contains v) : b = point v := by
  rw [h.eq_of_contains hv,point]
  exact congrArg (Bound.mk b.lower) h.symm

theorem ordered (h : b.IsPoint) : b.ordered.IsPoint := by
  unfold Bound.ordered
  split
  · exact Eq.symm h
  · exact h

theorem square (h : b.IsPoint) : b.square.IsPoint := by
  obtain ⟨l,u⟩ := b
  obtain rfl : l = u := h
  unfold Bound.square
  split
  next hzero =>
    obtain rfl : l = 0 := le_antisymm hzero.1 hzero.2
    simp [IsPoint]
  next => simp [IsPoint]

theorem of_push {l : List ℝ} (h : ∀ w ∈ l, w = v) : (l.foldl push (point v)).IsPoint := by
  have hinside : (l.foldl push (point v)).Inside (point v) :=
    inside_of_push (contains_point v) fun w hw => h w hw ▸ contains_point v
  exact le_antisymm hinside.ordered (hinside.upper.trans hinside.lower)

end IsPoint
end Bound

namespace ResponseNorm

variable {alpha beta : ℝ} {x xj cs : Bound ℝ}

theorem isPoint_output (hx : x.IsPoint) (hc : cs.IsPoint) : (output x cs alpha beta).IsPoint := by
  refine Bound.IsPoint.of_push fun w hw => ?_
  obtain ⟨v,c,hv,hv',rfl⟩ := exists_outputAt_of_mem hx.le hc.le hw
  rw [hx.eq_of_contains hv,hc.eq_of_contains hv']

theorem isPoint_selfDerivative (hx : x.IsPoint) (hc : cs.IsPoint) :
    (selfDerivative x cs alpha beta).IsPoint := by
  refine Bound.IsPoint.of_push fun w hw => ?_
  obtain ⟨u,c,hu,hv,rfl⟩ := exists_selfAt_of_mem hx.square.le hc.le hw
  rw [hx.square.eq_of_contains hu,hc.eq_of_contains hv]

theorem isPoint_neighborDerivative (hj : xj.IsPoint) (hx : x.IsPoint) (hc : cs.IsPoint) :
    (neighborDerivative xj x cs alpha beta).IsPoint := by
  unfold neighborDerivative
  split
  next => exact Eq.refl 0
  next =>
    refine Bound.IsPoint.of_push fun w hw => ?_
    obtain ⟨p,q,c,hp,hq,hv,rfl⟩ := exists_neighborAt_of_mem hj.le hx.le hc.le hw
    rw [hj.eq_of_contains hp,hx.eq_of_contains hq,hc.eq_of_contains hv]

theorem isPoint_denominator (layer : ResponseNorm ℝ) {column : Array (Bound ℝ)}
    (h : ∀ b ∈ column, b.IsPoint) (c : ℕ) (skipped : List ℕ) :
    (layer.denominator (column.map Bound.square) c skipped).IsPoint := by
  have hsquares : ∀ j, ((column.map Bound.square).getD j 0).IsPoint := by
    intro j
    rw [Array.getD_eq_getD_getElem?,Array.getElem?_map]
    cases hget : column[j]? with
    | none => exact Eq.refl 0
    | some b => exact (h b (Array.mem_of_getElem? hget)).square
  have hsum : ((span (layer.window c (column.map Bound.square).size)).foldl (fun (s : Bound ℝ) j =>
      if j ∈ skipped then s else s.add ((column.map Bound.square).getD j 0)) 0).IsPoint := by
    refine List.foldlRecOn _ _ (Eq.refl 0) fun acc hacc j _ => ?_
    split
    · exact hacc
    · exact congrArg₂ (· + ·) hacc (hsquares j)
  exact congrArg (layer.offset + layer.alpha * ·) hsum

theorem isPoint_derivative (layer : ResponseNorm ℝ) {column : Array (Bound ℝ)}
    (h : ∀ b ∈ column, b.IsPoint) {c j : ℕ} (hc : c < column.size) (hj : j < column.size) :
    (layer.derivative column (column.map Bound.square) c j).IsPoint := by
  have hcell : ∀ k < column.size, (column.getD k 0).IsPoint := by
    intro k hk
    rw [Array.getD_eq_getD_getElem?,Array.getElem?_eq_getElem hk]
    exact h _ (Array.getElem_mem hk)
  unfold ResponseNorm.derivative
  by_cases hjc : j = c
  · rw [if_pos hjc]
    exact isPoint_selfDerivative (hcell c hc) (layer.isPoint_denominator h c [c])
  · rw [if_neg hjc]
    exact isPoint_neighborDerivative (hcell j hj) (hcell c hc) (layer.isPoint_denominator h c [c,j])

end ResponseNorm

theorem Softmax.isPoint_lane {n : ℕ} {x : ℕ → Bound ℝ} (h : ∀ k < n, (x k).IsPoint) {j : ℕ}
    (hj : j < n) : ((Softmax.lane ((List.range n).map x))[j]?.getD 0).IsPoint := by
  have hterm : ∀ k < n, Real.exp (x k).upper = Real.exp (x k).lower :=
    fun k hk => congrArg Real.exp (h k hk).symm
  have hothers : Softmax.others n (fun k => (x k).upper) j =
      Softmax.others n (fun k => (x k).lower) j :=
    congrArg₂ (· - ·) (Finset.sum_congr rfl fun k hk => hterm k (Finset.mem_range.mp hk))
      (hterm j hj)
  rw [Softmax.getElem?_lane x hj,Option.getD_some,hothers,h j hj]
  exact Bound.IsPoint.ordered (Eq.refl _)

namespace Bound

theorem isPoint_mul {a b : Bound ℝ} (ha : a.IsPoint) (hb : b.IsPoint) : (a.mul b).IsPoint := by
  obtain ⟨l,u⟩ := a
  obtain rfl : l = u := ha
  obtain ⟨v,w⟩ := b
  obtain rfl : v = w := hb
  simp [IsPoint,mul,corners]

theorem isPoint_contracted {n : ℕ} {x : ℕ → Bound ℝ} (h : ∀ k < n, (x k).IsPoint) (w : ℕ → ℝ) :
    (Interval.signSplit n x w).ordered.IsPoint := by
  refine IsPoint.ordered ?_
  have hsum : ∀ g : ℕ → ℝ, Interval.dotSum n (fun k => (x k).lower) g =
      Interval.dotSum n (fun k => (x k).upper) g := by
    intro g
    rw [Interval.dotSum_eq,Interval.dotSum_eq]
    exact Finset.sum_congr rfl fun k hk => congrArg (· * g k) (h k (Finset.mem_range.mp hk))
  exact congrArg₂ (· + ·) (hsum _) (hsum _).symm

/-- All rules take single values to single values. -/
theorem stable_isPoint : Stable IsPoint where
  point v := Eq.refl v
  add ha hb := congrArg₂ (· + ·) ha hb
  mul := isPoint_mul
  scale {b} h s := by
    obtain ⟨l,u⟩ := b
    obtain rfl : l = u := h
    simp [IsPoint,scale]
  weighted {b} h w := by
    unfold weighted
    split
    · exact congrArg (w * ·) h
    · exact congrArg (w * ·) (Eq.symm h)
  ordered h := h.ordered
  scaled {b} h s := by
    split
    · exact congrArg (· * s) h
    · exact congrArg (· * s) (Eq.symm h)
  divided h n _ := congrArg (· / (n : ℝ)) h
  rectified h := congrArg (max · 0) h
  contracted := isPoint_contracted
  greatest h := congrArg Scalar.greatest (List.map_congr_left h)
  lane h _ hj := Softmax.isPoint_lane h hj
  output {column} h layer b hb := by
    obtain ⟨c,hc,rfl⟩ := Array.mem_mapIdx.mp hb
    exact ResponseNorm.isPoint_output (h _ (Array.getElem_mem hc))
      (layer.isPoint_denominator h c [c])
  derivative h layer _ _ hc hj := layer.isPoint_derivative h hc hj

end Bound

namespace Interval

variable {x d : Interval ℝ} {v : Tensor ℝ} {row : ℕ}

theorem read_concrete (v : Tensor ℝ) {i : ℕ} (hi : i < v.shape.prod) :
    (concrete v).read i = Bound.point (v.read i) :=
  Tensor.read_map _ v hi

theorem all_isPoint_concrete (v : Tensor ℝ) : (concrete v).All Bound.IsPoint := by
  intro i hi
  rw [read_concrete v hi]
  exact Eq.refl _

theorem encloses_concrete (v : Tensor ℝ) : (concrete v).Encloses v := by
  refine ⟨rfl,fun i hi => ?_⟩
  rw [read_concrete v hi]
  exact Bound.contains_point _

theorem Encloses.eq_concrete (h : x.Encloses v) (hx : x.All Bound.IsPoint) : x = concrete v := by
  refine Tensor.ext_read h.1 fun i hi => ?_
  have hi' : i < v.shape.prod := h.1 ▸ hi
  rw [read_concrete v hi']
  exact (hx i hi).eq_point (h.2 i hi')

theorem EnclosesRow.index_eq (h : d.EnclosesRow row v) (hd : d.All Bound.IsPoint) :
    d.index 0 row = (.ok (concrete v) : Except (Error ℝ) (Interval ℝ)) := by
  obtain ⟨rows,hrows,hrow,hcells⟩ := h
  refine (Tensor.index_eq_ok_iff_read hrows).mpr ⟨hrow,rfl,fun i hi => ?_⟩
  have hposition : row * v.shape.prod + i < d.shape.prod := by
    rw [hrows]
    exact row_position_lt hrow hi
  rw [read_concrete v hi]
  exact ((hd _ hposition).eq_point (hcells i hi)).symm

end Interval

namespace PoolingTransform

variable {t : PoolingTransform} {c i j : ℕ}

/-- At exact values the cells that can hold the maximum of a window are its largest ones. -/
theorem mem_contenders_concrete (ht : t.Resolved ℝ) {x : Tensor ℝ}
    (hx : x.shape = t.input.toList) (hc : c < t.input.channels) {p : ℕ × ℕ} :
    p ∈ t.contenders (Interval.concrete x) c i j ↔ t.Routes x c i j (some p) := by
  have hcell : ∀ q ∈ t.under i j,
      (Interval.concrete x).at3 t.input.height t.input.width c q.1 q.2 =
        Bound.point (x.pixel t.input c q.1 q.2) := by
    intro q hq
    obtain ⟨⟨hy,hz⟩,-⟩ := mem_under.mp hq
    exact Interval.read_concrete x (hx ▸ ImageShape.position_lt hc hy hz)
  have hwindow : ∀ q : ℕ × ℕ, q ∈ t.window i j ↔ q ∈ t.under i j := fun _ => mem_window_iff ht
  rw [mem_contenders_iff fun _ _ => le_rfl]
  simp only [hwindow]
  refine and_congr_right fun hp => forall₂_congr fun q hq => ?_
  rw [hcell q hq,hcell p hp]
  rfl

theorem existsUnique_routes {x : Tensor ℝ} (hne : (t.under i j).Nonempty)
    (hinj : Set.InjOn (fun p : ℕ × ℕ => x.pixel t.input c p.1 p.2) (t.under i j)) :
    ∃! p, t.Routes x c i j (some p) := by
  obtain ⟨p,hp,hlargest⟩ :=
    (t.under i j).exists_max_image (fun p => x.pixel t.input c p.1 p.2) hne
  refine ⟨p,⟨hp,hlargest⟩,fun q ⟨hq,hlargest'⟩ => ?_⟩
  exact hinj hq hp (le_antisymm (hlargest q hq) (hlargest' p hp))

end PoolingTransform

namespace Transform

/-- The slopes of a layer at an input are unique: no rectifier meets zero, and each window of a
maximum has one largest cell. -/
def Regular (t : Transform ℝ) (x : Tensor ℝ) : Prop :=
  match t with
  | .relu => ∀ i < x.shape.prod, x.read i ≠ 0
  | .pooling t => t.layer.mode = .max → ∀ c < t.output.channels, ∀ i < t.output.height,
      ∀ j < t.output.width, ∃! q, t.Routes x c i j (some q)
  | _ => True

theorem eval_relu_of_nonneg {x : Tensor ℝ} (h : ∀ i < x.shape.prod, 0 ≤ x.read i) :
    Transform.relu.eval x = x := by
  refine Tensor.ext_read rfl fun i hi => ?_
  have hcell : (x.map (max · 0)).read i = max (x.read i) 0 := Tensor.read_map _ x hi
  exact hcell.trans (max_eq_left (h i hi))

theorem Fits.sharp_concrete {t : Transform ℝ} {shape out : List ℕ} (ht : t.Fits shape out)
    {x : Tensor ℝ} (hx : x.shape = shape) (h : t.Regular x) : t.Sharp (Interval.concrete x) := by
  cases t with
  | relu =>
    intro i hi
    have hi : i < x.shape.prod := hi
    rw [Interval.read_concrete x hi]
    exact (h i hi).lt_or_gt.symm
  | pooling t =>
    obtain ⟨ht,rfl,-⟩ := ht
    intro hmode c hc i hi j hj
    obtain ⟨q,hq,hunique⟩ := h hmode c hc i hi j hj
    have hnodup : (t.contenders (Interval.concrete x) c i j).Nodup :=
      (t.nodup_window i j).filter _
    have hperm : (t.contenders (Interval.concrete x) c i j).Perm [q] := by
      refine (List.perm_ext_iff_of_nodup hnodup (List.nodup_singleton q)).mpr fun p => ?_
      rw [PoolingTransform.mem_contenders_concrete ht hx (ht.output_channels ▸ hc),
        List.mem_singleton]
      exact ⟨hunique p,fun hp => hp ▸ hq⟩
    exact hperm.length_eq
  | dense t => trivial
  | convolution t => trivial
  | responseNorm t => trivial
  | softmax => trivial
  | dropout keep => trivial

end Transform

/-- A visit of a layer whose slopes at its input are unique. -/
def Visit.Regular (v : Visit) : Prop := ∀ t ∈ v.transform, t.Regular v.input

/-- A run on bounds has stored single values: the input of each node and the output that a run at
exact values meets. -/
structure Run.Evaluates (r : Run ℝ) (net : Network ℝ) (y : Tensor ℝ) (visits : List Visit) :
    Prop where
  kinds : visits.map Visit.kind = net.declared.map Declared.kind
  activation : ∀ k v, visits[k]? = some v → r.activation? k = some (Interval.concrete v.input)
  output : r.output = Interval.concrete y

/-- Single values whose row is a tensor. -/
def Interval.HasExactRow (d : Interval ℝ) (row : ℕ) (δ : Tensor ℝ) : Prop :=
  d.All Bound.IsPoint ∧ d.index 0 row = (.ok (concrete δ) : Except (Error ℝ) (Interval ℝ))

/-- A run on bounds has stored single values for the sensitivities, whose row is what a run at exact
values meets. -/
structure Run.Differentiates (r : Run ℝ) (row : ℕ) (ε : Tensor ℝ) (visits : List Visit) : Prop where
  derivative : ∀ k v, visits[k]? = some v →
    ∃ D, r.derivative? k = some D ∧ D.HasExactRow row v.sensitivity
  inputDerivative : r.inputDerivative.HasExactRow row ε

namespace Engine

variable {net : Network ℝ} {e : Engine ℝ} {S : Interval ℝ} {r : Run ℝ} {x y d δ ε : Tensor ℝ}
  {row : ℕ} {visits : List Visit}

theorem lt_nodeCount_of_getElem? (he : compile net = .ok e)
    (h : visits.map Visit.kind = net.declared.map Declared.kind) {k : ℕ} {v : Visit}
    (hv : visits[k]? = some v) : k < e.nodeCount := by
  have hlength := congrArg List.length h
  rw [List.length_map,List.length_map] at hlength
  rw [nodeCount_eq he]
  exact (List.getElem?_eq_some_iff.mp hv).1.trans_eq
    (hlength.trans (net.layers.length_declared _ _))

theorem preserves_isPoint (he : compile net = .ok e) (hwords : e.InWords) :
    ∀ entry ∈ e.listing, ∀ t ∈ entry.2, t.Preserves Bound.IsPoint := by
  rintro ⟨node,_⟩ hentry t ⟨⟩ _ _ hx hy
  have ht := (fits_of_compile he).fits_of_mem_listing hentry
  exact Bound.stable_isPoint.forward ((hwords _ hentry t rfl).hasArea ht) hx hy

theorem evaluates_of_runs (he : compile net = .ok e) (hwords : e.InWords)
    (hr : e.propagate (Interval.concrete x) S = .ok r) (hδ : S.EnclosesRow row δ)
    (hrun : net.layers.Runs x y δ ε visits) : r.Evaluates net y visits := by
  have hencloses := encloses_of_runs he hwords hr (Interval.encloses_concrete x) hδ hrun
  obtain ⟨houtput,hactivations⟩ := all_activations Bound.stable_isPoint.preserved he
    (preserves_isPoint he hwords) hr (Interval.all_isPoint_concrete x)
  refine ⟨hencloses.kinds,fun k v hv => ?_,hencloses.output.eq_concrete houtput⟩
  obtain ⟨A,hA,hinput⟩ := hencloses.activation k v hv
  obtain ⟨A',hA',hpoints⟩ := hactivations k (lt_nodeCount_of_getElem? he hencloses.kinds hv)
  obtain rfl := Option.some.inj (hA.symm.trans hA')
  rw [hA,hinput.eq_concrete hpoints]

theorem sharp_of_regular (he : compile net = .ok e) (hwords : e.InWords)
    (hr : e.propagate (Interval.concrete x) S = .ok r) (hδ : S.EnclosesRow row δ)
    (hrun : net.layers.Runs x y δ ε visits) (hregular : ∀ v ∈ visits, v.Regular) {id : ℕ}
    {node : Node} {t : Transform ℝ} {a : Interval ℝ} (hentry : e.listing[id]? = some (node,some t))
    (ha : r.activation? id = some a) : t.Sharp a := by
  obtain ⟨-,-,activations,log,hcovered,-⟩ :=
    exists_covered he hwords hr (Interval.encloses_concrete x) hδ hrun
  have hevaluates := evaluates_of_runs he hwords hr hδ hrun
  have htransform : (visits.map Visit.transform)[id]? = some (some t) := by
    rw [hcovered.transforms,List.getElem?_map,hentry]
    rfl
  rw [List.getElem?_map,Option.map_eq_some_iff] at htransform
  obtain ⟨v,hv,ht⟩ := htransform
  obtain ⟨_,_,hwithin⟩ := hcovered.exists_entry hv
  obtain rfl := Option.some.inj (ha.symm.trans (hevaluates.activation id v hv))
  exact (hwithin.fits t ht).sharp_concrete rfl (hregular v (List.mem_of_getElem? hv) t ht)

theorem differentiates_of_runs (he : compile net = .ok e) (hwords : e.InWords)
    (hr : e.propagate (Interval.concrete x) S = .ok r) (hS : S.All Bound.IsPoint)
    (hδ : S.EnclosesRow row δ) (hrun : net.layers.Runs x y δ ε visits)
    (hregular : ∀ v ∈ visits, v.Regular) : r.Differentiates row ε visits := by
  have hstable := Bound.stable_isPoint
  have hencloses := encloses_of_runs he hwords hr (Interval.encloses_concrete x) hδ hrun
  obtain ⟨hinput,hderivatives⟩ := all_derivatives hstable.preserved he
    (preserves_isPoint he hwords) hr (Interval.all_isPoint_concrete x) hS
    fun id node t a hentry hstored ha d f hd hf => by
      have ht := (fits_of_compile he).fits_of_mem_listing (List.mem_of_getElem? hentry)
      exact hstable.backward ht ha (.inr (sharp_of_regular he hwords hr hδ hrun hregular hentry
        hstored)) hd hf
  refine ⟨fun k v hv => ?_,hinput,hencloses.inputDerivative.index_eq hinput⟩
  obtain ⟨D,hD,hrow⟩ := hencloses.derivative k v hv
  obtain ⟨D',hD',hpoints⟩ := hderivatives k (lt_nodeCount_of_getElem? he hencloses.kinds hv)
  obtain rfl := Option.some.inj (hD.symm.trans hD')
  exact ⟨D,hD,hpoints,hrow.index_eq hpoints⟩

/-- Propagating single values runs the network at these values. A seed has a first row, and for
each of its rows the network has a run; every run meets the values that were stored on the way
forward, and where its slopes are unique also those that were stored on the way back. -/
theorem propagate_concrete (he : compile net = .ok e) (hwords : e.InWords)
    (hr : e.propagate (Interval.concrete x) (Interval.concrete d) = .ok r) :
    (∃ δ, d.index 0 0 = (.ok δ : Except (Error ℝ) (Tensor ℝ))) ∧
    ∀ row δ, d.index 0 row = (.ok δ : Except (Error ℝ) (Tensor ℝ)) →
      (∃ y ε visits, net.layers.Runs x y δ ε visits) ∧
        ∀ y ε visits, net.layers.Runs x y δ ε visits → r.Evaluates net y visits ∧
          ((∀ v ∈ visits, v.Regular) → r.Differentiates row ε visits) := by
  refine ⟨?_,fun row δ hrow => ?_⟩
  · obtain ⟨-,⟨rows,hrows,hshape⟩,-⟩ := propagate_eq_ok_iff.mp hr
    have hshape : d.shape = rows :: e.outputShape := hshape
    exact ⟨_,(Tensor.index_eq_ok_iff_read hshape).mpr ⟨Nat.pos_of_ne_zero hrows,
      Tensor.shape_ofFn _ _,fun i hi => Tensor.read_ofFn _ (fun i => d.read (0 * _ + i)) hi⟩⟩
  · have hδ := (Interval.encloses_concrete d).enclosesRow hrow
    refine ⟨exists_runs he hwords hr (Interval.encloses_concrete x) hδ,fun y ε visits hrun => ?_⟩
    exact ⟨evaluates_of_runs he hwords hr hδ hrun,
      differentiates_of_runs he hwords hr (Interval.all_isPoint_concrete d) hδ hrun⟩

/-- A rectifier and the maximum of four different positive values. -/
theorem propagate_concrete_window : ∃ (net : Network ℝ) (e : Engine ℝ) (r : Run ℝ)
    (x δ y ε : Tensor ℝ) (visits : List Visit), compile net = .ok e ∧ e.nodeCount = 2 ∧ e.InWords ∧
      e.propagate (Interval.concrete x) (Interval.concrete (Tensor.fill [1,1,1,1] 1)) = .ok r ∧
      (Tensor.fill [1,1,1,1] (1 : ℝ)).index 0 0 = (.ok δ : Except (Error ℝ) (Tensor ℝ)) ∧
      net.layers.Runs x y δ ε visits ∧ (∀ v ∈ visits, v.Regular) ∧ r.Evaluates net y visits ∧
      r.Differentiates 0 ε visits := by
  let pool : Transform ℝ := .pooling ⟨⟨.max,2,1,0⟩,⟨1,2,2⟩,⟨1,1,1⟩⟩
  have hpool : (Operation.pooling ⟨.max,2,1,0⟩).onShape [1,2,2] = pool := by
    simp [Operation.onShape,Window.number,pool]
  let net : Network ℝ := ⟨"n",[1,2,2],.single "a" .relu (.single "p" (.pooling ⟨.max,2,1,0⟩) .nil)⟩
  let x : Tensor ℝ := Tensor.ofFn [1,2,2] fun i => (i : ℝ) + 1
  let d : Tensor ℝ := Tensor.fill [1,1,1,1] 1
  obtain ⟨e,he,hwords⟩ : ∃ e, compile net = .ok e ∧ e.InWords :=
    exists_compile (by decide +kernel)
  obtain ⟨_,r,he',hr⟩ : ∃ e' r, compile net = .ok e' ∧
      e'.propagate (Interval.concrete x) (Interval.concrete d) = .ok r :=
    exists_run_of_isOk (by decide +kernel)
  obtain rfl := Except.ok.inj (he.symm.trans he')
  obtain ⟨⟨δ,hδ⟩,hrows⟩ := propagate_concrete he hwords hr
  obtain ⟨⟨y,ε,visits,hrun⟩,hall⟩ := hrows 0 δ hδ
  obtain ⟨hevaluates,hdifferentiates⟩ := hall y ε visits hrun
  have hread : ∀ i < 4, x.read i = (i : ℝ) + 1 := fun i hi => Tensor.read_ofFn _ _ hi
  have hpositive : ∀ i < 4, 0 < x.read i := fun i hi => by rw [hread i hi]; positivity
  have hrelu : Transform.relu.eval x = x :=
    Transform.eval_relu_of_nonneg fun i hi => (hpositive i hi).le
  have hpixel : ∀ y < 2, ∀ z < 2, x.pixel ⟨1,2,2⟩ 0 y z = ((0 * 2 + y) * 2 + z : ℕ) + 1 :=
    fun y hy z hz => hread _ (show (0 * 2 + y) * 2 + z < 4 by omega)
  have hlargest : pool.Regular x := by
    intro _ c hc i hi j hj
    obtain rfl := Nat.lt_one_iff.mp hc
    obtain rfl := Nat.lt_one_iff.mp hi
    obtain rfl := Nat.lt_one_iff.mp hj
    refine PoolingTransform.existsUnique_routes ⟨(1,1),by decide⟩ fun p hp q hq hpq => ?_
    obtain ⟨hy,hz⟩ : p.1 < 2 ∧ p.2 < 2 := (PoolingTransform.mem_under.mp hp).1
    obtain ⟨hy',hz'⟩ : q.1 < 2 ∧ q.2 < 2 := (PoolingTransform.mem_under.mp hq).1
    have hsame : ((0 * 2 + p.1) * 2 + p.2 : ℕ) + (1 : ℝ) = ((0 * 2 + q.1) * 2 + q.2 : ℕ) + 1 :=
      (hpixel _ hy _ hz).symm.trans (hpq.trans (hpixel _ hy' _ hz'))
    have hposition : (0 * 2 + p.1) * 2 + p.2 = (0 * 2 + q.1) * 2 + q.2 :=
      Nat.cast_injective (add_right_cancel hsame)
    exact Prod.ext (by omega) (by omega)
  have hregular : ∀ v ∈ visits, v.Regular := by
    cases hrun with
    | single after reversed =>
    have hrelu : (Operation.relu : Operation ℝ).eval x = x := hrelu
    rw [hrelu] at after
    cases after with
    | single after' reversed' =>
    cases after'
    rw [List.forall_mem_cons,List.forall_mem_singleton]
    constructor
    · rintro _ ⟨⟩ i hi
      exact (hpositive i hi).ne'
    · rintro _ ⟨⟩
      exact hpool ▸ hlargest
  exact ⟨net,e,r,x,δ,y,ε,visits,he,nodeCount_eq he,hwords,hr,hδ,hrun,hregular,hevaluates,
    hdifferentiates hregular⟩

end Engine
end Sensitivity
