import Sensitivity.Proofs.Cell
import Sensitivity.Proofs.Word
import Sensitivity.Proofs.Invariant.Run

/-! Properties of single bounds that layers keep. A property that the rules for single cells keep
holds of all cells behind a layer. On the way back a rectifier and a maximum widen what is passed
on, but only where the bound on their input leaves more than one slope open. -/
namespace Sensitivity

variable {α : Type} [Scalar α]

/-- A property that the rules for single cells keep. -/
structure Bound.Stable (P : Bound α → Prop) : Prop where
  point : ∀ v, P (.point v)
  add : ∀ {a b}, P a → P b → P (a.add b)
  mul : ∀ {a b}, P a → P b → P (a.mul b)
  scale : ∀ {b}, P b → ∀ s, P (b.scale s)
  weighted : ∀ {b}, P b → ∀ w, P (b.weighted w)
  ordered : ∀ {b}, P b → P b.ordered
  scaled : ∀ {b}, P b → ∀ s,
    P (if 0 ≤ s then ⟨b.lower * s,b.upper * s⟩ else ⟨b.upper * s,b.lower * s⟩)
  divided : ∀ {b}, P b → ∀ {n : ℕ}, n ≠ 0 → P ⟨b.lower / n,b.upper / n⟩
  rectified : ∀ {b}, P b → P ⟨max b.lower 0,max b.upper 0⟩
  contracted : ∀ {n} {x : ℕ → Bound α}, (∀ k < n, P (x k)) → ∀ w,
    P (Interval.signSplit n x w).ordered
  greatest : ∀ {l : List (Bound α)}, (∀ b ∈ l, P b) →
    P ⟨Scalar.greatest (l.map Bound.lower),Scalar.greatest (l.map Bound.upper)⟩
  lane : ∀ {n} {x : ℕ → Bound α}, (∀ k < n, P (x k)) → ∀ j < n,
    P ((Softmax.lane ((List.range n).map x))[j]?.getD 0)
  output : ∀ {column : Array (Bound α)}, (∀ b ∈ column, P b) → ∀ (layer : ResponseNorm α),
    ∀ b ∈ layer.outputs column, P b
  derivative : ∀ {column : Array (Bound α)}, (∀ b ∈ column, P b) → ∀ (layer : ResponseNorm α) c j,
    c < column.size → j < column.size →
      P (layer.derivative column (column.map Bound.square) c j)

variable {P : Bound α → Prop}

namespace Interval

variable {x y d e : Interval α} {image : ImageShape}

theorem all_iff_rel : x.All P ↔ Tensor.Rel (fun b _ => P b) x x :=
  ⟨fun h => ⟨rfl,h⟩,fun h => h.cells⟩

theorem all_of_rel (h : Tensor.Rel (fun b (_ : Bound α) => P b) x y) : x.All P :=
  fun i hi => h.cells i (h.shape ▸ hi)

theorem all_ofFn {shape : List ℕ} {f : ℕ → Bound α} (h : ∀ i < shape.prod, P (f i)) :
    All P (Tensor.ofFn shape f) :=
  all_of_rel (Tensor.rel_ofFn (g := f) h)

theorem all_fill (shape : List ℕ) {b : Bound α} (h : P b) : All P (Tensor.fill shape b) :=
  fun _ hi => (Tensor.read_fill shape b hi).symm ▸ h

theorem all_ofImage {cell : ℕ → ℕ → ℕ → Bound α} (h : ∀ c < image.channels, ∀ y < image.height,
    ∀ z < image.width, P (cell c y z)) : (ofImage image cell).All P :=
  have hrel : Tensor.Rel (fun b _ => P b) (ofImage image cell) (ofImage image cell) := rel_ofImage h
  all_of_rel hrel

theorem all_ofRows {rows : ℕ} {cell : ℕ → ℕ → ℕ → ℕ → Bound α}
    (he : ofRows rows image cell = .ok e) (h : ∀ b < rows, ∀ c < image.channels,
      ∀ y < image.height, ∀ z < image.width, P (cell b c y z)) : e.All P :=
  all_of_rel (rel_ofRows he he h)

namespace All

theorem cell (h : x.All P) (hzero : P 0) (i : ℕ) : P (x.read i) := (all_iff_rel.mp h).read hzero i

theorem map (h : x.All P) {f : Bound α → Bound α} (hf : ∀ b, P b → P (f b)) : All P (x.map f) :=
  all_of_rel ((all_iff_rel.mp h).map (g := f) fun b _ => hf b)

theorem addTensor (h : x.All P) (hP : Bound.Stable P) {v : Tensor α}
    (hy : x.addTensor v = .ok y) : y.All P :=
  all_of_rel ((all_iff_rel.mp h).zip (Tensor.rel_eq v)
    (fun _ _ s _ hb _ => hP.add hb (hP.point s)) hy hy)

theorem reshape (h : x.All P) {shape : List ℕ}
    (hy : x.reshape shape = (.ok y : Except (Error α) _)) : y.All P :=
  all_of_rel ((all_iff_rel.mp h).reshape hy hy)

theorem contract (h : x.All P) (hP : Bound.Stable P) {w : Tensor α} {lead : List ℕ}
    {k height columns : ℕ} (hx : x.shape = lead ++ [k]) (hw : w.shape = [height,columns])
    (hy : contract x w = .ok y) : y.All P := by
  obtain ⟨-,-,-,hshape,hcells⟩ := (contract_eq_ok_iff hx hw).mp hy
  intro i hi
  rw [hcells i (by simpa [hshape] using hi)]
  exact hP.contracted (fun j _ => h.cell (hP.point 0) _) _

end All
end Interval

namespace Rectifier

theorem stretched_lt {source target : List ℕ} (h : Stretches source target) {i : ℕ}
    (hi : i < target.prod) : Tensor.stretched source target i < source.prod := by
  induction source generalizing target i with
  | nil =>
    obtain rfl := List.length_eq_zero_iff.mp h.1.symm
    exact Nat.one_pos
  | cons a source ih =>
    obtain ⟨hlength,hextents⟩ := h
    cases target with
    | nil => cases hlength
    | cons b target =>
      rw [List.zip_cons_cons,List.forall_mem_cons] at hextents
      rw [List.prod_cons] at hi
      have hpos : 0 < target.prod := Nat.pos_of_ne_zero fun h0 => by simp [h0] at hi
      have hrest := ih ⟨Nat.succ.inj hlength,hextents.2⟩ (Nat.mod_lt i hpos)
      have hfirst : (if a = 1 then 0 else i / target.prod) < a := by
        split
        next ha => rw [ha]; exact Nat.one_pos
        next ha =>
          obtain rfl : a = b := hextents.1.resolve_right ha
          exact (Nat.div_lt_iff_lt_mul hpos).mpr hi
      exact Interval.row_position_lt hfirst hrest

end Rectifier

namespace Transform

/-- The bound on the input of a layer leaves one slope open for each cell: no rectifier touches
zero, and each window of a maximum has one cell that can hold it. -/
def Sharp (t : Transform α) (x : Interval α) : Prop :=
  match t with
  | .relu => ∀ i < x.shape.prod, 0 < (x.read i).lower ∨ (x.read i).upper < 0
  | .pooling t => t.layer.mode = .max → ∀ c < t.output.channels, ∀ i < t.output.height,
      ∀ j < t.output.width, (t.contenders x c i j).length = 1
  | _ => True

end Transform

namespace Bound.Stable

variable {x y d e : Interval α}

theorem zero (hP : Stable P) : P 0 := hP.point 0

section Dense

variable {t : DenseTransform α}

theorem dense_forward (hP : Stable P) (hx : x.All P) (hy : t.forward x = .ok y) : y.All P := by
  simp only [DenseTransform.forward,Error.bind_eq_ok_iff] at hy
  obtain ⟨z,hz,hy⟩ := hy
  have hflat : x.flatten.shape = [] ++ [x.shape.prod] := Tensor.shape_flatten x
  have hcells : Interval.All P x.flatten := fun i _ => hx.cell hP.zero i
  exact (hcells.contract hP hflat t.layer.shape_weights hz).addTensor hP hy

theorem dense_backward (hP : Stable P) (hd : d.All P) (he : t.backward d = .ok e) : e.All P := by
  simp only [DenseTransform.backward,Error.bind_eq_ok_iff,Interval.rowCount_eq_ok_iff] at he
  obtain ⟨rows,hrows,z,hz,he⟩ := he
  have hlead : d.shape = [rows] ++ [t.layer.outputs] := hrows
  exact (hd.contract hP hlead (Tensor.shape_ofFn _ _) hz).reshape he

end Dense

section Convolution

variable {t : ConvolutionTransform α}

theorem convolution_forward (hP : Stable P) (hx : x.All P) (hy : t.forward x = .ok y) :
    y.All P := by
  obtain ⟨-,rfl⟩ := ConvolutionTransform.forward_eq_ok_iff.mp hy
  have hcells : (Interval.ofImage t.output (t.forwardCell x)).All P := by
    refine Interval.all_ofImage fun o _ i _ j _ => ?_
    refine List.foldlRecOn _ _ (hP.point _) ?_
    rintro acc hacc ⟨ci,di,dj⟩ -
    simp only [ConvolutionTransform.forwardTap]
    split
    · exact hacc
    · split
      · exact hP.add hacc (hP.weighted (hx.cell hP.zero _) _)
      · exact hacc
  exact hcells.map fun _ => hP.ordered

theorem convolution_backward (hP : Stable P) (hd : d.All P) (he : t.backward d = .ok e) :
    e.All P := by
  obtain ⟨rows,-,he⟩ := ConvolutionTransform.backward_eq_ok_iff.mp he
  refine Interval.all_ofRows he fun row _ c _ y _ z _ => ?_
  refine List.foldlRecOn _ _ hP.zero ?_
  rintro acc hacc ⟨o,i,j⟩ -
  simp only [ConvolutionTransform.backwardTerm]
  split
  · exact hacc
  · split
    · exact hP.add hacc (hP.weighted (hd.cell hP.zero _) _)
    · exact hacc

end Convolution

section Pooling

variable {t : PoolingTransform}

theorem pooling_forward (hP : Stable P) (harea : t.layer.mode = .avg → t.area ≠ 0) (hx : x.All P)
    (hy : t.forward x = .ok y) : y.All P := by
  obtain ⟨-,rfl⟩ := PoolingTransform.forward_eq_ok_iff.mp hy
  refine Interval.all_ofImage fun c _ i _ j _ => ?_
  have hbounds : ∀ b ∈ t.windowBounds x c i j, P b := by
    intro b hb
    obtain ⟨p,-,rfl⟩ := List.mem_map.mp hb
    exact hx.cell hP.zero _
  unfold PoolingTransform.forwardCell
  cases hmode : t.layer.mode with
  | max => exact hP.greatest hbounds
  | avg =>
    refine hP.divided ?_ (harea hmode)
    exact List.foldlRecOn _ _ hP.zero fun acc hacc b hb => hP.add hacc (hbounds b hb)

theorem maxTerm (hP : Stable P) (hd : d.All P) {c i j : ℕ} (hc : c < t.output.channels)
    (hi : i < t.output.height) (hj : j < t.output.width)
    (hwiden : (∀ b, P b → P b.hullWithZero) ∨ (t.contenders x c i j).length = 1) {row y z : ℕ}
    {acc : Bound α} (hacc : P acc) : P (t.maxTerm (t.routes x) d row c y z acc (i,j)) := by
  have hcell : P (d.at4 t.output.channels t.output.height t.output.width row c i j) :=
    hd.cell hP.zero _
  simp only [PoolingTransform.maxTerm,PoolingTransform.routes_at3 x hc hi hj]
  split
  · refine hP.add hacc ?_
    split
    next => exact hcell
    next hlength => exact hwiden.resolve_right hlength _ hcell
  · exact hacc

theorem pooling_backward (hP : Stable P) (ht : t.Resolved α) (hd : d.All P)
    (hwiden : (∀ b, P b → P b.hullWithZero) ∨ (Transform.pooling t).Sharp x)
    (he : t.backward x d = .ok e) : e.All P := by
  obtain ⟨-,rows,-,he⟩ := PoolingTransform.backward_eq_ok_iff.mp he
  refine Interval.all_ofRows he fun row _ c hc y _ z _ => ?_
  unfold PoolingTransform.backwardCell
  refine List.foldlRecOn _ _ hP.zero ?_
  rintro acc hacc ⟨i,j⟩ hmem
  obtain ⟨hi,hj⟩ := mem_grid2.mp hmem
  rw [← ht.output_channels] at hc
  cases hmode : t.layer.mode with
  | max => exact hP.maxTerm hd hc hi hj (hwiden.imp_right fun h => h hmode c hc i hi j hj) hacc
  | avg =>
    simp only [PoolingTransform.avgTerm]
    split
    · exact hP.add hacc (hP.scale (hd.cell hP.zero _) _)
    · exact hacc

end Pooling

section ResponseNorm

variable {t : ResponseNormTransform α}

theorem column (hP : Stable P) (hx : x.All P) (p : ℕ) : ∀ b ∈ t.column x p, P b := by
  intro b hb
  obtain ⟨c,rfl⟩ := Array.mem_ofFn.mp hb
  exact hx.cell hP.zero _

theorem responseNorm_forward (hP : Stable P) (hx : x.All P) (hy : t.forward x = .ok y) :
    y.All P := by
  obtain ⟨-,rfl⟩ := ResponseNormTransform.forward_eq_ok_iff.mp hy
  refine Interval.all_ofImage fun c _ y hy z hz => ?_
  rw [ResponseNormTransform.getD_outputTable x (ImageShape.row_lt_area hy hz)]
  have hcells := hP.output (hP.column (t := t) hx (y * t.image.width + z)) t.layer
  rw [Array.getD_eq_getD_getElem?]
  cases hget : (t.layer.outputs (t.column x (y * t.image.width + z)))[c]? with
  | none => exact hP.zero
  | some b => exact hcells b (Array.mem_of_getElem? hget)

theorem responseNorm_backward (hP : Stable P) (hx : x.All P) (hd : d.All P)
    (he : t.backward x d = .ok e) : e.All P := by
  obtain ⟨-,rows,-,he⟩ := ResponseNormTransform.backward_eq_ok_iff.mp he
  refine Interval.all_ofRows he fun row _ j hj y hy z hz => ?_
  refine List.foldlRecOn _ _ hP.zero fun acc hacc c hc => ?_
  have hsize : (t.column x (y * t.image.width + z)).size = t.image.channels := Array.size_ofFn
  have hc := List.mem_range.mp hc
  simp only [ResponseNormTransform.backwardTerm]
  split
  · exact hacc
  · split
    next hwindow =>
      rw [ResponseNormTransform.getD_jacobianTable x (ImageShape.row_lt_area hy hz),
        ResponseNormTransform.getD_jacobian t.layer hsize hc hwindow]
      exact hP.add hacc (hP.mul (hd.cell hP.zero _)
        (hP.derivative (hP.column hx _) t.layer c j (hsize ▸ hc) (hsize ▸ hj)))
    · exact hacc

end ResponseNorm

theorem relu_backward (hP : Stable P) (hd : d.All P)
    (hwiden : (∀ b, P b → P b.hullWithZero) ∨ (Transform.relu : Transform α).Sharp x)
    (he : Rectifier.backward x d = .ok e) : e.All P := by
  obtain ⟨rows,shape,hshape,hstretches,rfl⟩ := Rectifier.backward_eq_ok_iff.mp he
  refine Interval.all_ofFn fun i hi => ?_
  have hpos : 0 < shape.prod := Nat.pos_of_ne_zero fun h0 => by simp [hshape,h0] at hi
  have hsource := Rectifier.stretched_lt hstretches (Nat.mod_lt i hpos)
  unfold Rectifier.slope
  split
  next => exact hd.cell hP.zero i
  next hpositive =>
    split
    next => exact hP.zero
    next hnegative =>
      rcases hwiden with hwiden | hsharp
      · exact hwiden _ (hd.cell hP.zero i)
      · exact ((hsharp _ hsource).elim hpositive hnegative).elim

theorem softmax_forward (hP : Stable P) (hx : x.All P) (hy : Softmax.forward x = .ok y) :
    y.All P := by
  obtain ⟨hshape,n,-,-,hcells⟩ := Softmax.read_of_forward hy
  intro i hi
  rw [hshape] at hi
  obtain ⟨hpos,hcell⟩ := hcells i hi
  rw [hcell]
  exact hP.lane (fun j _ => hx.cell hP.zero _) _ (Nat.mod_lt i hpos)

theorem scale_all (hP : Stable P) (hx : x.All P) (s : α) : Interval.All P (x.scale s) :=
  hx.map fun _ hb => hP.scaled hb s

theorem forward (hP : Stable P) {t : Transform α} (harea : t.HasArea) : t.Preserves P := by
  intro x y hx hy
  cases t with
  | dense t => exact hP.dense_forward hx hy
  | convolution t => exact hP.convolution_forward hx hy
  | pooling t => exact hP.pooling_forward harea hx hy
  | responseNorm t => exact hP.responseNorm_forward hx hy
  | relu =>
    obtain rfl := Except.ok.inj hy
    exact hx.map fun _ => hP.rectified
  | softmax => exact hP.softmax_forward hx hy
  | dropout keep =>
    obtain rfl := Except.ok.inj hy
    exact hP.scale_all hx keep

/-- On the way back a layer keeps a property that widening keeps, and any other one where its
input leaves one slope open. -/
theorem backward (hP : Stable P) {t : Transform α} {shape out : List ℕ} (ht : t.Fits shape out)
    (hx : x.All P) (hwiden : (∀ b, P b → P b.hullWithZero) ∨ t.Sharp x) (hd : d.All P)
    (he : t.backward x d = .ok e) : e.All P := by
  cases t with
  | dense t => exact hP.dense_backward hd he
  | convolution t => exact hP.convolution_backward hd he
  | pooling t => exact hP.pooling_backward ht.1 hd hwiden he
  | responseNorm t => exact hP.responseNorm_backward hx hd he
  | relu => exact hP.relu_backward hd hwiden he
  | softmax =>
    obtain rfl := Except.ok.inj he
    exact hd
  | dropout keep =>
    obtain rfl := Except.ok.inj he
    exact hP.scale_all hd keep

theorem preserved (hP : Stable P) : Preserved P := ⟨hP.zero,hP.add⟩

end Bound.Stable
end Sensitivity
