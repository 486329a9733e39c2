import Sensitivity.Proofs.Cell
import Sensitivity.Proofs.Shape.Run
import Sensitivity.Proofs.Slice

/-! Rows of sensitivities, layer by layer. What a layer passes back for one row of a sensitivity
depends on this row alone: from a sensitivity that has no other row it passes back the same. -/
namespace Sensitivity

variable {α : Type} [Scalar α]

theorem Tensor.Addressable.one_row {rows : ℕ} {shape : List ℕ} (h : Addressable (rows :: shape))
    (hrows : rows ≠ 0) : Addressable (1 :: shape) := by
  have htail := h.tail hrows
  unfold Addressable at htail ⊢
  rwa [List.filter_cons_of_pos (by simp),List.prod_cons,Nat.one_mul]

namespace Interval

/-- The row at a place of a bound, as a bound that has no other row. -/
def HasRow (d : Interval α) (b : ℕ) (d' : Interval α) : Prop :=
  ∃ rows shape, d.shape = rows :: shape ∧ b < rows ∧ d'.shape = 1 :: shape ∧
    ∀ i < shape.prod, d'.read i = d.read (b * shape.prod + i)

variable {d d' e e' : Interval α} {b rows : ℕ} {shape : List ℕ} {image : ImageShape}

theorem hasRow_iff (hd : d.shape = rows :: shape) : d.HasRow b d' ↔
    b < rows ∧ d'.shape = 1 :: shape ∧ ∀ i < shape.prod, d'.read i = d.read (b * shape.prod + i) := by
  constructor
  · rintro ⟨rows',shape',hd',hb,hshape,hread⟩
    obtain ⟨rfl,rfl⟩ := List.cons.inj (hd.symm.trans hd')
    exact ⟨hb,hshape,hread⟩
  · rintro ⟨hb,hshape,hread⟩
    exact ⟨rows,shape,hd,hb,hshape,hread⟩

theorem slice_eq_ok_iff_hasRow :
    d.slice 0 b (b + 1) = (.ok d' : Except (Error α) _) ↔ d.HasRow b d' := by
  constructor
  · intro h
    obtain ⟨haxis,-⟩ := Tensor.slice_eq_ok_iff.mp h
    obtain ⟨rows,shape,hd⟩ := List.exists_cons_of_length_pos haxis
    have hlead : d.shape = [] ++ rows :: shape := hd
    obtain ⟨-,hb,hshape,hread⟩ := (Tensor.slice_eq_ok_iff_read hlead).mp h
    rw [Nat.add_sub_cancel_left] at hshape hread
    refine ⟨rows,shape,hd,hb,hshape,fun i hi => ?_⟩
    simpa using hread 0 Nat.one_pos i (by simpa using hi)
  · rintro ⟨rows,shape,hd,hb,hshape,hread⟩
    have hlead : d.shape = [] ++ rows :: shape := hd
    refine (Tensor.slice_eq_ok_iff_read hlead).mpr ⟨Nat.le_succ b,hb,?_,fun o ho i hi => ?_⟩
    · rw [Nat.add_sub_cancel_left]
      exact hshape
    · rw [Nat.add_sub_cancel_left,Nat.one_mul] at hi ⊢
      rw [Nat.lt_one_iff.mp ho,Nat.zero_mul,Nat.zero_add,Nat.zero_mul,Nat.zero_add,hread i hi]

theorem exists_hasRow (hd : d.shape = rows :: shape) (hb : b < rows) : ∃ d', d.HasRow b d' := by
  refine ⟨Tensor.ofFn (1 :: shape) fun i => d.read (b * shape.prod + i),
    (hasRow_iff hd).mpr ⟨hb,rfl,fun i hi => ?_⟩⟩
  exact Tensor.read_ofFn _ _ (by simpa using hi)

theorem HasRow.at4 (h : d.HasRow b d') (hd : d.shape = rows :: image.toList) {c y z : ℕ}
    (hc : c < image.channels) (hy : y < image.height) (hz : z < image.width) :
    d'.at4 image.channels image.height image.width 0 c y z =
      d.at4 image.channels image.height image.width b c y z := by
  obtain ⟨-,-,hread⟩ := (hasRow_iff hd).mp h
  rw [Tensor.at4_eq_read,Tensor.at4_eq_read,Nat.zero_mul,Nat.zero_add,
    hread _ (ImageShape.position_lt hc hy hz)]

theorem exists_ofRows_row {cell : ℕ → ℕ → ℕ → ℕ → Bound α} (he : ofRows rows image cell = .ok e)
    (hb : b < rows) (cell' : ℕ → ℕ → ℕ → ℕ → Bound α)
    (hcell : ∀ c < image.channels, ∀ y < image.height, ∀ z < image.width,
      cell' 0 c y z = cell b c y z) :
    ∃ e', ofRows 1 image cell' = .ok e' ∧ e.HasRow b e' := by
  obtain ⟨hrows,ha,hcells⟩ := ofRows_eq_ok_iff.mp he
  obtain ⟨e',he'⟩ : ∃ e', ofRows 1 image cell' = .ok e' :=
    ⟨_,ofRows_eq_ok_iff.mpr ⟨Nat.one_ne_zero,ha.one_row hrows,rfl⟩⟩
  obtain ⟨-,-,hcells'⟩ := ofRows_eq_ok_iff.mp he'
  have hshape : e.shape = rows :: image.toList := by rw [hcells,Tensor.shape_ofFn]
  have hshape' : e'.shape = 1 :: image.toList := by rw [hcells',Tensor.shape_ofFn]
  refine ⟨e',he',(hasRow_iff hshape).mpr ⟨hb,hshape',fun i hi => ?_⟩⟩
  obtain ⟨c,hc,y,hy,z,hz,rfl⟩ := ImageShape.exists_position hi
  have hat := at4_ofRows he hb hc hy hz
  have hat' := at4_ofRows he' Nat.one_pos hc hy hz
  rw [Tensor.at4_eq_read] at hat hat'
  rw [Nat.zero_mul,Nat.zero_add] at hat'
  rw [hat,hat',hcell c hc y hy z hz]

theorem HasRow.map (h : d.HasRow b d') (f : Bound α → Bound α) : HasRow (d.map f) b (d'.map f) := by
  obtain ⟨rows,shape,hd,hb,hshape,hread⟩ := h
  refine ⟨rows,shape,hd,hb,hshape,fun i hi => ?_⟩
  have hposition : b * shape.prod + i < d.shape.prod := by
    rw [hd]
    exact row_position_lt hb hi
  rw [Tensor.read_map f d hposition,Tensor.read_map f d' (by simpa [hshape] using hi),hread i hi]

theorem HasRow.exists_add (hd : d.HasRow b d') (he : e.HasRow b e') {sum : Interval α}
    (hsum : d.add e = .ok sum) : ∃ sum', d'.add e' = .ok sum' ∧ sum.HasRow b sum' := by
  obtain ⟨rows,shape,hshape,hb,hshape',hread⟩ := hd
  obtain ⟨hsame,hsumShape,hcells⟩ := Tensor.zip_eq_ok_iff.mp hsum
  obtain ⟨-,heshape,heread⟩ := (hasRow_iff (hsame.symm.trans hshape)).mp he
  obtain ⟨sum',hsum'⟩ := Tensor.exists_zip (α := α) Bound.add (hshape'.trans heshape.symm)
  obtain ⟨-,hsumShape',hcells'⟩ := Tensor.zip_eq_ok_iff.mp hsum'
  refine ⟨sum',hsum',rows,shape,hsumShape.trans hshape,hb,hsumShape'.trans hshape',fun i hi => ?_⟩
  have hposition : b * shape.prod + i < d.shape.prod := by
    rw [hshape]
    exact row_position_lt hb hi
  rw [hcells' i (by simpa [hshape'] using hi),hcells _ hposition,hread i hi,heread i hi]

theorem HasRow.exists_slice (h : d.HasRow b d') {limit start stop : ℕ}
    (hd : d.shape = rows :: limit :: shape) {part : Interval α}
    (hpart : d.slice 1 start stop = (.ok part : Except (Error α) _)) :
    ∃ part', d'.slice 1 start stop = (.ok part' : Except (Error α) _) ∧ part.HasRow b part' := by
  obtain ⟨hb,hshape,hread⟩ := (hasRow_iff hd).mp h
  have hlead : d.shape = [rows] ++ limit :: shape := hd
  have hlead' : d'.shape = [1] ++ limit :: shape := hshape
  obtain ⟨hstart,hstop,-,hcells⟩ := (Tensor.slice_eq_ok_iff_read hlead).mp hpart
  have hpartShape := Tensor.shape_of_slice hpart hd
  obtain ⟨part',hpart'⟩ := exists_hasRow hpartShape hb
  obtain ⟨-,hpartShape',hread'⟩ := (hasRow_iff hpartShape).mp hpart'
  refine ⟨part',(Tensor.slice_eq_ok_iff_read hlead').mpr
    ⟨hstart,hstop,hpartShape',fun o ho i hi => ?_⟩,hpart'⟩
  have hcell : start * shape.prod + i < (limit :: shape).prod := by
    rw [List.prod_cons]
    exact Tensor.cut_position_lt hstop hi
  have hrow := hcells b (by simpa using hb) i hi
  have ho : o = 0 := by simpa using ho
  rw [ho,Nat.zero_mul,Nat.zero_add,Nat.zero_mul,Nat.zero_add,hread _ hcell,
    hread' i (by rwa [List.prod_cons])]
  exact hrow

end Interval

theorem Rectifier.exists_backward_row {x d d' e : Interval α} {b : ℕ} (h : d.HasRow b d')
    (he : backward x d = .ok e) : ∃ e', backward x d' = .ok e' ∧ e.HasRow b e' := by
  obtain ⟨rows,shape,hd,hstretches,rfl⟩ := backward_eq_ok_iff.mp he
  obtain ⟨hb,hshape,hread⟩ := (Interval.hasRow_iff hd).mp h
  rw [hd]
  refine ⟨_,backward_eq_ok_iff.mpr ⟨1,shape,hshape,hstretches,rfl⟩,rows,shape,rfl,hb,hshape,
    fun i hi => ?_⟩
  rw [hshape,Tensor.read_ofFn _ _ (by simpa using hi),
    Tensor.read_ofFn _ _ (by simpa using Interval.row_position_lt hb hi),hread i hi,
    Nat.mul_add_mod_self_right]

namespace Interval

theorem dotSum_congr {n : ℕ} {f f' g : ℕ → α} (h : ∀ k < n, f k = f' k) :
    dotSum n f g = dotSum n f' g := by
  refine List.foldl_ext _ _ _ fun s k hk => ?_
  rw [h k (List.mem_range.mp hk)]

theorem signSplit_congr {n : ℕ} {x x' : ℕ → Bound α} {w : ℕ → α} (h : ∀ k < n, x k = x' k) :
    signSplit n x w = signSplit n x' w := by
  have hlower : ∀ k < n, (x k).lower = (x' k).lower := fun k hk => by rw [h k hk]
  have hupper : ∀ k < n, (x k).upper = (x' k).upper := fun k hk => by rw [h k hk]
  simp only [signSplit,dotSum_congr hlower,dotSum_congr hupper]

end Interval

theorem Interval.HasRow.exists_contract {d d' z : Interval α} {w : Tensor α} {b rows k columns : ℕ}
    (h : d.HasRow b d') (hd : d.shape = [rows,k]) (hw : w.shape = [k,columns])
    (hz : contract d w = .ok z) :
    z.shape = [rows,columns] ∧ ∃ z', contract d' w = .ok z' ∧ z.HasRow b z' := by
  have hlead : d.shape = [rows] ++ [k] := hd
  obtain ⟨hb,hshape,hread⟩ := (hasRow_iff hd).mp h
  obtain ⟨-,hempty,ha,hzshape,hcells⟩ := (contract_eq_ok_iff hlead hw).mp hz
  have hzshape : z.shape = [rows,columns] := hzshape
  rw [List.prod_singleton] at hread hempty hcells
  have hrows : rows ≠ 0 := Nat.ne_of_gt (Nat.zero_lt_of_lt hb)
  let z' : Interval α := Tensor.ofFn [1,columns] fun i =>
    (signSplit k (fun j => d'.read (i / columns * k + j))
      (fun j => w.read (j * columns + i % columns))).ordered
  have hz' : contract d' w = .ok z' := by
    have hlead' : d'.shape = [1] ++ [k] := hshape
    refine (contract_eq_ok_iff hlead' hw).mpr ⟨rfl,fun hk => ?_,ha.one_row hrows,rfl,fun i hi => ?_⟩
    · rw [List.prod_singleton,Nat.one_mul]
      exact (Nat.mul_eq_zero.mp (hempty hk)).resolve_left hrows
    · exact Tensor.read_ofFn _ _ (by simpa using hi)
  refine ⟨hzshape,z',hz',(hasRow_iff hzshape).mpr ⟨hb,rfl,fun i hi => ?_⟩⟩
  rw [List.prod_singleton] at hi ⊢
  rw [hcells _ (row_position_lt hb hi),ImageShape.mul_add_div_of_lt hi,Nat.mul_add_mod_of_lt hi,
    Tensor.read_ofFn _ _ (by simpa using hi),Nat.div_eq_of_lt hi,Nat.mod_eq_of_lt hi]
  refine congrArg Bound.ordered (signSplit_congr fun j hj => ?_)
  rw [Nat.zero_mul,Nat.zero_add,hread j hj]

theorem Interval.HasRow.exists_reshape {d d' e : Interval α} {b rows : ℕ} {shape shape' : List ℕ}
    (h : d.HasRow b d') (hd : d.shape = rows :: shape)
    (he : d.reshape (rows :: shape') = (.ok e : Except (Error α) _)) :
    ∃ e', d'.reshape (1 :: shape') = (.ok e' : Except (Error α) _) ∧ e.HasRow b e' := by
  obtain ⟨hb,hshape,hread⟩ := (hasRow_iff hd).mp h
  obtain ⟨hcells,ha,heshape,heread⟩ := Tensor.reshape_eq_ok_iff.mp he
  have hrows : rows ≠ 0 := Nat.ne_of_gt (Nat.zero_lt_of_lt hb)
  rw [hd,List.prod_cons,List.prod_cons] at hcells
  have hcells := Nat.eq_of_mul_eq_mul_left (Nat.pos_of_ne_zero hrows) hcells
  obtain ⟨e',he'⟩ : ∃ e', d'.reshape (1 :: shape') = (.ok e' : Except (Error α) _) :=
    Tensor.exists_reshape (by rw [hshape,List.prod_cons,List.prod_cons,hcells]) (ha.one_row hrows)
  obtain ⟨-,-,heshape',heread'⟩ := Tensor.reshape_eq_ok_iff.mp he'
  refine ⟨e',he',(hasRow_iff heshape).mpr ⟨hb,heshape',fun i hi => ?_⟩⟩
  have hlt : b * shape'.prod + i < (rows :: shape').prod := by
    rw [List.prod_cons]
    exact row_position_lt hb hi
  rw [heread _ hlt,heread' i (by simpa using hi),hread i (hcells ▸ hi),hcells]

theorem DenseTransform.exists_backward_row {t : DenseTransform α} {d d' e : Interval α} {b : ℕ}
    (h : d.HasRow b d') (he : t.backward d = .ok e) :
    ∃ e', t.backward d' = .ok e' ∧ e.HasRow b e' := by
  simp only [backward,Error.bind_eq_ok_iff,Interval.rowCount_eq_ok_iff] at he ⊢
  obtain ⟨rows,hd,z,hz,he⟩ := he
  obtain ⟨-,hshape,-⟩ := (Interval.hasRow_iff hd).mp h
  obtain ⟨hzshape,z',hz',hrow⟩ := h.exists_contract hd rfl hz
  obtain ⟨e',he',hrow'⟩ := hrow.exists_reshape hzshape he
  exact ⟨e',⟨1,hshape,z',hz',he'⟩,hrow'⟩

theorem ConvolutionTransform.exists_backward_row {t : ConvolutionTransform α} {d d' e : Interval α}
    {b : ℕ} (h : d.HasRow b d') (he : t.backward d = .ok e) :
    ∃ e', t.backward d' = .ok e' ∧ e.HasRow b e' := by
  obtain ⟨rows,hd,he⟩ := backward_eq_ok_iff.mp he
  obtain ⟨hb,hshape,-⟩ := (Interval.hasRow_iff hd).mp h
  have hcell : ∀ c < t.input.channels, ∀ y < t.input.height, ∀ z < t.input.width,
      t.backwardCell d' 0 c y z = t.backwardCell d b c y z := by
    intro c _ y _ z _
    refine List.foldl_ext _ _ _ ?_
    rintro acc ⟨o,i,j⟩ hmem
    obtain ⟨ho,hi,hj⟩ := mem_grid3.mp hmem
    simp only [backwardTerm,h.at4 hd ho hi hj]
  obtain ⟨e',he',hrow⟩ := Interval.exists_ofRows_row he hb _ hcell
  exact ⟨e',backward_eq_ok_iff.mpr ⟨1,hshape,he'⟩,hrow⟩

theorem PoolingTransform.exists_backward_row {t : PoolingTransform} (ht : t.Resolved α)
    {x d d' e : Interval α} {b : ℕ} (h : d.HasRow b d') (he : t.backward x d = .ok e) :
    ∃ e', t.backward x d' = .ok e' ∧ e.HasRow b e' := by
  obtain ⟨hx,rows,hd,he⟩ := backward_eq_ok_iff.mp he
  obtain ⟨hb,hshape,-⟩ := (Interval.hasRow_iff hd).mp h
  have hcell : ∀ c < t.input.channels, ∀ y < t.input.height, ∀ z < t.input.width,
      t.backwardCell x d' 0 c y z = t.backwardCell x d b c y z := by
    intro c hc y _ z _
    refine List.foldl_ext _ _ _ ?_
    rintro acc ⟨i,j⟩ hmem
    obtain ⟨hi,hj⟩ := mem_grid2.mp hmem
    have hat := h.at4 hd (ht.output_channels.symm ▸ hc) hi hj
    cases t.layer.mode <;> simp only [maxTerm,avgTerm,hat]
  obtain ⟨e',he',hrow⟩ := Interval.exists_ofRows_row he hb _ hcell
  exact ⟨e',backward_eq_ok_iff.mpr ⟨hx,1,hshape,he'⟩,hrow⟩

theorem ResponseNormTransform.exists_backward_row {t : ResponseNormTransform α}
    {x d d' e : Interval α} {b : ℕ} (h : d.HasRow b d') (he : t.backward x d = .ok e) :
    ∃ e', t.backward x d' = .ok e' ∧ e.HasRow b e' := by
  obtain ⟨hx,rows,hd,he⟩ := backward_eq_ok_iff.mp he
  obtain ⟨hb,hshape,-⟩ := (Interval.hasRow_iff hd).mp h
  let cell (row j i k : ℕ) : Bound α :=
    (List.range t.image.channels).foldl (t.backwardTerm (t.jacobianTable x) d' row j i k) 0
  obtain ⟨e',he',hrow⟩ := Interval.exists_ofRows_row he hb cell fun j _ i hi k hk => by
    refine List.foldl_ext _ _ _ fun acc c hc => ?_
    simp only [backwardTerm,h.at4 hd (List.mem_range.mp hc) hi hk]
  exact ⟨e',backward_eq_ok_iff.mpr ⟨hx,1,hshape,he'⟩,hrow⟩

/-- A fitted layer passes back each row on its own. -/
theorem Transform.Fits.exists_backward_row {t : Transform α} {shape out : List ℕ}
    (ht : t.Fits shape out) {x d d' e : Interval α} {b : ℕ} (h : d.HasRow b d')
    (he : t.backward x d = .ok e) : ∃ e', t.backward x d' = .ok e' ∧ e.HasRow b e' := by
  cases t with
  | dense t => exact t.exists_backward_row h he
  | convolution t => exact t.exists_backward_row h he
  | pooling t => exact t.exists_backward_row ht.1 h he
  | responseNorm t => exact t.exists_backward_row h he
  | relu => exact Rectifier.exists_backward_row h he
  | softmax =>
    obtain rfl := Except.ok.inj he
    exact ⟨d',rfl,h⟩
  | dropout keep =>
    obtain rfl := Except.ok.inj he
    exact ⟨_,rfl,h.map _⟩

end Sensitivity
