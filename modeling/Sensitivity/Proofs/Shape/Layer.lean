import Sensitivity.Transform
import Sensitivity.Proofs.Interval

/-! Shapes of single layers. A layer resolved against a shape takes bounds of that shape to
bounds of its output shape, and takes rows of derivatives back the other way. -/
namespace Sensitivity

variable {α : Type}

theorem Tensor.Addressable.head_mod {n : ℕ} {shape : List ℕ} (h : Addressable (n :: shape)) :
    n % Window.wordCount = n :=
  Nat.mod_eq_of_lt ((h.mem_lt List.mem_cons_self).trans (by decide))

theorem Tensor.Addressable.prod_mod {shape : List ℕ} (h : Addressable shape) :
    shape.prod % Window.wordCount = shape.prod :=
  Nat.mod_eq_of_lt (h.prod_lt.trans (by decide))

theorem Tensor.shape_of_concat {β : Type} [Inhabited β] {parts : List (Tensor β)} {z : Tensor β}
    {height width : ℕ} (h : concat parts 0 = (.ok z : Except (Error α) _))
    (hparts : ∀ y ∈ parts, ∃ channels, y.shape = [channels,height,width]) :
    z.shape = [(parts.map (·.extent 0)).sum,height,width] ∧
      (parts.map (·.extent 0)).sum % Window.wordCount = (parts.map (·.extent 0)).sum := by
  obtain ⟨first,rest,rfl,-,-,ha,rfl⟩ := concat_eq_ok_iff.mp h
  obtain ⟨channels,hfirst⟩ := hparts first List.mem_cons_self
  rw [hfirst,List.set_cons_zero] at ha
  exact ⟨by rw [shape_ofFn,hfirst,List.set_cons_zero],ha.head_mod⟩

theorem ImageShape.ofShape_eq_ok_iff {user : String} {shape : List ℕ} {image : ImageShape} :
    (ImageShape.ofShape user shape : Except (Error α) ImageShape) = .ok image ↔
      image.toList = shape := by
  unfold ImageShape.ofShape
  split
  next c h w =>
    rw [Except.ok.injEq]
    constructor
    · rintro rfl
      rfl
    · intro h
      cases image
      simpa [ImageShape.toList] using h.symm
  next hshape =>
    simp only [reduceCtorEq,false_iff]
    intro h
    exact hshape _ _ _ h.symm

theorem Rectifier.stretches_self (shape : List ℕ) : Rectifier.Stretches shape shape := by
  refine ⟨rfl,?_⟩
  intro p hp
  left
  obtain ⟨i,hi,rfl⟩ := List.getElem_of_mem hp
  simp

/-- The checks that a convolution has passed, and the extents that follow from them. -/
structure ConvolutionTransform.Resolved (t : ConvolutionTransform α) : Prop where
  stride_ne_zero : t.layer.stride ≠ 0
  groups_ne_zero : t.layer.groups ≠ 0
  groups_split : t.layer.outputs % t.layer.groups = 0
  size_bias : t.layer.bias.size = t.layer.outputs
  input_channels : t.input.channels = t.layer.groupInputs * t.layer.groups
  output_channels : t.output.channels = t.layer.outputs
  output_height : (Window.count t.input.height t.layer.height t.layer.stride t.layer.padding :
    Except (Error α) ℕ) = .ok t.output.height
  output_width : (Window.count t.input.width t.layer.width t.layer.stride t.layer.padding :
    Except (Error α) ℕ) = .ok t.output.width

theorem ConvolutionTransform.inputChannel_lt {t : ConvolutionTransform α} {o ci : ℕ}
    (ht : t.Resolved) (ho : o < t.layer.outputs) (hci : ci < t.layer.groupInputs) :
    t.layer.inputChannel o ci < t.input.channels := by
  obtain ⟨q,hq⟩ := Nat.dvd_of_mod_eq_zero ht.groups_split
  have hgroups : 0 < t.layer.groups := Nat.pos_of_ne_zero ht.groups_ne_zero
  have hgroup : o / (t.layer.outputs / t.layer.groups) < t.layer.groups := by
    rw [hq] at ho ⊢
    rw [Nat.mul_div_cancel_left q hgroups]
    exact Nat.div_lt_of_lt_mul (by rwa [Nat.mul_comm])
  rw [ht.input_channels,Convolution.inputChannel]
  calc o / (t.layer.outputs / t.layer.groups) * t.layer.groupInputs + ci
      < o / (t.layer.outputs / t.layer.groups) * t.layer.groupInputs + t.layer.groupInputs :=
        Nat.add_lt_add_left hci _
    _ = (o / (t.layer.outputs / t.layer.groups) + 1) * t.layer.groupInputs :=
        (Nat.succ_mul _ _).symm
    _ ≤ t.layer.groups * t.layer.groupInputs := Nat.mul_le_mul_right _ hgroup
    _ = t.layer.groupInputs * t.layer.groups := Nat.mul_comm _ _

/-- The checks that a pooling layer has passed, and the extents that follow from them. -/
structure PoolingTransform.Resolved (α : Type) (t : PoolingTransform) : Prop where
  size_ne_zero : t.layer.size ≠ 0
  stride_ne_zero : t.layer.stride ≠ 0
  padding_lt : t.layer.padding < t.layer.size
  output_channels : t.output.channels = t.input.channels
  output_height : (Window.count t.input.height t.layer.size t.layer.stride t.layer.padding :
    Except (Error α) ℕ) = .ok t.output.height
  output_width : (Window.count t.input.width t.layer.size t.layer.stride t.layer.padding :
    Except (Error α) ℕ) = .ok t.output.width

theorem Window.count_eq_ok_iff {extent window stride padding n : ℕ} :
    (count extent window stride padding : Except (Error α) ℕ) = .ok n ↔
      window ≤ padded extent padding ∧
        ((padded extent padding - window) / stride + 1) % wordCount = n := by
  unfold count
  split
  next h => simp [h]
  next h => simp [not_lt.mp h]

/-- The kind of numbers does not matter for extents. -/
theorem PoolingTransform.Resolved.of_other {β : Type} {t : PoolingTransform} (h : t.Resolved α) :
    t.Resolved β where
  size_ne_zero := h.size_ne_zero
  stride_ne_zero := h.stride_ne_zero
  padding_lt := h.padding_lt
  output_channels := h.output_channels
  output_height := Window.count_eq_ok_iff.mpr (Window.count_eq_ok_iff.mp h.output_height)
  output_width := Window.count_eq_ok_iff.mpr (Window.count_eq_ok_iff.mp h.output_width)

theorem Dense.check_eq_ok_iff {layer layer' : Dense α} :
    layer.check = .ok layer' ↔ layer = layer' ∧ layer.bias.size = layer.outputs := by
  unfold check
  split
  next h => simp [h]
  next h => simp [h]

theorem Convolution.check_eq_ok_iff {layer layer' : Convolution α} :
    layer.check = .ok layer' ↔ layer = layer' ∧ layer.stride ≠ 0 ∧
      (layer.groups ≠ 0 ∧ layer.outputs % layer.groups = 0) ∧
      layer.bias.size = layer.outputs := by
  unfold check
  split
  next hstride => simp [hstride]
  next hstride =>
  split
  next hgroups =>
    simp only [reduceCtorEq,false_iff]
    rintro ⟨-,-,⟨hzero,hsplit⟩,-⟩
    exact hgroups.elim hzero (fun h => h hsplit)
  next hgroups =>
  push Not at hgroups
  split
  next hbias => simp [hbias]
  next hbias => simp [hstride,hgroups,not_not.mp hbias]

theorem Pooling.check_eq_ok_iff {layer layer' : Pooling} :
    (layer.check : Except (Error α) Pooling) = .ok layer' ↔
      layer = layer' ∧ layer.size ≠ 0 ∧ layer.stride ≠ 0 ∧ layer.padding < layer.size := by
  unfold check
  split
  next hextent =>
    simp only [reduceCtorEq,false_iff]
    rintro ⟨-,hsize,hstride,-⟩
    exact hextent.elim hsize hstride
  next hextent =>
  push Not at hextent
  split
  next hpadding => simp [hpadding]
  next hpadding => simp [hextent,not_le.mp hpadding]

theorem PoolingTransform.build_eq_ok {layer : Pooling} {shape : List ℕ} {t : PoolingTransform}
    (h : PoolingTransform.build layer shape = (.ok t : Except (Error α) _)) :
    t.layer = layer ∧ t.Resolved α ∧ t.input.toList = shape := by
  simp only [PoolingTransform.build,Error.bind_eq_ok_iff,Pooling.check_eq_ok_iff] at h
  obtain ⟨_,⟨rfl,hsize,hstride,hpadding⟩,input,hinput,height,hheight,width,hwidth,h⟩ := h
  obtain rfl := Error.pure_eq_ok_iff.mp h
  exact ⟨rfl,⟨hsize,hstride,hpadding,rfl,hheight,hwidth⟩,ImageShape.ofShape_eq_ok_iff.mp hinput⟩

theorem ConvolutionTransform.build_eq_ok {layer : Convolution α} {shape : List ℕ}
    {t : ConvolutionTransform α} (h : ConvolutionTransform.build layer shape = .ok t) :
    t.layer = layer ∧ t.Resolved ∧ t.input.toList = shape := by
  simp only [ConvolutionTransform.build,Error.bind_eq_ok_iff,Convolution.check_eq_ok_iff] at h
  obtain ⟨_,⟨rfl,hstride,hgroups,hbias⟩,input,hinput,h⟩ := h
  split at h
  · cases h
  next hchannels =>
  simp only [Error.bind_eq_ok_iff] at h
  obtain ⟨height,hheight,width,hwidth,h⟩ := h
  obtain rfl := Error.pure_eq_ok_iff.mp h
  exact ⟨rfl,⟨hstride,hgroups.1,hgroups.2,hbias,not_not.mp hchannels,rfl,hheight,hwidth⟩,
    ImageShape.ofShape_eq_ok_iff.mp hinput⟩

variable [Scalar α]

/-- The parameters for which a response norm is defined. -/
structure ResponseNorm.Defined (layer : ResponseNorm α) : Prop where
  localRange_ne_zero : layer.localRange ≠ 0
  offset_pos : 0 < layer.offset
  alpha_nonneg : 0 ≤ layer.alpha
  beta_nonneg : 0 ≤ layer.beta

theorem ResponseNorm.check_eq_ok_iff {layer layer' : ResponseNorm α} :
    layer.check = .ok layer' ↔ layer = layer' ∧ layer.Defined := by
  unfold check
  split
  next hrange =>
    simp only [reduceCtorEq,false_iff]
    exact fun h => h.2.localRange_ne_zero hrange
  next hrange =>
  split
  next hdomain =>
    simp only [reduceCtorEq,false_iff]
    rintro ⟨-,-,hoffset,halpha,hbeta⟩
    exact hdomain.elim (fun h => h hoffset) fun h => h.elim (fun h => h halpha) fun h => h hbeta
  next hdomain =>
    simp only [not_or,not_not] at hdomain
    simp only [Except.ok.injEq,iff_self_and]
    exact fun _ => ⟨hrange,hdomain.1,hdomain.2.1,hdomain.2.2⟩

theorem ResponseNormTransform.build_eq_ok {layer : ResponseNorm α} {shape : List ℕ}
    {t : ResponseNormTransform α} (h : ResponseNormTransform.build layer shape = .ok t) :
    t.layer = layer ∧ t.layer.Defined ∧ t.image.toList = shape := by
  simp only [ResponseNormTransform.build,Error.bind_eq_ok_iff,ResponseNorm.check_eq_ok_iff] at h
  obtain ⟨_,⟨rfl,hdefined⟩,image,himage,h⟩ := h
  obtain rfl := Error.pure_eq_ok_iff.mp h
  exact ⟨rfl,hdefined,ImageShape.ofShape_eq_ok_iff.mp himage⟩

theorem Dropout.check_eq_ok_iff {rate rate' : α} :
    check rate = .ok rate' ↔ rate = rate' ∧ 0 ≤ rate ∧ rate < 1 := by
  unfold check
  split
  next h => simp [h]
  next h => simp [h]

namespace Transform

/-- A layer resolved against an input shape, with its output shape. -/
def Fits : Transform α → List ℕ → List ℕ → Prop
  | .dense t, shape, out =>
    t.inputShape = shape ∧ shape.prod = t.layer.inputs ∧ out = [t.layer.outputs]
  | .convolution t, shape, out => t.Resolved ∧ t.input.toList = shape ∧ t.output.toList = out
  | .pooling t, shape, out => t.Resolved α ∧ t.input.toList = shape ∧ t.output.toList = out
  | .responseNorm t, shape, out => t.layer.Defined ∧ t.image.toList = shape ∧ out = shape
  | .softmax, shape, out => shape ≠ [] ∧ out = shape
  | .relu, shape, out => out = shape
  | .dropout _, shape, out => out = shape

/-- What an operation is resolved to against an input shape, with the output shape. -/
inductive Resolves : Operation α → List ℕ → Transform α → List ℕ → Prop where
  | dense {layer : Dense α} {shape : List ℕ} (h : shape.prod = layer.inputs) :
    Resolves (.dense layer) shape (.dense ⟨layer,shape⟩) [layer.outputs]
  | convolution {t : ConvolutionTransform α} (h : t.Resolved) :
    Resolves (.convolution t.layer) t.input.toList (.convolution t) t.output.toList
  | pooling {t : PoolingTransform} (h : t.Resolved α) :
    Resolves (.pooling t.layer) t.input.toList (.pooling t) t.output.toList
  | responseNorm {t : ResponseNormTransform α} (h : t.layer.Defined) :
    Resolves (.responseNorm t.layer) t.image.toList (.responseNorm t) t.image.toList
  | relu {shape : List ℕ} : Resolves .relu shape .relu shape
  | softmax {shape : List ℕ} (h : shape ≠ []) : Resolves .softmax shape .softmax shape
  | dropout {rate : α} {shape : List ℕ} :
    Resolves (.dropout rate) shape (.dropout (Dropout.keep rate)) shape

theorem resolves_of_ofOperation {op : Operation α} {shape out : List ℕ} {t : Transform α}
    (h : ofOperation op shape = .ok (t,out)) : Resolves op shape t out := by
  cases op with
  | dense layer =>
    simp only [ofOperation,Error.bind_eq_ok_iff,Error.pure_eq_ok_iff,Prod.mk.injEq,
      DenseTransform.build] at h
    obtain ⟨t',ht,rfl,rfl⟩ := h
    split at ht
    next hprod =>
      obtain rfl := Except.ok.inj ht
      exact .dense hprod
    next => cases ht
  | convolution layer =>
    simp only [ofOperation,Error.bind_eq_ok_iff,Error.pure_eq_ok_iff,Prod.mk.injEq] at h
    obtain ⟨t',ht,rfl,rfl⟩ := h
    obtain ⟨rfl,hresolved,rfl⟩ := ConvolutionTransform.build_eq_ok ht
    exact .convolution hresolved
  | pooling layer =>
    simp only [ofOperation,Error.bind_eq_ok_iff,Error.pure_eq_ok_iff,Prod.mk.injEq] at h
    obtain ⟨t',ht,rfl,rfl⟩ := h
    obtain ⟨rfl,hresolved,rfl⟩ := PoolingTransform.build_eq_ok ht
    exact .pooling hresolved
  | responseNorm layer =>
    simp only [ofOperation,Error.bind_eq_ok_iff,Error.pure_eq_ok_iff,Prod.mk.injEq] at h
    obtain ⟨t',ht,rfl,rfl⟩ := h
    obtain ⟨rfl,hdefined,rfl⟩ := ResponseNormTransform.build_eq_ok ht
    exact .responseNorm hdefined
  | relu =>
    obtain ⟨rfl,rfl⟩ := Prod.mk.inj (Except.ok.inj h)
    exact .relu
  | softmax =>
    simp only [ofOperation] at h
    split at h
    next => cases h
    next hshape =>
      obtain ⟨rfl,rfl⟩ := Prod.mk.inj (Except.ok.inj h)
      exact .softmax hshape
  | dropout rate =>
    simp only [ofOperation,Error.bind_eq_ok_iff,Error.pure_eq_ok_iff,Prod.mk.injEq,
      Dropout.check_eq_ok_iff] at h
    obtain ⟨_,⟨rfl,-⟩,rfl,rfl⟩ := h
    exact .dropout

theorem Resolves.fits {op : Operation α} {shape out : List ℕ} {t : Transform α}
    (h : Resolves op shape t out) : t.Fits shape out := by
  cases h with
  | dense h => exact ⟨rfl,h,rfl⟩
  | convolution h => exact ⟨h,rfl,rfl⟩
  | pooling h => exact ⟨h,rfl,rfl⟩
  | responseNorm h => exact ⟨h,rfl,rfl⟩
  | relu => rfl
  | softmax h => exact ⟨h,rfl⟩
  | dropout => rfl

theorem Fits.shape_forward {t : Transform α} {shape out : List ℕ} {x y : Interval α}
    (ht : t.Fits shape out) (hy : t.forward x = .ok y) (hx : x.shape = shape) : y.shape = out := by
  cases t with
  | dense t =>
    obtain ⟨-,-,rfl⟩ := ht
    simp only [forward,DenseTransform.forward,Error.bind_eq_ok_iff] at hy
    obtain ⟨z,hz,hy⟩ := hy
    have hflat : x.flatten.shape = [] ++ [x.shape.prod] := Tensor.shape_flatten x
    rw [Interval.contract_eq_ok_iff hflat t.layer.shape_weights] at hz
    exact (Tensor.zip_eq_ok_iff.mp hy).2.1.trans hz.2.2.2.1
  | convolution t =>
    simp only [forward,ConvolutionTransform.forward,Error.bind_eq_ok_iff] at hy
    obtain ⟨-,-,hy⟩ := hy
    obtain rfl := Error.pure_eq_ok_iff.mp hy
    exact ht.2.2
  | pooling t =>
    simp only [forward,PoolingTransform.forward,Error.bind_eq_ok_iff] at hy
    obtain ⟨-,-,hy⟩ := hy
    obtain rfl := Error.pure_eq_ok_iff.mp hy
    exact ht.2.2
  | responseNorm t =>
    simp only [forward,ResponseNormTransform.forward,Error.bind_eq_ok_iff] at hy
    obtain ⟨-,-,hy⟩ := hy
    obtain rfl := Error.pure_eq_ok_iff.mp hy
    exact ht.2.1.trans ht.2.2.symm
  | relu =>
    obtain rfl := Except.ok.inj hy
    exact hx.trans ht.symm
  | softmax =>
    simp only [forward,Softmax.forward] at hy
    split at hy
    · cases hy
    · obtain rfl := Except.ok.inj hy
      exact hx.trans ht.2.symm
  | dropout keep =>
    obtain rfl := Except.ok.inj hy
    exact hx.trans ht.symm

theorem Fits.shape_backward {t : Transform α} {shape out : List ℕ} {rows : ℕ} {x d e : Interval α}
    (ht : t.Fits shape out) (he : t.backward x d = .ok e) (hd : d.shape = rows :: out) :
    e.shape = rows :: shape := by
  cases t with
  | dense t =>
    obtain ⟨rfl,-,rfl⟩ := ht
    simp only [backward,DenseTransform.backward,Error.bind_eq_ok_iff,
      Interval.rowCount_eq_ok_iff] at he
    obtain ⟨rows',hrows,z,-,he⟩ := he
    obtain rfl := List.head_eq_of_cons_eq (hrows.symm.trans hd)
    exact (Tensor.reshape_eq_ok_iff.mp he).2.2.1
  | convolution t =>
    obtain ⟨-,rfl,rfl⟩ := ht
    simp only [backward,ConvolutionTransform.backward,Error.bind_eq_ok_iff,
      Interval.rowCount_eq_ok_iff] at he
    obtain ⟨rows',hrows,he⟩ := he
    obtain rfl := List.head_eq_of_cons_eq (hrows.symm.trans hd)
    obtain ⟨-,-,rfl⟩ := Interval.ofRows_eq_ok_iff.mp he
    rfl
  | pooling t =>
    obtain ⟨-,rfl,rfl⟩ := ht
    simp only [backward,PoolingTransform.backward,Error.bind_eq_ok_iff,
      Interval.rowCount_eq_ok_iff] at he
    obtain ⟨-,-,rows',hrows,he⟩ := he
    obtain rfl := List.head_eq_of_cons_eq (hrows.symm.trans hd)
    split at he <;>
      obtain ⟨-,-,rfl⟩ := Interval.ofRows_eq_ok_iff.mp he <;> rfl
  | responseNorm t =>
    obtain ⟨-,rfl,rfl⟩ := ht
    simp only [backward,ResponseNormTransform.backward,Error.bind_eq_ok_iff,
      Interval.rowCount_eq_ok_iff] at he
    obtain ⟨-,-,rows',hrows,he⟩ := he
    obtain rfl := List.head_eq_of_cons_eq (hrows.symm.trans hd)
    obtain ⟨-,-,rfl⟩ := Interval.ofRows_eq_ok_iff.mp he
    rfl
  | relu =>
    obtain rfl := ht
    simp only [backward,Rectifier.backward,hd] at he
    split at he
    · obtain rfl := Except.ok.inj he
      rfl
    · cases he
  | softmax =>
    obtain ⟨-,rfl⟩ := ht
    obtain rfl := Except.ok.inj he
    exact hd
  | dropout keep =>
    obtain rfl := ht
    obtain rfl := Except.ok.inj he
    exact hd

/-- The part of a fully connected layer that fitting does not check: it has inputs and outputs,
and one bias for each output. -/
def DenseReady : Transform α → Prop
  | .dense t => t.layer.inputs ≠ 0 ∧ t.layer.outputs ≠ 0 ∧ t.layer.bias.size = t.layer.outputs
  | _ => True

/-- A fully connected layer has inputs and outputs. -/
def HasCells : Transform α → Prop
  | .dense t => t.layer.inputs ≠ 0 ∧ t.layer.outputs ≠ 0
  | _ => True

omit [Scalar α] in
theorem DenseReady.hasCells {t : Transform α} (h : t.DenseReady) : t.HasCells := by
  cases t with
  | dense t => exact ⟨h.1,h.2.1⟩
  | _ => trivial

theorem Fits.exists_forward {t : Transform α} {shape out : List ℕ} {x : Interval α}
    (ht : t.Fits shape out) (hdense : t.DenseReady) (hx : x.shape = shape)
    (hout : Tensor.Addressable out) : ∃ y, t.forward x = .ok y := by
  cases t with
  | dense t =>
    obtain ⟨rfl,hprod,rfl⟩ := ht
    obtain ⟨hinputs,-,hbias⟩ := hdense
    have hflat : x.flatten.shape = [] ++ [t.layer.inputs] := by simp [hx,hprod]
    obtain ⟨z,hz⟩ := Interval.exists_contract hflat t.layer.shape_weights hinputs hout
    have hz' := ((Interval.contract_eq_ok_iff hflat t.layer.shape_weights).mp hz).2.2.2.1
    have hshape : z.shape = (Tensor.ofArray t.layer.bias).shape := by
      rw [hz',Tensor.shape_ofArray,hbias]
      rfl
    obtain ⟨y,hy⟩ := Tensor.exists_zip (fun (b : Bound α) s => (⟨b.lower + s,b.upper + s⟩ : Bound α))
      hshape
    exact ⟨y,Error.bind_eq_ok_iff.mpr ⟨z,hz,hy⟩⟩
  | convolution t =>
    exact ⟨_,Error.bind_eq_ok_iff.mpr
      ⟨(),Interval.expectShape_eq_ok_iff.mpr (hx.trans ht.2.1.symm),rfl⟩⟩
  | pooling t =>
    exact ⟨_,Error.bind_eq_ok_iff.mpr
      ⟨(),Interval.expectShape_eq_ok_iff.mpr (hx.trans ht.2.1.symm),rfl⟩⟩
  | responseNorm t =>
    exact ⟨_,Error.bind_eq_ok_iff.mpr
      ⟨(),Interval.expectShape_eq_ok_iff.mpr (hx.trans ht.2.1.symm),rfl⟩⟩
  | relu => exact ⟨_,rfl⟩
  | softmax =>
    simp only [forward,Softmax.forward]
    split
    next hlast =>
      rw [List.getLast?_eq_none_iff] at hlast
      exact absurd (hx.symm.trans hlast) ht.1
    next => exact ⟨_,rfl⟩
  | dropout keep => exact ⟨_,rfl⟩

theorem Fits.exists_backward {t : Transform α} {shape out : List ℕ} {rows : ℕ} {x d : Interval α}
    (ht : t.Fits shape out) (hcells : t.HasCells) (hx : x.shape = shape)
    (hd : d.shape = rows :: out) (hrows : rows ≠ 0) (hshape : Tensor.Addressable (rows :: shape)) :
    ∃ e, t.backward x d = .ok e := by
  cases t with
  | dense t =>
    obtain ⟨rfl,hprod,rfl⟩ := ht
    obtain ⟨hinputs,houtputs⟩ := hcells
    have hd' : d.shape = [rows] ++ [t.layer.outputs] := hd
    have hflat := (Tensor.addressable_flat (hprod ▸ hinputs)).mpr hshape
    rw [hprod] at hflat
    obtain ⟨z,hz⟩ := Interval.exists_contract hd'
      (Tensor.shape_ofFn [t.layer.outputs,t.layer.inputs] _) houtputs hflat
    have hz' := ((Interval.contract_eq_ok_iff hd' (Tensor.shape_ofFn _ _)).mp hz).2.2.2.1
    have hcells : z.shape.prod = (rows :: t.inputShape).prod := by simp [hz',hprod]
    obtain ⟨e,he⟩ := Tensor.exists_reshape hcells hshape
    exact ⟨e,Error.bind_eq_ok_iff.mpr ⟨rows,Interval.rowCount_eq_ok_iff.mpr hd,
      Error.bind_eq_ok_iff.mpr ⟨z,hz,he⟩⟩⟩
  | convolution t =>
    obtain ⟨-,rfl,rfl⟩ := ht
    exact ⟨_,Error.bind_eq_ok_iff.mpr ⟨rows,Interval.rowCount_eq_ok_iff.mpr hd,
      Interval.ofRows_eq_ok_iff.mpr ⟨hrows,hshape,rfl⟩⟩⟩
  | pooling t =>
    obtain ⟨-,rfl,rfl⟩ := ht
    simp only [backward,PoolingTransform.backward,Error.bind_eq_ok_iff,
      Interval.expectShape_eq_ok_iff,Interval.rowCount_eq_ok_iff]
    cases t.layer.mode with
    | max => exact ⟨_,(),hx,rows,hd,Interval.ofRows_eq_ok_iff.mpr ⟨hrows,hshape,rfl⟩⟩
    | avg => exact ⟨_,(),hx,rows,hd,Interval.ofRows_eq_ok_iff.mpr ⟨hrows,hshape,rfl⟩⟩
  | responseNorm t =>
    obtain ⟨-,rfl,rfl⟩ := ht
    exact ⟨_,Error.bind_eq_ok_iff.mpr ⟨(),Interval.expectShape_eq_ok_iff.mpr hx,
      Error.bind_eq_ok_iff.mpr ⟨rows,Interval.rowCount_eq_ok_iff.mpr hd,
        Interval.ofRows_eq_ok_iff.mpr ⟨hrows,hshape,rfl⟩⟩⟩⟩
  | relu =>
    obtain rfl := ht
    simp only [backward,Rectifier.backward,hd,hx]
    exact ⟨_,if_pos (Rectifier.stretches_self _)⟩
  | softmax => exact ⟨_,rfl⟩
  | dropout keep => exact ⟨_,rfl⟩

end Transform
end Sensitivity
