import Mathlib.Algebra.Order.Ring.Rat
import Mathlib.Data.Rat.Floor
import Sensitivity.Proofs.Invariant.Layer

/-! Order of the ends under rounding. Nothing is assumed of the rounding but that it is monotone,
so results may have the wrong sign, and squares may be negative. The ends of a bound stay in order
all the same: wherever a rule does not sort them, it takes both of them through the same steps. -/
namespace Sensitivity

/-- A rule that rounds the exact results of arithmetic, with quotients by zero and elementary
functions of any value. -/
structure Rounding where
  round : ℚ → ℚ
  monotone : Monotone round
  overZero : ℚ → ℚ
  exp : ℚ → ℚ
  sqrt : ℚ → ℚ
  rpow : ℚ → ℚ → ℚ
  bottom : ℚ
  top : ℚ

/-- A rational number whose arithmetic is rounded. -/
structure Rounded (A : Rounding) where
  exact : ℚ

namespace Rounded

variable {A : Rounding}

instance : LinearOrder (Rounded A) := LinearOrder.lift' exact fun ⟨_⟩ ⟨_⟩ h => congrArg mk h

/-- The result that an exact one is rounded to. -/
def nearest (q : ℚ) : Rounded A := ⟨A.round q⟩

/-- Changes of sign, comparisons and conversions from whole numbers are exact. -/
instance : Scalar (Rounded A) where
  zero := ⟨0⟩
  one := ⟨1⟩
  add a b := nearest (a.exact + b.exact)
  sub a b := nearest (a.exact - b.exact)
  mul a b := nearest (a.exact * b.exact)
  div a b := if b.exact = 0 then ⟨A.overZero a.exact⟩ else nearest (a.exact / b.exact)
  neg a := ⟨-a.exact⟩
  natCast n := ⟨n⟩
  intCast n := ⟨n⟩
  toLE := inferInstance
  toLT := inferInstance
  toMin := inferInstance
  toMax := inferInstance
  decidableLE := inferInstance
  decidableLT := inferInstance
  magnitude a := ⟨|a.exact|⟩
  exp a := ⟨A.exp a.exact⟩
  sqrt a := ⟨A.sqrt a.exact⟩
  rpow a b := ⟨A.rpow a.exact b.exact⟩
  truncate a := if 0 ≤ a.exact then ⌊a.exact⌋ else ⌈a.exact⌉
  isFinite _ := true
  bottom := ⟨A.bottom⟩
  top := ⟨A.top⟩

variable {a b c d : Rounded A}

theorem nearest_le_nearest {p q : ℚ} (h : p ≤ q) : (nearest p : Rounded A) ≤ nearest q :=
  A.monotone h

protected theorem add_le_add (h : a ≤ b) (h' : c ≤ d) : a + c ≤ b + d :=
  nearest_le_nearest (add_le_add (α := ℚ) h h')

protected theorem mul_le_mul_left (hc : 0 ≤ c) (h : a ≤ b) : c * a ≤ c * b :=
  nearest_le_nearest (mul_le_mul_of_nonneg_left (α := ℚ) h hc)

protected theorem mul_le_mul_left_of_neg (hc : ¬ 0 ≤ c) (h : a ≤ b) : c * b ≤ c * a :=
  nearest_le_nearest (mul_le_mul_of_nonpos_left (R := ℚ) h (not_le.mp hc).le)

protected theorem mul_comm (a b : Rounded A) : a * b = b * a :=
  congrArg nearest (Rat.mul_comm a.exact b.exact)

theorem div_natCast {n : ℕ} (hn : n ≠ 0) (a : Rounded A) :
    a / (n : Rounded A) = nearest (a.exact / n) :=
  if_neg (Nat.cast_ne_zero.mpr hn)

protected theorem div_le_div {n : ℕ} (hn : n ≠ 0) (h : a ≤ b) : a / (n : Rounded A) ≤ b / n := by
  rw [div_natCast hn,div_natCast hn]
  have hexact : a.exact ≤ b.exact := h
  exact nearest_le_nearest (div_le_div_of_nonneg_right hexact (Nat.cast_nonneg n))

theorem greatest_cons (v : Rounded A) (l : List (Rounded A)) :
    Scalar.greatest (v :: l) = l.foldl max v := by
  have hfilter : (v :: l).filter (fun w => Scalar.IsNumber w) = v :: l :=
    List.filter_eq_self.mpr fun w _ => decide_eq_true (le_refl w)
  simp only [Scalar.greatest,hfilter]

theorem foldl_max_le {β : Type} {l : List β} {f g : β → Rounded A} (h : ∀ v ∈ l, f v ≤ g v)
    (hab : a ≤ b) : (l.map f).foldl max a ≤ (l.map g).foldl max b := by
  induction l generalizing a b with
  | nil => exact hab
  | cons v l ih =>
    obtain ⟨hv,hl⟩ := List.forall_mem_cons.mp h
    exact ih hl (max_le_max hab hv)

end Rounded

namespace Bound

/-- The lower end is not above the upper one. -/
abbrev InOrder {α : Type} [Scalar α] (b : Bound α) : Prop := b.lower ≤ b.upper

variable {A : Rounding} {b : Bound (Rounded A)}

theorem inOrder_ordered (b : Bound (Rounded A)) : b.ordered.InOrder := by
  unfold ordered
  split
  next h => exact h.le
  next h => exact not_lt.mp h

theorem inOrder_corners (ll lu ul uu : Rounded A) : (corners ll lu ul uu).InOrder :=
  (min_le_left _ _).trans ((min_le_left _ _).trans ((le_max_left _ _).trans (le_max_left _ _)))

theorem inOrder_hullWithZero (b : Bound (Rounded A)) : b.hullWithZero.InOrder :=
  (min_le_right _ _).trans (le_max_right _ _)

theorem inOrder_push (l : List (Rounded A)) (v : Rounded A) :
    (l.foldl push (point v)).InOrder :=
  List.foldlRecOn _ _ (le_refl v) fun _ _ _ _ => (min_le_right _ _).trans (le_max_right _ _)

theorem inOrder_greatest {l : List (Bound (Rounded A))} (h : ∀ b ∈ l, b.InOrder) :
    InOrder ⟨Scalar.greatest (l.map lower),Scalar.greatest (l.map upper)⟩ := by
  cases l with
  | nil => exact le_rfl
  | cons b l =>
    obtain ⟨hb,hl⟩ := List.forall_mem_cons.mp h
    simp only [List.map_cons,InOrder,Rounded.greatest_cons]
    exact Rounded.foldl_max_le hl hb

/-- Order of the ends is kept by all rules. -/
theorem stable_inOrder : Stable (InOrder (α := Rounded A)) where
  point v := le_refl v
  add ha hb := Rounded.add_le_add ha hb
  mul _ _ := inOrder_corners _ _ _ _
  scale _ _ := min_le_max
  weighted hb w := by
    unfold weighted
    split
    next hw => exact Rounded.mul_le_mul_left hw hb
    next hw => exact Rounded.mul_le_mul_left_of_neg hw hb
  ordered _ := inOrder_ordered _
  scaled {b} hb s := by
    simp only [Rounded.mul_comm _ s]
    split
    next hs => exact Rounded.mul_le_mul_left hs hb
    next hs => exact Rounded.mul_le_mul_left_of_neg hs hb
  divided hb _ hn := Rounded.div_le_div hn hb
  rectified hb := max_le_max_right 0 hb
  contracted _ _ := inOrder_ordered _
  greatest := inOrder_greatest
  lane {n x} _ j _ := by
    cases hget : (Softmax.lane ((List.range n).map x))[j]? with
    | none => exact le_rfl
    | some b =>
      obtain ⟨c,-,rfl⟩ := List.mem_map.mp (List.mem_of_getElem? hget)
      exact inOrder_ordered c
  output {column} _ layer b hb := by
    obtain ⟨c,hc,rfl⟩ := Array.mem_mapIdx.mp hb
    exact inOrder_push _ _
  derivative {column} _ layer c j _ _ := by
    unfold ResponseNorm.derivative
    split
    · exact inOrder_push _ _
    · unfold ResponseNorm.neighborDerivative
      split
      · exact le_rfl
      · exact inOrder_push _ _

end Bound

namespace Engine

variable {A : Rounding} {net : Network (Rounded A)} {e : Engine (Rounded A)}
  {x seed : Interval (Rounded A)} {r : Run (Rounded A)}

/-- However results are rounded, a run that starts from bounds in order stores bounds in order at
every node of both passes, as long as no average is over an area that is lost to a word. -/
theorem propagate_inOrder (he : compile net = .ok e) (hareas : e.HasAreas)
    (hr : e.propagate x seed = .ok r) (hx : x.All Bound.InOrder) (hseed : seed.All Bound.InOrder) :
    (∀ id < e.nodeCount, ∃ a d, r.activation? id = some a ∧ r.derivative? id = some d ∧
      a.All Bound.InOrder ∧ d.All Bound.InOrder) ∧
    r.output.All Bound.InOrder ∧ r.inputDerivative.All Bound.InOrder := by
  have hstable : Bound.Stable (Bound.InOrder (α := Rounded A)) := Bound.stable_inOrder
  have hforward : ∀ entry ∈ e.listing, ∀ t ∈ entry.2, t.Preserves (Bound.InOrder (α := Rounded A)) :=
    fun entry hentry t ht => hstable.forward (hareas entry hentry t ht)
  obtain ⟨houtput,hactivations⟩ := all_activations hstable.preserved he hforward hr hx
  obtain ⟨hinput,hderivatives⟩ := all_derivatives hstable.preserved he hforward hr hx hseed
    fun id node t a hentry _ ha d f hd hf => by
      have ht := (fits_of_compile he).fits_of_mem_listing (List.mem_of_getElem? hentry)
      exact hstable.backward ht ha (.inl fun b _ => b.inOrder_hullWithZero) hd hf
  refine ⟨fun id hid => ?_,houtput,hinput⟩
  obtain ⟨a,hstored,ha⟩ := hactivations id hid
  obtain ⟨d,hstored',hd⟩ := hderivatives id hid
  exact ⟨a,d,hstored,hstored',ha,hd⟩

/-- Rounding down, with no sense to quotients by zero and to elementary functions. -/
def floor : Rounding := ⟨fun q => ⌊q⌋,fun _ _ h => Int.cast_le.mpr (Int.floor_le_floor h),
  fun q => 7 - q,fun q => -q,fun q => q - 3,fun p q => q - p,5,-5⟩

/-- A convolution with a negative weight in front of a rectifier, beside a response norm, whose
square roots and powers make no sense, with averages over both. -/
theorem propagate_inOrder_block : ∃ (net : Network (Rounded floor)) (e : Engine (Rounded floor))
    (r : Run (Rounded floor)), compile net = .ok e ∧ e.nodeCount = 5 ∧ e.HasAreas ∧
      e.propagate (Tensor.fill [1,1,1] ⟨⟨-1⟩,⟨2⟩⟩) (Tensor.fill [1,2,2,2] ⟨⟨0⟩,⟨1⟩⟩) = .ok r ∧
      (∀ id < e.nodeCount, ∃ a d, r.activation? id = some a ∧ r.derivative? id = some d ∧
        a.All Bound.InOrder ∧ d.All Bound.InOrder) ∧
      r.output.All Bound.InOrder ∧ r.inputDerivative.All Bound.InOrder := by
  let net : Network (Rounded floor) := ⟨"n",[1,1,1],.block "b"
    (.cons "l" (.single "n" (.responseNorm ⟨1,⟨1⟩,⟨1 / 2⟩,⟨3 / 4⟩⟩) .nil) (.cons "r"
      (.single "c" (.convolution ⟨1,1,1,1,Tensor.fill [1,1,1,1] ⟨-3 / 2⟩,rfl,#[⟨0⟩],1,0,1⟩)
        (.single "a" .relu .nil)) .nil)) (.single "p" (.pooling ⟨.avg,2,1,1⟩) .nil)⟩
  obtain ⟨e,he,hareas⟩ : ∃ e, compile net = .ok e ∧ e.HasAreas :=
    exists_compile (by decide +kernel)
  obtain ⟨_,r,he',hr⟩ : ∃ e' r, compile net = .ok e' ∧
      e'.propagate (Tensor.fill [1,1,1] ⟨⟨-1⟩,⟨2⟩⟩) (Tensor.fill [1,2,2,2] ⟨⟨0⟩,⟨1⟩⟩) = .ok r :=
    exists_run_of_isOk (by decide +kernel)
  obtain rfl := Except.ok.inj (he.symm.trans he')
  have hfill : ∀ (shape : List ℕ) (b : Bound (Rounded floor)), b.InOrder →
      Interval.All Bound.InOrder (Tensor.fill shape b) := fun shape b hb i hi =>
    (Tensor.read_fill shape b hi).symm ▸ hb
  exact ⟨net,e,r,he,nodeCount_eq he,hareas,hr,
    propagate_inOrder he hareas hr (hfill _ _ (by decide)) (hfill _ _ (by decide))⟩

end Engine
end Sensitivity
