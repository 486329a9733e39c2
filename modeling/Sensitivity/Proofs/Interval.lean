import Sensitivity.Layer.Window
import Sensitivity.Interval.Contraction
import Sensitivity.Proofs.Tensor

/-! What the checks of layers admit, and what contractions and images hold, cell by cell. -/
namespace Sensitivity
namespace Interval

variable {α : Type}

theorem expectShape_eq_ok_iff {x : Interval α} {shape : List ℕ} {u : Unit} :
    x.expectShape shape = .ok u ↔ x.shape = shape := by
  unfold expectShape
  split <;> simp_all

theorem rowCount_eq_ok_iff {d : Interval α} {shape : List ℕ} {rows : ℕ} :
    d.rowCount shape = .ok rows ↔ d.shape = rows :: shape := by
  unfold rowCount
  split
  next n rest h =>
    split
    next hrest =>
      subst hrest
      simp [h,eq_comm]
    next hrest => simp [h,hrest]
  next h => simp [h]

theorem ofRows_eq_ok_iff {rows : ℕ} {image : ImageShape} {cell : ℕ → ℕ → ℕ → ℕ → Bound α}
    {r : Interval α} :
    ofRows rows image cell = .ok r ↔
      rows ≠ 0 ∧ Tensor.Addressable (rows :: image.toList) ∧
        r = Tensor.ofFn (rows :: image.toList) fun i =>
          cell (i / image.width / image.height / image.channels)
            (i / image.width / image.height % image.channels)
            (i / image.width % image.height) (i % image.width) := by
  unfold ofRows
  split
  next h => simp [h]
  next h =>
    rw [Tensor.allocate_eq_ok_iff]
    simp [h,ImageShape.toList]

theorem exists_ofRows_iff {rows : ℕ} {image : ImageShape} {cell : ℕ → ℕ → ℕ → ℕ → Bound α} :
    (∃ r, ofRows rows image cell = .ok r) ↔
      rows ≠ 0 ∧ Tensor.Addressable (rows :: image.toList) := by
  simp only [ofRows_eq_ok_iff,exists_and_left,exists_eq,and_true]

theorem shape_of_ofRows {rows : ℕ} {image : ImageShape} {cell : ℕ → ℕ → ℕ → ℕ → Bound α}
    {r : Interval α} (h : ofRows rows image cell = .ok r) : r.shape = rows :: image.toList := by
  obtain ⟨-,-,rfl⟩ := ofRows_eq_ok_iff.mp h
  rfl

theorem exists_rows_iff {β : Type} {t : Tensor β} {rows : ℕ} {shape : List ℕ} {P : ℕ → Prop}
    (h : t.shape = rows :: shape) : (∃ n, t.shape = n :: shape ∧ P n) ↔ P rows := by
  constructor
  · rintro ⟨n,hn,hP⟩
    obtain rfl := List.head_eq_of_cons_eq (h.symm.trans hn)
    exact hP
  · exact fun hP => ⟨rows,h,hP⟩

@[simp] theorem shape_ofImage (image : ImageShape) (cell : ℕ → ℕ → ℕ → Bound α) :
    (ofImage image cell).shape = image.toList := rfl

variable [Scalar α]

/-- The weight is a matrix whose columns make up the axes `tail`: one axis, or none if it is a
vector, which is a single column. -/
theorem contract_eq {x : Interval α} {w : Tensor α} {lead tail : List ℕ} {k height : ℕ}
    (hx : x.shape = lead ++ [k]) (hw : w.shape = height :: tail) (htail : tail.length ≤ 1) :
    contract x w = if height = k then
      (signSplitProduct (fun i j => x.read (i * k + j)) (fun j c => w.read (j * tail.prod + c))
        (x.size / max k 1) k tail.prod).ordered.reshape (lead ++ tail)
      else .error (.shapeMismatch [k] [height]) := by
  have hlast : x.shape.getLast? = some k := by simp [hx]
  have hdrop : x.shape.dropLast = lead := by simp [hx]
  unfold contract
  simp only [hlast,hdrop,hw]
  match tail,htail with
  | [],_ => simp only [List.prod_nil]
  | [columns],_ => simp only [List.prod_singleton]

/-- Contracting replaces the last extent by the columns of the weight. Without any rows of the
weight the result has no cells either. -/
theorem contract_tail_eq_ok_iff {x r : Interval α} {w : Tensor α} {lead tail : List ℕ}
    {k height : ℕ} (hx : x.shape = lead ++ [k]) (hw : w.shape = height :: tail)
    (htail : tail.length ≤ 1) :
    contract x w = .ok r ↔
      height = k ∧ (k = 0 → lead.prod * tail.prod = 0) ∧ Tensor.Addressable (lead ++ tail) ∧
        r.shape = lead ++ tail ∧ ∀ i < lead.prod * tail.prod,
          r.read i = (signSplit k (fun j => x.read (i / tail.prod * k + j))
            (fun j => w.read (j * tail.prod + i % tail.prod))).ordered := by
  have hsize : x.size = lead.prod * k := by simp [Tensor.size_eq,hx]
  rw [contract_eq hx hw htail]
  split
  next hk =>
    subst hk
    rw [Tensor.reshape_eq_ok_iff]
    have hrows : x.size / max height 1 * tail.prod = lead.prod * tail.prod ↔
        (height = 0 → lead.prod * tail.prod = 0) := by
      rcases Nat.eq_zero_or_pos height with h | h
      · subst h
        simp [hsize,eq_comm]
      · rw [hsize,max_eq_left h,Nat.mul_div_cancel _ h]
        simp [h.ne']
    have hproduct : (ordered (signSplitProduct (fun i j => x.read (i * height + j))
        (fun j c => w.read (j * tail.prod + c)) (x.size / max height 1) height
          tail.prod)).shape.prod = x.size / max height 1 * tail.prod := by
      simp [ordered,signSplitProduct]
    rw [hproduct,List.prod_append,hrows,eq_self,true_and]
    refine and_congr_right fun hzero => and_congr_right fun _ => and_congr_right fun _ =>
      forall_congr' fun i => imp_congr_right fun hi => ?_
    have hi' : i < [x.size / max height 1,tail.prod].prod := by
      simp only [List.prod_cons,List.prod_nil,Nat.mul_one]
      rw [hrows.mpr hzero]
      exact hi
    rw [ordered,Tensor.read_map _ _ (by simpa [signSplitProduct] using hi'),
      signSplitProduct,Tensor.read_ofFn _ _ hi']
  next hk => simp [hk]

theorem contract_eq_ok_iff {x r : Interval α} {w : Tensor α} {lead : List ℕ} {k height columns : ℕ}
    (hx : x.shape = lead ++ [k]) (hw : w.shape = [height,columns]) :
    contract x w = .ok r ↔
      height = k ∧ (k = 0 → lead.prod * columns = 0) ∧ Tensor.Addressable (lead ++ [columns]) ∧
        r.shape = lead ++ [columns] ∧ ∀ i < lead.prod * columns,
          r.read i = (signSplit k (fun j => x.read (i / columns * k + j))
            (fun j => w.read (j * columns + i % columns))).ordered := by
  have h := contract_tail_eq_ok_iff (r := r) hx hw le_rfl
  rwa [List.prod_singleton] at h

theorem exists_contract_tail {x : Interval α} {w : Tensor α} {lead tail : List ℕ} {k : ℕ}
    (hx : x.shape = lead ++ [k]) (hw : w.shape = k :: tail) (htail : tail.length ≤ 1)
    (ha : Tensor.Addressable (lead ++ tail)) (hempty : k = 0 → lead.prod * tail.prod = 0) :
    ∃ r, contract x w = .ok r := by
  let r : Interval α := Tensor.ofFn (lead ++ tail) fun i =>
    (signSplit k (fun j => x.read (i / tail.prod * k + j))
      (fun j => w.read (j * tail.prod + i % tail.prod))).ordered
  refine ⟨r,(contract_tail_eq_ok_iff hx hw htail).mpr ⟨rfl,hempty,ha,rfl,?_⟩⟩
  intro i hi
  exact Tensor.read_ofFn _ _ (by simpa using hi)

theorem exists_contract {x : Interval α} {w : Tensor α} {lead : List ℕ} {k columns : ℕ}
    (hx : x.shape = lead ++ [k]) (hw : w.shape = [k,columns]) (hk : k ≠ 0)
    (ha : Tensor.Addressable (lead ++ [columns])) : ∃ r, contract x w = .ok r :=
  exists_contract_tail hx hw le_rfl ha fun h => absurd h hk

theorem contract_eq_rank {x : Interval α} {w : Tensor α} {lead : List ℕ} {k : ℕ}
    (hx : x.shape = lead ++ [k]) (hone : w.rank ≠ 1) (htwo : w.rank ≠ 2) :
    contract x w = .error (.badConfig (.contractionRank w.rank)) := by
  have hlast : x.shape.getLast? = some k := by simp [hx]
  unfold contract
  simp only [hlast]
  match hw : w.shape with
  | [] => simp [Tensor.rank,hw]
  | [_] => simp [Tensor.rank,hw] at hone
  | [_,_] => simp [Tensor.rank,hw] at htwo
  | _ :: _ :: _ :: _ => simp [Tensor.rank,hw]

end Interval
end Sensitivity
