import Sensitivity.Proofs.Position

/-! Parts cut out of tensors. Behind each position in front of its axis, a part has consecutive
cells of the tensor that it is cut out of. -/
namespace Sensitivity
namespace Tensor

variable {α β : Type} [Inhabited β] {t part : Tensor β} {lead shape : List ℕ} {n start stop : ℕ}

theorem cut_position_lt {k i : ℕ} (hstop : stop ≤ n) (hi : i < (stop - start) * k) :
    start * k + i < n * k := by
  have hk : 0 < k := Nat.pos_of_ne_zero fun h0 => by simp [h0] at hi
  have hlt : 0 < stop - start := Nat.pos_of_ne_zero fun h0 => by simp [h0] at hi
  calc start * k + i < start * k + (stop - start) * k := Nat.add_lt_add_left hi _
    _ = stop * k := by rw [← Nat.add_mul,Nat.add_sub_cancel' (by omega)]
    _ ≤ n * k := Nat.mul_le_mul_right k hstop

/-- A tensor given by a rule in three steps, in front of an axis, on it and behind it. -/
theorem eq_ofFn_iff_cells {m : ℕ} {g : ℕ → ℕ → ℕ → β} :
    part = ofFn (lead ++ m :: shape) (fun i =>
        g (i / shape.prod / m) (i / shape.prod % m) (i % shape.prod)) ↔
      part.shape = lead ++ m :: shape ∧ ∀ o < lead.prod, ∀ j < m, ∀ k < shape.prod,
        part.read (axisPosition m shape.prod o j k) = g o j k := by
  have hprod : (lead ++ m :: shape).prod = lead.prod * m * shape.prod := by simp [mul_assoc]
  constructor
  · rintro rfl
    refine ⟨rfl,fun o ho j hj k hk => ?_⟩
    have hposition : axisPosition m shape.prod o j k < (lead ++ m :: shape).prod :=
      hprod ▸ Interval.row_position_lt (Interval.row_position_lt ho hj) hk
    rw [read_ofFn _ _ hposition,axisPosition,ImageShape.mul_add_div_of_lt hk,
      ImageShape.mul_add_div_of_lt hj,Nat.mul_add_mod_of_lt hj,Nat.mul_add_mod_of_lt hk]
  · rintro ⟨hshape,hread⟩
    refine ext_read hshape fun i hi => ?_
    rw [hshape] at hi
    rw [read_ofFn _ _ hi]
    rw [hprod] at hi
    have hk : 0 < shape.prod := Nat.pos_of_ne_zero fun h0 => by simp [h0] at hi
    have hm : 0 < m := Nat.pos_of_ne_zero fun h0 => by simp [h0] at hi
    have ho : i / shape.prod / m < lead.prod := by
      rwa [Nat.div_lt_iff_lt_mul hm,Nat.div_lt_iff_lt_mul hk]
    have hcell := hread _ ho _ (Nat.mod_lt (i / shape.prod) hm) _ (Nat.mod_lt i hk)
    rwa [axisPosition,Nat.div_add_mod',Nat.div_add_mod'] at hcell

theorem slice_eq_ok_iff_cells (ht : t.shape = lead ++ n :: shape) :
    t.slice lead.length start stop = (.ok part : Except (Error α) _) ↔
      start ≤ stop ∧ stop ≤ n ∧ part.shape = lead ++ (stop - start) :: shape ∧
        ∀ o < lead.prod, ∀ j < stop - start, ∀ k < shape.prod,
          part.read (axisPosition (stop - start) shape.prod o j k) =
            t.read (axisPosition n shape.prod o (start + j) k) := by
  have hinner : inner t.shape lead.length = shape.prod := by simp [inner,ht]
  have hextent : t.extent lead.length = n := by simp [extent,ht]
  have hset : t.shape.set lead.length (stop - start) = lead ++ (stop - start) :: shape := by simp [ht]
  have haxis : lead.length < t.rank := by simp [rank,ht]
  rw [slice_eq_ok_iff,hinner,hextent,hset,
    eq_ofFn_iff_cells (g := fun o j k => t.read (axisPosition n shape.prod o (start + j) k))]
  exact and_iff_right haxis

theorem axisPosition_add (n k o start j i : ℕ) :
    axisPosition n k o (start + j) i = o * (n * k) + (start * k + (j * k + i)) := by
  rw [axisPosition]
  ring

theorem slice_eq_ok_iff_read (ht : t.shape = lead ++ n :: shape) :
    t.slice lead.length start stop = (.ok part : Except (Error α) _) ↔
      start ≤ stop ∧ stop ≤ n ∧ part.shape = lead ++ (stop - start) :: shape ∧
        ∀ o < lead.prod, ∀ i < (stop - start) * shape.prod,
          part.read (o * ((stop - start) * shape.prod) + i) =
            t.read (o * (n * shape.prod) + (start * shape.prod + i)) := by
  have hpart (o j k : ℕ) : axisPosition (stop - start) shape.prod o j k =
      o * ((stop - start) * shape.prod) + (j * shape.prod + k) := by
    rw [axisPosition]
    ring
  simp only [slice_eq_ok_iff_cells ht,axisPosition_add,hpart]
  refine and_congr_right fun _ => and_congr_right fun _ => and_congr_right fun _ =>
    forall₂_congr fun o _ => ⟨fun h i hi => ?_,fun h j hj k hk => ?_⟩
  · have hk : 0 < shape.prod := Nat.pos_of_ne_zero fun h0 => by simp [h0] at hi
    have hcell := h _ ((Nat.div_lt_iff_lt_mul hk).mpr hi) _ (Nat.mod_lt i hk)
    rwa [Nat.div_add_mod'] at hcell
  · exact h _ (Interval.row_position_lt hj hk)

theorem shape_of_slice {rows : ℕ} (h : t.slice 1 start stop = (.ok part : Except (Error α) _))
    (ht : t.shape = rows :: n :: shape) : part.shape = rows :: (stop - start) :: shape := by
  have ht : t.shape = [rows] ++ n :: shape := ht
  obtain ⟨-,-,hshape,-⟩ := (slice_eq_ok_iff_read ht).mp h
  exact hshape

theorem index_eq_ok_iff_read {rows row : ℕ} (ht : t.shape = rows :: shape) :
    t.index 0 row = (.ok part : Except (Error α) _) ↔ row < rows ∧ part.shape = shape ∧
      ∀ i < shape.prod, part.read i = t.read (row * shape.prod + i) := by
  have haxis : 0 < t.rank := by simp [rank,ht]
  have hextent : t.extent 0 = rows := by simp [extent,ht]
  have hinner : inner t.shape 0 = shape.prod := by simp [inner,ht]
  have herase : t.shape.eraseIdx 0 = shape := by simp [ht]
  have hposition : ∀ i < shape.prod,
      axisPosition rows shape.prod (i / shape.prod) row (i % shape.prod) = row * shape.prod + i := by
    intro i hi
    rw [Nat.div_eq_of_lt hi,Nat.mod_eq_of_lt hi,axisPosition,Nat.zero_mul,Nat.zero_add]
  simp only [index,Error.bind_eq_ok_iff,checkAxis_eq_ok_iff,haxis,true_and,exists_const,hextent,
    hinner,herase]
  split
  next hrow =>
    rw [Error.pure_eq_ok_iff]
    constructor
    · rintro rfl
      refine ⟨hrow,rfl,fun i hi => ?_⟩
      rw [read_ofFn _ _ hi,hposition i hi]
    · rintro ⟨-,hshape,hread⟩
      refine ext_read hshape.symm fun i hi => ?_
      have hi : i < shape.prod := hi
      rw [read_ofFn _ _ hi,hposition i hi,hread i hi]
  next hrow => simp [hrow]

end Tensor
end Sensitivity
