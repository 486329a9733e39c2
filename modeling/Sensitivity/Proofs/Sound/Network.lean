import Sensitivity.Proofs.Listing
import Sensitivity.Proofs.Plan
import Sensitivity.Proofs.Slice
import Sensitivity.Proofs.Sound.Transform

/-! Networks at exact values. A run takes an input forward through all layers and a sensitivity
to the output back through them; what every layer meets is noted in the order of declaration. -/
namespace Sensitivity

/-- What a layer meets in a run: its input, and the sensitivity to its output. -/
structure Visit where
  kind : LayerKind ℝ
  input : Tensor ℝ
  sensitivity : Tensor ℝ

/-- The layer over its input; a block is none of its own. -/
def Visit.transform (v : Visit) : Option (Transform ℝ) :=
  match v.kind with
  | .single op => some (op.onShape v.input.shape)
  | .block _ => none

namespace Tensor

/-- The sum of two tensors of one shape. -/
noncomputable def plus (s t : Tensor ℝ) : Tensor ℝ := ofFn s.shape fun i => s.read i + t.read i

@[simp] theorem shape_plus (s t : Tensor ℝ) : (s.plus t).shape = s.shape := rfl

theorem read_plus {s : Tensor ℝ} (t : Tensor ℝ) {i : ℕ} (h : i < s.shape.prod) :
    (s.plus t).read i = s.read i + t.read i :=
  read_ofFn _ _ h

theorem plus_assoc {s t : Tensor ℝ} (u : Tensor ℝ) (h : t.shape = s.shape) :
    (s.plus t).plus u = s.plus (t.plus u) := by
  refine ext_read rfl fun i hi => ?_
  have hi : i < s.shape.prod := hi
  have hi' : i < t.shape.prod := h ▸ hi
  rw [read_plus (s := s.plus t) u hi,read_plus t hi,read_plus (t.plus u) hi,read_plus u hi',add_assoc]

theorem plus_zero (s : Tensor ℝ) : s.plus (fill s.shape 0) = s := by
  refine ext_read rfl fun i hi => ?_
  have hi : i < s.shape.prod := hi
  rw [read_plus _ hi,read_fill _ _ hi,add_zero]

theorem zero_plus (s : Tensor ℝ) : (fill s.shape 0).plus s = s := by
  refine ext_read rfl fun i hi => ?_
  have hi : i < s.shape.prod := hi
  rw [read_plus (s := fill s.shape 0) s hi,read_fill _ _ hi,zero_add]

end Tensor

mutual

/-- The layers take `x` to `y`, and a sensitivity `δ` to `y` back to `ε`. -/
inductive Layers.Runs : Layers ℝ → (x y δ ε : Tensor ℝ) → List Visit → Prop where
  | nil (x δ : Tensor ℝ) : Layers.Runs .nil x x δ δ []
  | single {name : String} {op : Operation ℝ} {rest : Layers ℝ} {x y δ δ' ε : Tensor ℝ}
      {visits : List Visit} (after : Layers.Runs rest (op.eval x) y δ δ' visits)
      (reversed : op.Reverses x δ' ε) :
      Layers.Runs (.single name op rest) x y δ ε (⟨.single op,x,δ'⟩ :: visits)
  | block {name : String} {branches : Branches ℝ} {rest : Layers ℝ} {x y z δ δ' ε : Tensor ℝ}
      {ys : List (Tensor ℝ)} {inside visits : List Visit}
      (split : Branches.Runs branches x δ' 0 ys ε inside)
      (merged : Tensor.concat ys 0 = (.ok z : Except (Error ℝ) (Tensor ℝ)))
      (after : Layers.Runs rest z y δ δ' visits) :
      Layers.Runs (.block name branches rest) x y δ ε (⟨.block branches,x,δ'⟩ :: (inside ++ visits))

/-- The branches all take `x`, and their channels of `δ`, from an offset on, back to parts that
add up to `ε`. -/
inductive Branches.Runs : Branches ℝ → (x δ : Tensor ℝ) → ℕ → List (Tensor ℝ) → (ε : Tensor ℝ) →
    List Visit → Prop where
  | nil (x δ : Tensor ℝ) (offset : ℕ) :
      Branches.Runs .nil x δ offset [] (Tensor.fill x.shape 0) []
  | cons {name : String} {layers : Layers ℝ} {rest : Branches ℝ} {x y δ part ε ε' : Tensor ℝ}
      {offset : ℕ} {ys : List (Tensor ℝ)} {inside visits : List Visit}
      (cut : δ.slice 0 offset (offset + y.extent 0) = (.ok part : Except (Error ℝ) (Tensor ℝ)))
      (first : Layers.Runs layers x y part ε inside)
      (others : Branches.Runs rest x δ (offset + y.extent 0) ys ε' visits) :
      Branches.Runs (.cons name layers rest) x δ offset (y :: ys) (ε.plus ε') (inside ++ visits)

end

mutual

theorem Layers.Runs.map_kind {layers : Layers ℝ} {x y δ ε : Tensor ℝ} {visits : List Visit}
    (h : layers.Runs x y δ ε visits) (parent : String) (depth : ℕ) :
    visits.map Visit.kind = (layers.declared parent depth).map Declared.kind := by
  cases layers with
  | nil =>
    cases h
    rfl
  | single name op rest =>
    cases h with
    | single after _ => rw [Layers.declared,List.map_cons,List.map_cons,after.map_kind]
  | block name branches rest =>
    cases h with
    | block split _ after =>
      rw [Layers.declared,List.map_cons,List.map_cons,List.map_append,List.map_append,
        split.map_kind,after.map_kind]

theorem Branches.Runs.map_kind {branches : Branches ℝ} {x δ ε : Tensor ℝ} {offset : ℕ}
    {ys : List (Tensor ℝ)} {visits : List Visit} (h : branches.Runs x δ offset ys ε visits)
    (parent : String) (depth : ℕ) :
    visits.map Visit.kind = (branches.declared parent depth).map Declared.kind := by
  cases branches with
  | nil =>
    cases h
    rfl
  | cons name layers rest =>
    cases h with
    | cons _ first others =>
      rw [Branches.declared,List.map_append,List.map_append,first.map_kind,others.map_kind]

end

namespace Interval

variable {X Y D E : Interval ℝ} {x y δ ε part : Tensor ℝ} {row : ℕ}

theorem extents_eq {Ys : List (Interval ℝ)} {ys : List (Tensor ℝ)}
    (h : List.Forall₂ Encloses Ys ys) (axis : ℕ) :
    Ys.map (Tensor.extent · axis) = ys.map (Tensor.extent · axis) := by
  rw [← List.forall₂_eq_eq_eq,List.forall₂_map_left_iff,List.forall₂_map_right_iff]
  exact h.imp fun _ _ h => congrArg (·.getD axis 0) h.1

/-- Joined bounds enclose the joined tensors, which join as soon as the bounds do. -/
theorem exists_concat {Ys : List (Interval ℝ)} {ys : List (Tensor ℝ)} {axis : ℕ}
    (h : List.Forall₂ Encloses Ys ys)
    (hY : Tensor.concat Ys axis = (.ok Y : Except (Error ℝ) (Interval ℝ))) :
    ∃ y, Tensor.concat ys axis = (.ok y : Except (Error ℝ) (Tensor ℝ)) ∧ Y.Encloses y := by
  have hrel : List.Forall₂ (Tensor.Rel Bound.Contains) Ys ys := h.imp fun _ _ => encloses_iff_rel.mp
  obtain ⟨First,Rest,rfl,haxis,hcross,ha,-⟩ := Tensor.concat_eq_ok_iff.mp hY
  obtain ⟨first,rest,hfirst,hrest,rfl⟩ := List.forall₂_cons_left_iff.mp hrel
  have hextents := extents_eq h axis
  obtain ⟨y,hy⟩ : ∃ y, Tensor.concat (first :: rest) axis =
      (.ok y : Except (Error ℝ) (Tensor ℝ)) := by
    refine ⟨_,Tensor.concat_eq_ok_iff.mpr ⟨first,rest,rfl,?_,fun p hp => ?_,?_,rfl⟩⟩
    · simpa [Tensor.rank,hfirst.shape] using haxis
    · have hmem : p.shape ∈ Rest.map Tensor.shape :=
        Tensor.shapes_of_rel hrest ▸ List.mem_map_of_mem (f := Tensor.shape) hp
      obtain ⟨P,hP,hshape⟩ := List.mem_map.mp hmem
      have hcross := hcross P hP
      rwa [Tensor.rank,Tensor.rank,hshape,hfirst.shape] at hcross
    · rwa [← hextents,← hfirst.shape]
  exact ⟨y,hy,encloses_iff_rel.mpr (Tensor.rel_concat hrel Bound.contains_zero hY hy)⟩

theorem EnclosesRow.slice {start stop channels : ℕ} {rest : List ℕ} {P : Interval ℝ}
    (h : D.EnclosesRow row δ) (hδ : δ.shape = channels :: rest)
    (hP : D.slice 1 start stop = (.ok P : Except (Error ℝ) (Interval ℝ)))
    (hp : δ.slice 0 start stop = (.ok part : Except (Error ℝ) (Tensor ℝ))) :
    P.EnclosesRow row part := by
  obtain ⟨rows,hrows,hrow,hcells⟩ := h
  have hlead : D.shape = [rows] ++ channels :: rest := by rw [hrows,hδ]; rfl
  have hlead' : δ.shape = [] ++ channels :: rest := hδ
  obtain ⟨-,hstop,hPshape,hPread⟩ := (Tensor.slice_eq_ok_iff_read hlead).mp hP
  obtain ⟨-,-,hpshape,hpread⟩ := (Tensor.slice_eq_ok_iff_read hlead').mp hp
  refine ⟨rows,hPshape.trans (by rw [hpshape]; rfl),hrow,fun i hi => ?_⟩
  have hprod : part.shape.prod = (stop - start) * rest.prod := by rw [hpshape]; simp
  rw [hprod] at hi ⊢
  have hcell := hcells (start * rest.prod + i) (by
    rw [hδ,List.prod_cons]
    exact Tensor.cut_position_lt hstop hi)
  rw [hδ,List.prod_cons,← hPread row (by simpa using hrow) i hi] at hcell
  have hpart := hpread 0 Nat.one_pos i hi
  rw [Nat.zero_mul,Nat.zero_add,Nat.zero_mul,Nat.zero_add] at hpart
  rw [hpart]
  exact hcell

theorem Encloses.enclosesRow (h : D.Encloses δ)
    (hrow : δ.index 0 row = (.ok part : Except (Error ℝ) (Tensor ℝ))) : D.EnclosesRow row part := by
  have haxis := hrow
  simp only [Tensor.index,Error.bind_eq_ok_iff,Tensor.checkAxis_eq_ok_iff] at haxis
  obtain ⟨-,haxis,-⟩ := haxis
  obtain ⟨rows,rest,hδ⟩ := List.exists_cons_of_length_pos haxis
  obtain ⟨hlt,hshape,hread⟩ := (Tensor.index_eq_ok_iff_read hδ).mp hrow
  refine ⟨rows,h.1.trans (hδ.trans (hshape ▸ rfl)),hlt,fun i hi => ?_⟩
  rw [hshape] at hi ⊢
  rw [hread i hi]
  exact h.contains_read _

theorem EnclosesRow.add (hd : D.EnclosesRow row δ) (he : E.EnclosesRow row ε)
    (hshape : ε.shape = δ.shape) {sum : Interval ℝ} (hsum : D.add E = .ok sum) :
    sum.EnclosesRow row (δ.plus ε) := by
  obtain ⟨rows,hrows,hrow,hcells⟩ := hd
  obtain ⟨-,-,-,hcells'⟩ := he
  obtain ⟨-,hsum,hread⟩ := Tensor.zip_eq_ok_iff.mp hsum
  refine ⟨rows,hsum.trans hrows,hrow,fun i hi => ?_⟩
  have hi : i < δ.shape.prod := hi
  have hposition : row * δ.shape.prod + i < D.shape.prod := by
    rw [hrows]
    exact row_position_lt hrow hi
  rw [Tensor.shape_plus,hread _ hposition,Tensor.read_plus ε hi]
  rw [hshape] at hcells'
  exact Bound.contains_add (hcells i hi) (hcells' i hi)

end Interval
end Sensitivity
