import Sensitivity.Single
import Sensitivity.Proofs.Slice

/-! Joining and cutting undo each other. Tensors that agree off an axis join along it, and where
they were put the result has them again; the pieces of a tensor between cut points join to the
tensor. Rows are stacked and taken out again in the same way. -/
namespace Sensitivity
namespace Tensor

variable {α β : Type} [Inhabited β] {s t p r first : Tensor β} {rest before after : List (Tensor β)}
  {lead shape : List ℕ} {n axis : ℕ}

/-- The same rank, and the same extents off an axis. -/
structure Agrees (axis : ℕ) (s t : Tensor β) : Prop where
  rank : s.rank = t.rank
  extent : ∀ a, a ≠ axis → s.extent a = t.extent a

/-- The extents of some tensors along an axis, added up. -/
def joinedExtent (axis : ℕ) (parts : List (Tensor β)) : ℕ := (parts.map (·.extent axis)).sum

/-- The parts of a tensor between consecutive cut points. -/
def pieces (t : Tensor β) (axis : ℕ) (cuts : List ℕ) : Except (Error α) (List (Tensor β)) :=
  (cuts.zip cuts.tail).mapM fun c => t.slice axis c.1 c.2

/-- What joining some tensors along an axis ends in. Where they agree off the axis and an allocation
can hold the result, each of them is the part of the result behind those before it. -/
structure Joins (first : Tensor β) (rest : List (Tensor β)) (axis : ℕ)
    (result : Except (Error α) (Tensor β)) : Prop where
  joined : axis < first.rank → (∀ p ∈ rest, p.Agrees axis first) →
    Addressable (first.shape.set axis (joinedExtent axis (first :: rest))) →
    ∃ r, result = .ok r ∧ r.shape = first.shape.set axis (joinedExtent axis (first :: rest)) ∧
      r.extent axis = joinedExtent axis (first :: rest) ∧
      ∀ before p after, first :: rest = before ++ p :: after →
        r.slice axis (joinedExtent axis before) (joinedExtent axis before + p.extent axis) =
          (.ok p : Except (Error α) _)
  huge : axis < first.rank → (∀ p ∈ rest, p.Agrees axis first) →
    ¬ Addressable (first.shape.set axis (joinedExtent axis (first :: rest))) →
    result = .error (.badConfig .hugeConcat)
  mismatch : axis < first.rank → (¬ ∀ p ∈ rest, p.Agrees axis first) →
    ∃ p ∈ rest, ¬ p.Agrees axis first ∧ result = .error (.shapeMismatch first.shape p.shape)
  outside : first.rank ≤ axis → result = .error (.badConfig (.axis axis first.rank))

/-- What stacking some tensors ends in. Where they are of one shape and an allocation can hold the
result, each of them is a row of the result. -/
structure Stacks (first : Tensor β) (rest : List (Tensor β))
    (result : Except (Error α) (Tensor β)) : Prop where
  stacked : (∀ p ∈ rest, p.shape = first.shape) →
    Addressable ((first :: rest).length :: first.shape) →
    ∃ r, result = .ok r ∧ r.shape = (first :: rest).length :: first.shape ∧
      ∀ j p, (first :: rest)[j]? = some p → r.index 0 j = (.ok p : Except (Error α) _)
  huge : (∀ p ∈ rest, p.shape = first.shape) →
    ¬ Addressable ((first :: rest).length :: first.shape) → result = .error (.badConfig .hugeStack)
  mismatch : (¬ ∀ p ∈ rest, p.shape = first.shape) →
    ∃ p ∈ rest, p.shape ≠ first.shape ∧ result = .error (.shapeMismatch first.shape p.shape)

omit [Inhabited β]

theorem shape_eq_split (h : axis < t.rank) :
    t.shape = t.shape.take axis ++ t.extent axis :: t.shape.drop (axis + 1) := by
  have haxis : axis < t.shape.length := h
  rw [extent,List.getD_eq_getElem?_getD,List.getElem?_eq_getElem haxis,Option.getD_some,
    ← List.drop_eq_getElem_cons haxis,List.take_append_drop]

theorem exists_shape (h : axis < t.rank) :
    ∃ lead shape, lead.length = axis ∧ t.shape = lead ++ t.extent axis :: shape :=
  ⟨_,_,List.length_take_of_le (le_of_lt h),shape_eq_split h⟩

theorem extent_eq_getElem? (t : Tensor β) (a : ℕ) : t.extent a = t.shape[a]?.getD 0 :=
  List.getD_eq_getElem?_getD

theorem agrees_iff : s.Agrees axis t ↔
    s.rank = t.rank ∧ crossSection s.shape axis = crossSection t.shape axis := by
  constructor
  · intro h
    refine ⟨h.rank,List.ext_getElem? fun i => ?_⟩
    have hget : ∀ a, a ≠ axis → s.shape[a]? = t.shape[a]? := by
      intro a ha
      have hlength : s.shape.length = t.shape.length := h.rank
      have hextent := h.extent a ha
      rw [extent_eq_getElem?,extent_eq_getElem?] at hextent
      by_cases hlt : a < s.shape.length
      · have hlt' : a < t.shape.length := hlength ▸ hlt
        simpa [List.getElem?_eq_getElem hlt,List.getElem?_eq_getElem hlt'] using hextent
      · rw [List.getElem?_eq_none (not_lt.mp hlt),
          List.getElem?_eq_none (hlength ▸ not_lt.mp hlt)]
    rw [crossSection,crossSection,List.getElem?_eraseIdx,List.getElem?_eraseIdx]
    split
    next hi => exact hget i hi.ne
    next hi => exact hget (i + 1) (by omega)
  · rintro ⟨hrank,hcross⟩
    refine ⟨hrank,fun a ha => ?_⟩
    rw [extent_eq_getElem?,extent_eq_getElem?]
    rcases Nat.lt_or_gt_of_ne ha with hlt | hgt
    · have h := congrArg (·[a]?) hcross
      simp only [crossSection,List.getElem?_eraseIdx,if_pos hlt] at h
      rw [h]
    · have h := congrArg (·[a - 1]?) hcross
      have hge : ¬ a - 1 < axis := by omega
      have hsucc : a - 1 + 1 = a := by omega
      simp only [crossSection,List.getElem?_eraseIdx,if_neg hge,hsucc] at h
      rw [h]

theorem disagrees_iff : decide (p.rank ≠ first.rank ∨
    crossSection p.shape axis ≠ crossSection first.shape axis) = true ↔
      ¬ p.Agrees axis first := by
  rw [decide_eq_true_iff,agrees_iff,not_and_or]

theorem Agrees.shape_eq (h : p.Agrees lead.length t) (ht : t.shape = lead ++ n :: shape) :
    p.shape = lead ++ p.extent lead.length :: shape := by
  have hrank : lead.length < p.rank := by
    rw [h.rank]
    simp [Tensor.rank,ht]
  have hcross := (agrees_iff.mp h).2
  have ht' : t.shape.eraseIdx lead.length = lead ++ shape := by
    simp [ht,List.eraseIdx_eq_take_drop_succ]
  rw [crossSection,crossSection,ht',List.eraseIdx_eq_take_drop_succ] at hcross
  obtain ⟨hlead,hshape⟩ := List.append_inj hcross (List.length_take_of_le (le_of_lt hrank))
  rw [← hlead,← hshape]
  simpa [hlead] using shape_eq_split hrank

variable [Inhabited β]

theorem sideBySide_append {o j k : ℕ} (hj : j < p.extent axis) :
    sideBySide axis o k (before ++ p :: after) (joinedExtent axis before + j) =
      p.read (axisPosition (p.extent axis) (inner p.shape axis) o j k) := by
  -- The induction is on the parts before, each of which the position steps over.
  induction before with
  | nil =>
    have hzero : joinedExtent axis ([] : List (Tensor β)) + j = j := Nat.zero_add j
    rw [List.nil_append,sideBySide,hzero,if_pos hj]
  | cons q before ih =>
    have hcons : joinedExtent axis (q :: before) + j =
        q.extent axis + (joinedExtent axis before + j) := Nat.add_assoc _ _ _
    rw [List.cons_append,sideBySide,hcons,if_neg (by omega),Nat.add_sub_cancel_left,ih]

/-- The result of joining is known by its shape and by the cells side by side in it. -/
theorem concat_eq_ok_iff_cells
    (hparts : ∀ p ∈ first :: rest, p.shape = lead ++ p.extent lead.length :: shape) :
    concat (first :: rest) lead.length = (.ok r : Except (Error α) _) ↔
      Addressable (lead ++ joinedExtent lead.length (first :: rest) :: shape) ∧
        r.shape = lead ++ joinedExtent lead.length (first :: rest) :: shape ∧
        ∀ o < lead.prod, ∀ j < joinedExtent lead.length (first :: rest), ∀ k < shape.prod,
          r.read (axisPosition (joinedExtent lead.length (first :: rest)) shape.prod o j k) =
            sideBySide lead.length o k (first :: rest) j := by
  have hfirst := hparts first List.mem_cons_self
  have hinner : inner first.shape lead.length = shape.prod := by
    rw [hfirst]
    simp [inner]
  have hset (m : ℕ) : first.shape.set lead.length m = lead ++ m :: shape := by
    rw [hfirst]
    simp
  have haxis : lead.length < first.rank := by
    rw [rank,hfirst]
    simp
  have hagree : ∀ p ∈ rest, p.rank = first.rank ∧
      crossSection p.shape lead.length = crossSection first.shape lead.length := by
    intro p hp
    rw [rank,rank,hparts p (List.mem_cons_of_mem first hp),hfirst]
    simp [crossSection,List.eraseIdx_append_of_length_le]
  rw [concat_eq_ok_iff]
  constructor
  · rintro ⟨_,_,hcons,-,-,ha,hr⟩
    obtain ⟨rfl,rfl⟩ := List.cons.inj hcons
    rw [hinner,hset] at hr
    rw [hset] at ha
    exact ⟨ha,eq_ofFn_iff_cells.mp hr⟩
  · rintro ⟨ha,hr⟩
    refine ⟨first,rest,rfl,haxis,hagree,?_,?_⟩
    · rwa [hset]
    · rw [hinner,hset]
      exact eq_ofFn_iff_cells.mpr hr

theorem slice_of_concat
    (hparts : ∀ q ∈ before ++ p :: after, q.shape = lead ++ q.extent lead.length :: shape)
    (h : concat (before ++ p :: after) lead.length = (.ok r : Except (Error α) _)) :
    r.slice lead.length (joinedExtent lead.length before)
      (joinedExtent lead.length before + p.extent lead.length) = (.ok p : Except (Error α) _) := by
  obtain ⟨first,rest,hcons⟩ : ∃ first rest, before ++ p :: after = first :: rest := by
    cases before with
    | nil => exact ⟨p,after,rfl⟩
    | cons q before => exact ⟨q,before ++ p :: after,rfl⟩
  have htotal : joinedExtent lead.length (before ++ p :: after) = joinedExtent lead.length before +
      (p.extent lead.length + joinedExtent lead.length after) := by
    simp [joinedExtent]
  rw [hcons] at hparts h htotal
  obtain ⟨-,hshape,hread⟩ := (concat_eq_ok_iff_cells hparts).mp h
  have hp : p ∈ first :: rest := hcons ▸ List.mem_append_right before List.mem_cons_self
  have hpshape := hparts p hp
  have hinner : inner p.shape lead.length = shape.prod := by
    rw [hpshape]
    simp [inner]
  rw [slice_eq_ok_iff_cells hshape]
  refine ⟨by omega,by omega,?_,fun o ho j hj k hk => ?_⟩
  · rwa [Nat.add_sub_cancel_left]
  · rw [Nat.add_sub_cancel_left] at hj ⊢
    rw [hread o ho _ (by omega) k hk,← hcons,sideBySide_append hj,hinner]

/-- The pieces from a cut point to the end of an axis, side by side, are the rest of the tensor. -/
theorem exists_pieces (ht : t.shape = lead ++ n :: shape) {start : ℕ} {cuts : List ℕ}
    (hsorted : (start :: cuts).Pairwise (· ≤ ·)) (hlast : (start :: cuts).getLast? = some n) :
    ∃ ps, t.pieces lead.length (start :: cuts) = (.ok ps : Except (Error α) _) ∧
      ps.length = cuts.length ∧
      (∀ p ∈ ps, p.shape = lead ++ p.extent lead.length :: shape) ∧
      start + joinedExtent lead.length ps = n ∧
      ∀ o < lead.prod, ∀ j, start + j < n → ∀ k < shape.prod,
        sideBySide lead.length o k ps j = t.read (axisPosition n shape.prod o (start + j) k) := by
  induction cuts generalizing start with
  | nil =>
    have hstart : start = n := by simpa using hlast
    refine ⟨[],rfl,rfl,by simp,hstart,fun o _ j hj => ?_⟩
    omega
  | cons stop cuts ih =>
    rw [List.getLast?_cons_cons] at hlast
    obtain ⟨hle,hsorted⟩ := List.pairwise_cons.mp hsorted
    have hstart : start ≤ stop := hle stop List.mem_cons_self
    obtain ⟨ps,hps,hlength,hshape,htotal,hread⟩ := ih hsorted hlast
    have hstop : stop ≤ n := by omega
    obtain ⟨q,hq⟩ : ∃ q, t.slice lead.length start stop = (.ok q : Except (Error α) _) := by
      refine ⟨_,slice_eq_ok_iff.mpr ⟨?_,hstart,?_,rfl⟩⟩
      · simp [rank,ht]
      · simpa [extent,ht] using hstop
    obtain ⟨-,-,hqshape,hqread⟩ := (slice_eq_ok_iff_cells ht).mp hq
    have hextent : q.extent lead.length = stop - start := by simp [extent,hqshape]
    have hinner : inner q.shape lead.length = shape.prod := by simp [inner,hqshape]
    refine ⟨q :: ps,?_,congrArg (· + 1) hlength,?_,?_,fun o ho j hj k hk => ?_⟩
    · rw [pieces,Error.mapM_eq_ok_iff] at hps ⊢
      exact .cons hq hps
    · intro p hp
      rcases List.mem_cons.mp hp with rfl | hp
      · rw [hextent,hqshape]
      · exact hshape p hp
    · have hcons : joinedExtent lead.length (q :: ps) =
          (stop - start) + joinedExtent lead.length ps := congrArg (· + _) hextent
      omega
    · rw [sideBySide,hextent,hinner]
      split
      next hpiece => exact hqread o ho j hpiece k hk
      next hpiece =>
        have hbehind : stop + (j - (stop - start)) = start + j := by omega
        rw [hread o ho _ (by omega) k hk,hbehind]

theorem concat_pieces (haxis : axis < t.rank) (ha : Addressable t.shape) {cuts : List ℕ}
    (hlength : 2 ≤ cuts.length) (hhead : cuts.head? = some 0)
    (hlast : cuts.getLast? = some (t.extent axis)) (hsorted : cuts.Pairwise (· ≤ ·)) :
    (t.pieces axis cuts >>= fun ps => concat ps axis) = (.ok t : Except (Error α) _) := by
  obtain ⟨start,cuts,rfl⟩ := List.exists_cons_of_length_pos (Nat.zero_lt_of_lt hlength)
  obtain rfl : start = 0 := by simpa using hhead
  obtain ⟨lead,shape,rfl,ht⟩ := exists_shape haxis
  obtain ⟨ps,hps,hcount,hshape,htotal,hread⟩ := exists_pieces (α := α) ht hsorted hlast
  rw [Nat.zero_add] at htotal
  refine Error.bind_eq_ok_iff.mpr ⟨ps,hps,?_⟩
  cases ps with
  | nil => simp [← hcount] at hlength
  | cons first rest =>
    have hjoin := concat_eq_ok_iff_cells (α := α) (r := t) hshape
    rw [htotal] at hjoin
    refine hjoin.mpr ⟨ht ▸ ha,ht,fun o ho j hj k hk => ?_⟩
    rw [hread o ho j (by omega) k hk,Nat.zero_add]

theorem concat_eq_allocate (haxis : axis < first.rank)
    (hall : ∀ p ∈ rest, p.Agrees axis first) :
    concat (first :: rest) axis = (allocate .hugeConcat
      (first.shape.set axis (joinedExtent axis (first :: rest))) fun i =>
        sideBySide axis (i / inner first.shape axis / joinedExtent axis (first :: rest))
          (i % inner first.shape axis) (first :: rest)
          (i / inner first.shape axis % joinedExtent axis (first :: rest)) :
            Except (Error α) _) := by
  have hfind : rest.find? (fun p => decide (p.rank ≠ first.rank ∨
      crossSection p.shape axis ≠ crossSection first.shape axis)) = none :=
    List.find?_eq_none.mpr fun p hp => disagrees_iff.not.mpr (not_not.mpr (hall p hp))
  simp only [concat,checkAxis,if_pos haxis,hfind]
  rfl

theorem joins_concat (first : Tensor β) (rest : List (Tensor β)) (axis : ℕ) :
    Joins (α := α) first rest axis (concat (first :: rest) axis) := by
  constructor
  case joined =>
    intro haxis hall ha
    obtain ⟨lead,shape,rfl,hfirst⟩ := exists_shape haxis
    have hparts : ∀ p ∈ first :: rest, p.shape = lead ++ p.extent lead.length :: shape :=
      List.forall_mem_cons.mpr ⟨hfirst,fun p hp => (hall p hp).shape_eq hfirst⟩
    obtain ⟨r,hr⟩ : ∃ r, concat (first :: rest) lead.length = (.ok r : Except (Error α) _) :=
      ⟨_,(concat_eq_allocate haxis hall).trans (if_pos ha)⟩
    have hshape := (allocate_eq_ok_iff _ _ _ _).mp ((concat_eq_allocate haxis hall).symm.trans hr)
    refine ⟨r,hr,?_,?_,?_⟩
    · rw [hshape.2,shape_ofFn]
    · have haxis : lead.length < first.shape.length := haxis
      simp [hshape.2,extent,List.getD_eq_getElem?_getD,haxis]
    · intro before p after hcons
      rw [hcons] at hparts hr
      exact slice_of_concat hparts hr
  case huge =>
    intro haxis hall ha
    exact (concat_eq_allocate haxis hall).trans (if_neg ha)
  case mismatch =>
    intro haxis hall
    cases hfind : rest.find? (fun p => decide (p.rank ≠ first.rank ∨
        crossSection p.shape axis ≠ crossSection first.shape axis)) with
    | none =>
      refine absurd (fun p hp => ?_) hall
      exact not_not.mp (disagrees_iff.not.mp (List.find?_eq_none.mp hfind p hp))
    | some p =>
      have hp := List.find?_some hfind
      refine ⟨p,List.mem_of_find?_eq_some hfind,disagrees_iff.mp hp,?_⟩
      simp only [concat,checkAxis,if_pos haxis,hfind]
      rfl
  case outside =>
    intro haxis
    simp only [concat,checkAxis,if_neg (not_lt.mpr haxis)]
    rfl

theorem stack_eq_allocate (hshape : ∀ p ∈ rest, p.shape = first.shape) :
    stack (first :: rest) =
      (allocate .hugeStack ((first :: rest).length :: first.shape) fun i =>
        (first :: rest)[i / first.shape.prod]?.elim default (·.read (i % first.shape.prod)) :
          Except (Error α) _) := by
  have hfind : rest.find? (fun p => p.shape ≠ first.shape) = none :=
    List.find?_eq_none.mpr fun p hp => by simpa using hshape p hp
  simp only [stack,hfind,List.getElem?_toArray]
  refine congrArg _ (funext fun i => ?_)
  cases (first :: rest)[i / first.shape.prod]? <;> rfl

theorem stack_eq_ok_iff_rows (hshape : ∀ p ∈ rest, p.shape = first.shape) :
    stack (first :: rest) = (.ok r : Except (Error α) _) ↔
      Addressable ((first :: rest).length :: first.shape) ∧
        r.shape = (first :: rest).length :: first.shape ∧
        ∀ j p, (first :: rest)[j]? = some p → r.index 0 j = (.ok p : Except (Error α) _) := by
  have hall : ∀ p ∈ first :: rest, p.shape = first.shape := by
    simpa using hshape
  rw [stack_eq_allocate hshape,allocate_eq_ok_iff]
  refine and_congr_right fun _ => ⟨?_,?_⟩
  · rintro rfl
    refine ⟨rfl,fun j p hp => (index_eq_ok_iff_read rfl).mpr ?_⟩
    obtain ⟨hj,-⟩ := List.getElem?_eq_some_iff.mp hp
    refine ⟨hj,hall p (List.mem_of_getElem? hp),fun i hi => ?_⟩
    have hposition : j * first.shape.prod + i < ((first :: rest).length :: first.shape).prod := by
      rw [List.prod_cons]
      exact Interval.row_position_lt hj hi
    rw [read_ofFn _ _ hposition,ImageShape.mul_add_div_of_lt hi,Nat.mul_add_mod_of_lt hi,hp]
    rfl
  · rintro ⟨hr,hrows⟩
    refine ext_read hr fun i hi => ?_
    rw [hr] at hi
    have hi' : i < (first :: rest).length * first.shape.prod := by rwa [List.prod_cons] at hi
    have hk : 0 < first.shape.prod := Nat.pos_of_ne_zero fun h0 => by simp [h0] at hi'
    have hj : i / first.shape.prod < (first :: rest).length := (Nat.div_lt_iff_lt_mul hk).mpr hi'
    have hrow := List.getElem?_eq_getElem hj
    obtain ⟨-,-,hread⟩ := (index_eq_ok_iff_read hr).mp (hrows _ _ hrow)
    have hcell := hread _ (Nat.mod_lt i hk)
    rw [Nat.div_add_mod'] at hcell
    rw [read_ofFn _ _ hi,hrow]
    exact hcell.symm

theorem stacks_stack (first : Tensor β) (rest : List (Tensor β)) :
    Stacks (α := α) first rest (stack (first :: rest)) := by
  constructor
  case stacked =>
    intro hshape ha
    have hr := (stack_eq_allocate (α := α) hshape).trans (if_pos ha)
    exact ⟨_,hr,((stack_eq_ok_iff_rows hshape).mp hr).2⟩
  case huge =>
    intro hshape ha
    exact (stack_eq_allocate hshape).trans (if_neg ha)
  case mismatch =>
    intro hall
    cases hfind : rest.find? (fun p => p.shape ≠ first.shape) with
    | none =>
      refine absurd (fun p hp => ?_) hall
      simpa using List.find?_eq_none.mp hfind p hp
    | some p =>
      have hp := List.find?_some hfind
      refine ⟨p,List.mem_of_find?_eq_some hfind,of_decide_eq_true hp,?_⟩
      simp only [stack,hfind]

theorem stack_rows (ht : t.shape = n :: shape) (hn : n ≠ 0) (ha : Addressable t.shape) :
    ((List.range n).mapM (t.index 0 ·) >>= stack) = (.ok t : Except (Error α) _) := by
  let row (j : ℕ) : Tensor β := ofFn shape fun i => t.read (j * shape.prod + i)
  have hrow : ∀ j < n, t.index 0 j = (.ok (row j) : Except (Error α) _) := fun j hj =>
    (index_eq_ok_iff_read ht).mpr ⟨hj,rfl,fun i hi => read_ofFn _ _ hi⟩
  refine Error.bind_eq_ok_iff.mpr ⟨(List.range n).map row,?_,?_⟩
  · rw [Error.mapM_eq_ok_iff,List.forall₂_map_right_iff,List.forall₂_same]
    exact fun j hj => hrow j (List.mem_range.mp hj)
  · have hne : (List.range n).map row ≠ [] := by simpa using hn
    obtain ⟨first,rest,hcons⟩ := List.exists_cons_of_ne_nil hne
    have hlength : (first :: rest).length = n := by rw [← hcons,List.length_map,List.length_range]
    have hshape : ∀ p ∈ first :: rest, p.shape = shape := by
      rw [← hcons]
      exact List.forall_mem_map.mpr fun j _ => rfl
    have hfirst := hshape first List.mem_cons_self
    have hrest : ∀ p ∈ rest, p.shape = first.shape := fun p hp =>
      (hshape p (List.mem_cons_of_mem first hp)).trans hfirst.symm
    rw [hcons,stack_eq_ok_iff_rows hrest,hlength,hfirst,← ht]
    refine ⟨ha,rfl,fun j p hp => ?_⟩
    rw [← hcons] at hp
    obtain ⟨hj,rfl⟩ := List.getElem?_eq_some_iff.mp hp
    rw [List.length_map,List.length_range] at hj
    rw [List.getElem_map,List.getElem_range]
    exact hrow j hj

theorem slice_error_iff {start stop : ℕ} :
    (∃ e : Error α, t.slice axis start stop = .error e) ↔
      ¬ (axis < t.rank ∧ start ≤ stop ∧ stop ≤ t.extent axis) := by
  rw [Error.exists_error_iff]
  simp only [slice_eq_ok_iff,← and_assoc,exists_eq_right]

theorem index_error_iff {j : ℕ} :
    (∃ e : Error α, t.index axis j = .error e) ↔ ¬ (axis < t.rank ∧ j < t.extent axis) := by
  rw [Error.exists_error_iff,not_iff_not]
  simp only [index,Error.bind_eq_ok_iff,checkAxis_eq_ok_iff]
  constructor
  · rintro ⟨b,-,haxis,h⟩
    split at h
    next hj => exact ⟨haxis,hj⟩
    next => cases h
  · rintro ⟨haxis,hj⟩
    exact ⟨_,(),haxis,if_pos hj⟩

/-- Joining and cutting undo each other along any axis, and so do stacking and taking rows out along
a new leading one. Joining is refused for no tensors at all, off their axes, for tensors that
disagree and for a result that no allocation can hold, and is never refused otherwise; cutting is
refused exactly off the tensor. -/
theorem concat_slice_inverse (first : Tensor β) (rest : List (Tensor β)) (t : Tensor β) (axis : ℕ) :
    concat ([] : List (Tensor β)) axis = (.error (.badConfig .emptyConcat) : Except (Error α) _) ∧
    Joins (α := α) first rest axis (concat (first :: rest) axis) ∧
    (axis < t.rank → Addressable t.shape → ∀ cuts : List ℕ, 2 ≤ cuts.length →
      cuts.head? = some 0 → cuts.getLast? = some (t.extent axis) → cuts.Pairwise (· ≤ ·) →
      (t.pieces axis cuts >>= fun ps => concat ps axis) = (.ok t : Except (Error α) _)) ∧
    (∀ start stop, (∃ e : Error α, t.slice axis start stop = .error e) ↔
      ¬ (axis < t.rank ∧ start ≤ stop ∧ stop ≤ t.extent axis)) ∧
    stack ([] : List (Tensor β)) = (.error (.badConfig .emptyStack) : Except (Error α) _) ∧
    Stacks (α := α) first rest (stack (first :: rest)) ∧
    (∀ n shape, t.shape = n :: shape → n ≠ 0 → Addressable t.shape →
      ((List.range n).mapM (t.index 0 ·) >>= stack) = (.ok t : Except (Error α) _)) ∧
    ∀ j, (∃ e : Error α, t.index axis j = .error e) ↔ ¬ (axis < t.rank ∧ j < t.extent axis) :=
  ⟨rfl,joins_concat first rest axis,fun haxis ha _ => concat_pieces haxis ha,
    fun _ _ => slice_error_iff,rfl,stacks_stack first rest,fun _ _ => stack_rows,
    fun _ => index_error_iff⟩

/-- Two rows of one column, of none and of two join to three columns, and come apart again. -/
theorem concat_slice_inverse_columns : ∃ X Y Z R : Interval Single, X.shape = [2,1] ∧
    Y.shape = [2,0] ∧ Z.shape = [2,2] ∧ X ≠ Z ∧
    concat [X,Y,Z] 1 = (.ok R : Except (Error Single) _) ∧ R.shape = [2,3] ∧
    R.slice 1 0 1 = (.ok X : Except (Error Single) _) ∧
    R.slice 1 1 1 = (.ok Y : Except (Error Single) _) ∧
    R.slice 1 1 3 = (.ok Z : Except (Error Single) _) ∧
    (R.pieces 1 [0,2,2,3] >>= fun ps => concat ps 1) = (.ok R : Except (Error Single) _) ∧
    (∃ S, stack [Z,Z] = (.ok S : Except (Error Single) _) ∧ S.shape = [2,2,2] ∧
      S.index 0 1 = (.ok Z : Except (Error Single) _)) := by
  let X : Interval Single := fill [2,1] 0
  let Y : Interval Single := fill [2,0] 0
  let Z : Interval Single := ofFn [2,2] fun i => if i < 2 then 0 else ⟨0,1⟩
  have hagree : ∀ p ∈ [Y,Z], p.Agrees 1 X := by
    intro p hp
    simp only [List.mem_cons,List.not_mem_nil,or_false] at hp
    rcases hp with rfl | rfl <;> exact agrees_iff.mpr ⟨rfl,rfl⟩
  obtain ⟨-,hjoins,-⟩ := concat_slice_inverse (α := Single) X [Y,Z] X 1
  obtain ⟨R,hR,hshape,hextent,hparts⟩ := hjoins.joined (by decide) hagree (by decide)
  have hshape : R.shape = [2,3] := hshape
  obtain ⟨-,-,hcut,-,-,hstacks,-⟩ := concat_slice_inverse (α := Single) Z [Z] R 1
  have hrank : 1 < R.rank := by
    rw [rank,hshape]
    decide
  have ha : Addressable R.shape := by
    rw [hshape]
    decide
  have hpieces := hcut hrank ha [0,2,2,3] (by decide) rfl (hextent ▸ rfl) (by decide)
  obtain ⟨S,hS,hSshape,hrows⟩ := hstacks.stacked (by simp) (by decide)
  exact ⟨X,Y,Z,R,rfl,rfl,rfl,fun h => absurd (congrArg Tensor.shape h) (by decide),hR,hshape,
    hparts [] X [Y,Z] rfl,hparts [X] Y [Z] rfl,hparts [X,Y] Z [] rfl,hpieces,S,hS,hSshape,
    hrows 1 Z rfl⟩

/-- Without any cells two equal intervals can have more indices together than an allocation. No cut
at all and no row at all leave nothing to join. -/
theorem concat_overflows :
    (∃ X : Interval Single, X.shape = [4611686018427387904,0] ∧ Addressable X.shape ∧
      X.Agrees 0 X ∧ concat [X,X] 0 = (.error (.badConfig .hugeConcat) : Except (Error Single) _) ∧
      stack [X,X] = (.error (.badConfig .hugeStack) : Except (Error Single) _)) ∧
    ∃ Y : Interval Single, Y.shape = [0] ∧
      (Y.pieces 0 [0] >>= fun ps => concat ps 0) =
        (.error (.badConfig .emptyConcat) : Except (Error Single) _) ∧
      ((List.range 0).mapM (Y.index 0 ·) >>= stack) =
        (.error (.badConfig .emptyStack) : Except (Error Single) _) := by
  obtain ⟨X,hX⟩ : ∃ X : Interval Single, X.shape = [4611686018427387904,0] :=
    ⟨ofFn _ fun _ => 0,rfl⟩
  have hself : X.Agrees 0 X := ⟨rfl,fun _ _ => rfl⟩
  have hlong : ¬ Addressable [9223372036854775808,0] := by decide
  have htall : ¬ Addressable [2,4611686018427387904,0] := by decide
  have hjoined : joinedExtent 0 [X,X] = 9223372036854775808 := by simp [joinedExtent,extent,hX]
  refine ⟨⟨X,hX,?_,hself,?_,?_⟩,fill [0] 0,rfl,rfl,rfl⟩
  · rw [hX]
    decide
  · refine (joins_concat X [X] 0).huge ?_ (by simpa using hself) ?_
    · simp [rank,hX]
    · rwa [hjoined,hX]
  · refine (stacks_stack X [X]).huge (by simp) ?_
    rwa [hX]

end Tensor
end Sensitivity
