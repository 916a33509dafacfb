import DockyardRL.Lib.Grid
import DockyardRL.Lib.SparseMatrix
import DockyardRL.XToken.GoldLoss
import Mathlib.Algebra.Order.Ring.Rat

/-! The projection of student probabilities to the vocabulary of the teacher, with the student's cut over
tensor-parallel ranks, and averages of log-probabilities over chunks of a sequence that is cut over
context-parallel ranks. -/
namespace DockyardRL
namespace XToken

open Grid

inductive ProjectionError
  | index
  | value (message : String)
  deriving DecidableEq

section Position

def positionTable (numCols : ℕ) (columns : List ℕ) : List (Option ℕ) :=
  columns.zipIdx.foldl (fun position entry => position.set entry.1 (some entry.2))
    (List.replicate numCols none)

theorem positionTable_concat (numCols : ℕ) (columns : List ℕ) (c : ℕ) :
    positionTable numCols (columns ++ [c]) =
      (positionTable numCols columns).set c (some columns.length) := by
  simp [positionTable,List.zipIdx_append]

theorem length_positionTable (numCols : ℕ) (columns : List ℕ) :
    (positionTable numCols columns).length = numCols := by
  induction columns using List.reverseRecOn with
  | nil => simp [positionTable]
  | append_singleton columns c ih => rw [positionTable_concat,List.length_set,ih]

theorem getElem?_of_position {numCols j k : ℕ} {columns : List ℕ}
    (h : (positionTable numCols columns)[j]? = some (some k)) : columns[k]? = some j := by
  induction columns using List.reverseRecOn with
  | nil => simp [positionTable,List.getElem?_replicate] at h
  | append_singleton columns c ih =>
    rw [positionTable_concat,List.getElem?_set] at h
    split_ifs at h with hc hlt
    · obtain rfl : columns.length = k := by simpa using h
      rw [List.getElem?_concat_length,hc]
    · have hk := ih h
      rw [List.getElem?_append_left (List.getElem?_eq_some_iff.mp hk).1,hk]

theorem isSome_position {numCols j : ℕ} {columns : List ℕ} (hj : j < numCols) :
    (∃ k, (positionTable numCols columns)[j]? = some (some k)) ↔ j ∈ columns := by
  induction columns using List.reverseRecOn with
  | nil => simp [positionTable,List.getElem?_replicate]
  | append_singleton columns c ih =>
    rw [positionTable_concat,List.mem_append,List.mem_singleton,← ih]
    by_cases hc : c = j
    · subst hc
      have hlt : c < (positionTable numCols columns).length := by rwa [length_positionTable]
      simp [hlt]
    · simp only [List.getElem?_set_ne hc,Ne.symm hc,or_false]

theorem countP_position {numCols : ℕ} {columns : List ℕ} (hcols : ∀ c ∈ columns, c < numCols) :
    (positionTable numCols columns).countP Option.isSome = columns.dedup.length := by
  have hmap : (positionTable numCols columns).map Option.isSome =
      (List.range numCols).map fun j => decide (j ∈ columns) := by
    refine List.ext_getElem (by simp [length_positionTable]) fun j hj hj' => ?_
    rw [List.length_map,length_positionTable] at hj
    have hlt : j < (positionTable numCols columns).length := by rwa [length_positionTable]
    have hget : (positionTable numCols columns)[j]? = some (positionTable numCols columns)[j] :=
      List.getElem?_eq_getElem hlt
    rw [List.getElem_map,List.getElem_map,List.getElem_range,Bool.eq_iff_iff,decide_eq_true_iff,
      ← isSome_position hj,hget,Option.isSome_iff_exists]
    simp only [Option.some_inj]
  have hcount : (positionTable numCols columns).countP Option.isSome =
      ((positionTable numCols columns).map Option.isSome).countP id := by
    rw [List.countP_map]
    rfl
  rw [hcount,hmap,List.countP_map,List.countP_eq_length_filter]
  refine List.Perm.length_eq ((List.perm_ext_iff_of_nodup (List.nodup_range.filter _)
    (List.nodup_dedup columns)).mpr fun j => ?_)
  simp only [List.mem_filter,List.mem_range,Function.comp_apply,id,decide_eq_true_iff,List.mem_dedup]
  exact ⟨fun h => h.2,fun h => ⟨hcols j h,h⟩⟩

theorem countP_position_iff {numCols : ℕ} {columns : List ℕ} (hcols : ∀ c ∈ columns, c < numCols) :
    (positionTable numCols columns).countP Option.isSome = columns.length ↔ columns.Nodup := by
  rw [countP_position hcols]
  constructor
  · intro hlength
    exact List.dedup_eq_self.mp ((List.dedup_sublist columns).eq_of_length hlength)
  · intro hnodup
    rw [List.dedup_eq_self.mpr hnodup]

end Position

section Projection

variable {K : Type} [CommSemiring K]

def sliceSparseProjectionCols (m : Coo K) (columns : List ℕ) : Except ProjectionError (Coo K) :=
  let position := positionTable m.cols columns
  if columns.any fun c => m.cols ≤ c then .error .index
  else if position.countP Option.isSome ≠ columns.length then
    .error (.value "columns must not contain duplicates")
  else .ok (m.mapCols columns.length (fun j => position[j]?.join) fun _ _ hk =>
    (List.getElem?_eq_some_iff.mp (getElem?_of_position (Option.join_eq_some_iff.mp hk))).1)

/-- `all_reduce` with `SUM` of flat tensors of shape `[N,n]`. -/
def allReduceFlat (tp : ℕ) (x : ℕ → List (List K)) : List (List K) :=
  (x 0).zipIdx.map fun row => (List.range row.1.length).map fun j =>
    ∑ r ∈ Finset.range tp, ((x r).getD row.2 []).getD j 0

/-- `project_student_to_teacher_vocab`, for the probabilities of all ranks: what each rank returns. -/
def projectStudentToTeacherVocab (tpWorld : ℕ) (studentProbs : ℕ → Grid (List K))
    (sparseProjection : Coo K) (teacherColumns : Option (List ℕ)) :
    Except ProjectionError (ℕ → Grid (List K)) := do
  let m ← match teacherColumns with
    | none => .ok sparseProjection
    | some columns => sliceSparseProjectionCols sparseProjection columns
  let rowsPerRank := m.rows / tpWorld
  .ok fun tpRank =>
    let projected :=
      if 1 < tpWorld then
        allReduceFlat tpWorld fun r => (studentProbs r).flatten.map
          (m.sliceRows (r * rowsPerRank) ((r + 1) * rowsPerRank)).transposeMul
      else (studentProbs tpRank).flatten.map m.transposeMul
    view (studentProbs tpRank).rows (studentProbs tpRank).cols [] projected

def slab (tpWorld size : ℕ) (full : Grid (List K)) (tpRank : ℕ) : Grid (List K) :=
  full.map fun row => (row.drop (tpRank * (size / tpWorld))).take (size / tpWorld)

def denseProjection (m : Coo K) (row : List K) (columns : List ℕ) : List K :=
  columns.map fun c => ∑ i ∈ Finset.range m.rows, row.getD i 0 * m.value i c

variable {m : Coo K} {columns : List ℕ}

theorem sliceSparseProjectionCols_duplicates (hcols : ∀ c ∈ columns, c < m.cols)
    (hdup : ¬columns.Nodup) :
    sliceSparseProjectionCols m columns = .error (.value "columns must not contain duplicates") := by
  rw [sliceSparseProjectionCols,if_neg,if_pos]
  · exact fun hcount => hdup ((countP_position_iff hcols).mp hcount)
  · simpa using hcols

theorem sliceSparseProjectionCols_ok (hcols : ∀ c ∈ columns, c < m.cols) (hnodup : columns.Nodup) :
    ∃ selected, sliceSparseProjectionCols m columns = .ok selected ∧ selected.rows = m.rows ∧
      selected.cols = columns.length ∧
      ∀ i (k : ℕ) (hk : k < columns.length), selected.value i k = m.value i columns[k] := by
  have hplace : ∀ j k, (positionTable m.cols columns)[j]?.join = some k → k < columns.length :=
    fun j k hk => (List.getElem?_eq_some_iff.mp
      (getElem?_of_position (Option.join_eq_some_iff.mp hk))).1
  have hok : sliceSparseProjectionCols m columns = .ok (m.mapCols columns.length
      (fun j => (positionTable m.cols columns)[j]?.join) hplace) := by
    rw [sliceSparseProjectionCols,if_neg,if_neg]
    · exact not_not.mpr ((countP_position_iff hcols).mpr hnodup)
    · simpa using hcols
  refine ⟨_,hok,rfl,rfl,fun i k hk => Coo.value_mapCols _ _ fun j => ?_⟩
  rw [Option.join_eq_some_iff]
  constructor
  · intro hplace
    have hat := getElem?_of_position hplace
    rw [List.getElem?_eq_getElem hk] at hat
    exact (Option.some.inj hat).symm
  · rintro rfl
    obtain ⟨k',hk'⟩ := (isSome_position (hcols _ (List.getElem_mem hk))).mpr (List.getElem_mem hk)
    obtain ⟨hlt,heq⟩ := List.getElem?_eq_some_iff.mp (getElem?_of_position hk')
    rwa [(hnodup.getElem_inj_iff).mp heq] at hk'

theorem allReduceFlat_map {ι : Type} (tp : ℕ) (l : List ι) (f : ℕ → ι → List K) :
    allReduceFlat tp (fun r => l.map (f r)) = l.map fun i => (List.range (f 0 i).length).map fun j =>
      ∑ r ∈ Finset.range tp, (f r i).getD j 0 := by
  refine List.ext_getElem (by simp [allReduceFlat]) fun n hn _ => ?_
  have hlt : n < l.length := by simpa [allReduceFlat] using hn
  simp [allReduceFlat,hlt]

theorem sum_slabs (tp size : ℕ) (f : ℕ → K) :
    ∑ r ∈ Finset.range tp, ∑ i ∈ Finset.range size, f (r * size + i) =
      ∑ i ∈ Finset.range (tp * size), f i := by
  induction tp with
  | zero => simp
  | succ tp ih => rw [Finset.sum_range_succ,ih,Nat.succ_mul,Finset.sum_range_add]

theorem getD_slab {tp size i r : ℕ} (full : Grid (List K)) (b t : ℕ) (hi : i < size / tp) :
    ((slab tp size full r).entry b t).getD i 0 =
      (full.entry b t).getD (r * (size / tp) + i) 0 := by
  have hentry : (slab tp size full r).entry b t =
      ((full.entry b t).drop (r * (size / tp))).take (size / tp) := rfl
  rw [hentry,List.getD_eq_getElem?_getD,List.getElem?_take_of_lt hi,List.getElem?_drop,
    List.getD_eq_getElem?_getD]

theorem getD_transposeMul_slab (tp : ℕ) (full : Grid (List K)) (b t r : ℕ) {j : ℕ} (hj : j < m.cols) :
    ((m.sliceRows (r * (m.rows / tp)) ((r + 1) * (m.rows / tp))).transposeMul
        ((slab tp m.rows full r).entry b t)).getD j 0 =
      ∑ i ∈ Finset.range (m.rows / tp), (full.entry b t).getD (r * (m.rows / tp) + i) 0 *
        m.value (r * (m.rows / tp) + i) j := by
  have hsize : (r + 1) * (m.rows / tp) - r * (m.rows / tp) = m.rows / tp := by
    rw [Nat.succ_mul,Nat.add_sub_cancel_left]
  have hlt : j < (m.sliceRows (r * (m.rows / tp)) ((r + 1) * (m.rows / tp))).cols := hj
  rw [Coo.transposeMul_eq,Exchange.getD_range_map _ _ hlt]
  refine Finset.sum_congr (congrArg Finset.range hsize) fun i hi => ?_
  have hi : i < m.rows / tp := Finset.mem_range.mp hi
  rw [getD_slab full b t hi,Coo.value_sliceRows m (by rwa [hsize])]

theorem project_slabs {tp : ℕ} (htp : 0 < tp) (hdvd : tp ∣ m.rows) (full : Grid (List K)) {r b t : ℕ}
    (hr : r < tp) (hb : b < full.rows) (ht : t < full.cols) :
    (view full.rows full.cols [] (if 1 < tp then
        allReduceFlat tp fun r => (slab tp m.rows full r).flatten.map
          (m.sliceRows (r * (m.rows / tp)) ((r + 1) * (m.rows / tp))).transposeMul
      else (slab tp m.rows full r).flatten.map m.transposeMul)).entry b t =
        m.transposeMul (full.entry b t) := by
  have hflatten : ∀ r, (slab tp m.rows full r).flatten =
      (positions full.rows full.cols).map fun p => (slab tp m.rows full r).entry p.1 p.2 := fun _ => rfl
  split_ifs with hone
  · have hlength : ∀ x, ((m.sliceRows (0 * (m.rows / tp)) ((0 + 1) * (m.rows / tp))).transposeMul
        x).length = m.cols := fun x => by
      rw [Coo.transposeMul,List.length_map,List.length_range]
      rfl
    simp only [hflatten,List.map_map]
    rw [allReduceFlat_map,view_map hb ht,Function.comp_apply,hlength,m.transposeMul_eq]
    refine List.map_congr_left fun j hj => ?_
    have hcol : j < m.cols := List.mem_range.mp hj
    simp only [Function.comp_apply,getD_transposeMul_slab tp full b t _ hcol]
    rw [sum_slabs tp (m.rows / tp) fun i => (full.entry b t).getD i 0 * m.value i j,
      Nat.mul_div_cancel' hdvd]
  · obtain rfl : tp = 1 := by omega
    obtain rfl : r = 0 := by omega
    rw [hflatten,List.map_map,view_map hb ht]
    simp only [Function.comp_apply,Coo.transposeMul_eq]
    refine List.map_congr_left fun j _ => Finset.sum_congr rfl fun i hi => ?_
    rw [getD_slab full b t (by rwa [Nat.div_one,← Finset.mem_range]),Nat.zero_mul,Nat.zero_add]

theorem transposeMul_selected {selected : Coo K} (hrows : selected.rows = m.rows)
    (hwidth : selected.cols = columns.length)
    (hvalue : ∀ i (k : ℕ) (hk : k < columns.length), selected.value i k = m.value i columns[k])
    (row : List K) : selected.transposeMul row = denseProjection m row columns := by
  rw [Coo.transposeMul_eq,denseProjection,hrows,hwidth]
  refine List.ext_getElem (by simp) fun k hk _ => ?_
  have hlt : k < columns.length := by simpa using hk
  simp only [List.getElem_map,List.getElem_range,hvalue _ k hlt]

/-- Every rank gets the dense product at the columns. -/
theorem projectStudentToTeacherVocab_eq {tp : ℕ} (htp : 0 < tp) (hdvd : tp ∣ m.rows)
    (hcols : ∀ c ∈ columns, c < m.cols) (hnodup : columns.Nodup) (full : Grid (List K)) :
    ∃ projected, projectStudentToTeacherVocab tp (slab tp m.rows full) m (some columns) =
        .ok projected ∧ ∀ r < tp, (projected r).rows = full.rows ∧ (projected r).cols = full.cols ∧
      ∀ b < full.rows, ∀ t < full.cols,
        (projected r).entry b t = denseProjection m (full.entry b t) columns := by
  obtain ⟨selected,hok,hrows,hwidth,hvalue⟩ := sliceSparseProjectionCols_ok hcols hnodup
  rw [projectStudentToTeacherVocab,hok]
  refine ⟨_,rfl,fun r hr => ⟨rfl,rfl,fun b hb t ht => ?_⟩⟩
  rw [← transposeMul_selected hrows hwidth hvalue (full.entry b t),
    ← project_slabs htp (hrows ▸ hdvd) full hr hb ht,hrows]
  rfl

end Projection

end XToken
end DockyardRL
