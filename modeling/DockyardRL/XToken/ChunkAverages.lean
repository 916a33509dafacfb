import DockyardRL.Logprob.VocabParallel
import DockyardRL.XToken.Projection
import Mathlib.Algebra.Order.Field.Rat

/-! Averages of log-probabilities over the chunks of a sequence that is cut over context-parallel ranks:
the sums and the sizes are reduced before they are divided. -/
namespace DockyardRL
namespace XToken

open Grid Logprob

section Averages

variable {K : Type} [Field K]

def rowIds (chunkId : Grid ℤ) (b : ℕ) : List ℤ := (List.range chunkId.cols).map (chunkId.entry b)

/-- `chunk_log_prob_sums`, for log-probabilities of shape `[B,T,V]`. -/
def chunkLogProbSums (vocab maxChunks : ℕ) (logProbs : Grid (List K)) (chunkId : Grid ℤ) :
    Grid (List K) × Grid K :=
  (⟨logProbs.rows,maxChunks,fun b c => (List.range vocab).map
      (chunkLogProbSum (fun s t => (logProbs.entry b s).getD t 0) (rowIds chunkId b) c)⟩,
    ⟨logProbs.rows,maxChunks,fun b c => (chunkSize (rowIds chunkId b) c : K)⟩)

def chunkAverageFinalize (chunkSums : Grid (List K)) (chunkSizes : Grid K) : Grid (List K) × Grid K :=
  (chunkSums.zip (fun sums size => sums.map fun x => x / (size + 1 / (10 : ℕ) ^ 10)) chunkSizes,
    chunkSizes)

/-- `chunk_average_log_probs` on the ranks of a context-parallel group. -/
def chunkAverageLogProbs (cpWorld vocab maxChunks : ℕ) (logProbs : ℕ → Grid (List K))
    (chunkId : ℕ → Grid ℤ) (cpRank : ℕ) : Grid (List K) × Grid K :=
  let sums := fun r => chunkLogProbSums vocab maxChunks (logProbs r) (chunkId r)
  if 1 < cpWorld then
    chunkAverageFinalize (allReduceSumRows cpWorld fun r => (sums r).1)
      (allReduceSum cpWorld fun r => (sums r).2)
  else chunkAverageFinalize (sums cpRank).1 (sums cpRank).2

def chunkPositions (chunkId : Grid ℤ) (b c : ℕ) : List ℕ :=
  (List.range chunkId.cols).filter fun s => chunkId.entry b s = (c : ℤ)

def meanOver (ps : List ℕ) (f : ℕ → K) : K := (ps.map f).sum / ps.length

theorem sum_slices {M : Type} [AddCommMonoid M] {bound : ℕ → ℕ} (hzero : bound 0 = 0)
    (hmono : Monotone bound) (f : ℕ → M) (cp : ℕ) :
    ((List.range cp).map fun r => ((List.range (bound (r + 1) - bound r)).map fun s =>
      f (bound r + s)).sum).sum = ((List.range (bound cp)).map f).sum := by
  induction cp with
  | zero => simp [hzero]
  | succ cp ih =>
    have hsplit : bound (cp + 1) = bound cp + (bound (cp + 1) - bound cp) :=
      (Nat.add_sub_cancel' (hmono (Nat.le_succ cp))).symm
    rw [List.sum_range_succ,ih]
    conv_rhs => rw [hsplit,List.range_add,List.map_append,List.sum_append,List.map_map]
    rfl

theorem chunkLogProbSum_eq_range (logProbs : ℕ → ℕ → K) (ids : ℕ → ℤ) (n c t : ℕ) :
    chunkLogProbSum logProbs ((List.range n).map ids) c t =
      ((List.range n).map fun s => if ids s = c then logProbs s t else 0).sum := by
  have hzip : ((List.range n).map ids).zipIdx = (List.range n).map fun s => (ids s,s) := by
    refine List.ext_getElem (by simp) fun s hs _ => ?_
    simp
  rw [chunkLogProbSum,hzip,List.map_map]
  rfl

theorem chunkSize_eq_range (ids : ℕ → ℤ) (n c : ℕ) :
    (chunkSize ((List.range n).map ids) c : K) =
      ((List.range n).map fun s => if ids s = c then 1 else 0).sum := by
  induction n with
  | zero => simp [chunkSize]
  | succ n ih =>
    have hcount : chunkSize ((List.range (n + 1)).map ids) c =
        chunkSize ((List.range n).map ids) c + if ids n = c then 1 else 0 := by
      simp [chunkSize,List.range_succ,List.count_append,List.count_singleton]
    rw [hcount,List.sum_range_succ,← ih]
    split_ifs <;> simp

theorem rowIds_slice (chunkId : Grid ℤ) {start stop : ℕ} (hstop : stop ≤ chunkId.cols) (b : ℕ) :
    rowIds (chunkId.slice start stop) b =
      (List.range (stop - start)).map fun s => chunkId.entry b (start + s) := by
  have hcols : (chunkId.slice start stop).cols = stop - start := by
    show min stop chunkId.cols - start = stop - start
    rw [Nat.min_eq_left hstop]
  rw [rowIds,hcols]
  rfl

theorem sum_chunkLogProbSums {bound : ℕ → ℕ} (hzero : bound 0 = 0) (hmono : Monotone bound) {cp : ℕ}
    (logProbs : Grid (List K)) (chunkId : Grid ℤ) (hend : bound cp = chunkId.cols) (b c t : ℕ) :
    ((List.range cp).map fun r => chunkLogProbSum
        (fun s t => ((logProbs.slice (bound r) (bound (r + 1))).entry b s).getD t 0)
        (rowIds (chunkId.slice (bound r) (bound (r + 1))) b) c t).sum =
      chunkLogProbSum (fun s t => (logProbs.entry b s).getD t 0) (rowIds chunkId b) c t := by
  rw [rowIds,chunkLogProbSum_eq_range,← hend,← sum_slices hzero hmono]
  refine congrArg List.sum (List.map_congr_left fun r hr => ?_)
  have hstop : bound (r + 1) ≤ chunkId.cols := hend ▸ hmono (List.mem_range.mp hr)
  rw [rowIds_slice chunkId hstop,chunkLogProbSum_eq_range]
  rfl

theorem sum_chunkSizes {bound : ℕ → ℕ} (hzero : bound 0 = 0) (hmono : Monotone bound) {cp : ℕ}
    (chunkId : Grid ℤ) (hend : bound cp = chunkId.cols) (b c : ℕ) :
    ((List.range cp).map fun r =>
        (chunkSize (rowIds (chunkId.slice (bound r) (bound (r + 1))) b) c : K)).sum =
      chunkSize (rowIds chunkId b) c := by
  rw [rowIds,chunkSize_eq_range,← hend,← sum_slices hzero hmono]
  refine congrArg List.sum (List.map_congr_left fun r hr => ?_)
  have hstop : bound (r + 1) ≤ chunkId.cols := hend ▸ hmono (List.mem_range.mp hr)
  rw [rowIds_slice chunkId hstop,chunkSize_eq_range]

theorem entry_allReduceSumRows_range {cp n : ℕ} (x : ℕ → Grid (List K)) (f : ℕ → ℕ → K) {b c : ℕ}
    (hx : ∀ r, (x r).entry b c = (List.range n).map (f r)) :
    (allReduceSumRows cp x).entry b c =
      (List.range n).map fun t => ((List.range cp).map fun r => f r t).sum := by
  have hentry : (allReduceSumRows cp x).entry b c = (List.range ((x 0).entry b c).length).map fun t =>
      ((List.range cp).map fun r => ((x r).entry b c).getD t 0).sum := rfl
  rw [hentry,hx 0,List.length_map,List.length_range]
  refine List.map_congr_left fun t ht => congrArg List.sum (List.map_congr_left fun r _ => ?_)
  rw [hx r,Exchange.getD_range_map _ _ (List.mem_range.mp ht)]

theorem chunkAverageLogProbs_eq {bound : ℕ → ℕ} (hzero : bound 0 = 0) (hmono : Monotone bound)
    {cp r : ℕ} (hr : r < cp) (vocab maxChunks : ℕ) (logProbs : Grid (List K)) (chunkId : Grid ℤ)
    (hend : bound cp = chunkId.cols) (b c : ℕ) :
    let averages := chunkAverageLogProbs cp vocab maxChunks
      (fun r => logProbs.slice (bound r) (bound (r + 1)))
      (fun r => chunkId.slice (bound r) (bound (r + 1))) r
    averages.1.entry b c = (List.range vocab).map
        (chunkAverageLogProb (fun s t => (logProbs.entry b s).getD t 0) (rowIds chunkId b) c) ∧
      averages.2.entry b c = chunkSize (rowIds chunkId b) c := by
  have hsums := sum_chunkLogProbSums hzero hmono logProbs chunkId hend b c
  have hsizes := sum_chunkSizes (K := K) hzero hmono chunkId hend b c
  have hfinal : ∀ (sums : Grid (List K)) (sizes : Grid K),
      sums.entry b c = (List.range vocab).map
          (chunkLogProbSum (fun s t => (logProbs.entry b s).getD t 0) (rowIds chunkId b) c) →
        sizes.entry b c = chunkSize (rowIds chunkId b) c →
        (chunkAverageFinalize sums sizes).1.entry b c = (List.range vocab).map
          (chunkAverageLogProb (fun s t => (logProbs.entry b s).getD t 0) (rowIds chunkId b) c) ∧
        (chunkAverageFinalize sums sizes).2.entry b c = chunkSize (rowIds chunkId b) c := by
    intro sums sizes hentry hsize
    refine ⟨?_,hsize⟩
    show (sums.entry b c).map (fun x => x / (sizes.entry b c + 1 / (10 : ℕ) ^ 10)) = _
    rw [hentry,hsize,List.map_map]
    rfl
  rw [chunkAverageLogProbs]
  split_ifs with hone
  · refine hfinal _ _ ?_ hsizes
    rw [entry_allReduceSumRows_range _ _ fun r => rfl]
    exact List.map_congr_left fun t _ => hsums t
  · obtain rfl : cp = 1 := by omega
    obtain rfl : r = 0 := by omega
    simp only [List.range_one,List.map_cons,List.map_nil,List.sum_cons,List.sum_nil,add_zero]
      at hsums hsizes
    exact hfinal _ _ (List.map_congr_left fun t _ => hsums t) hsizes

theorem sum_filter_positions {M : Type} [AddCommMonoid M] (ids : ℕ → ℤ) (c : ℕ) (f : ℕ → M)
    (l : List ℕ) : (l.map fun s => if ids s = c then f s else 0).sum =
      ((l.filter fun s => ids s = (c : ℤ)).map f).sum := by
  induction l with
  | nil => rfl
  | cons s l ih => by_cases hs : ids s = c <;> simp [hs,ih]

theorem chunkLogProbSum_eq_positions (logProbs : ℕ → ℕ → K) (chunkId : Grid ℤ) (b c t : ℕ) :
    chunkLogProbSum logProbs (rowIds chunkId b) c t =
      ((chunkPositions chunkId b c).map fun s => logProbs s t).sum := by
  rw [rowIds,chunkLogProbSum_eq_range,sum_filter_positions]
  rfl

theorem chunkSize_eq_positions (chunkId : Grid ℤ) (b c : ℕ) :
    chunkSize (rowIds chunkId b) c = (chunkPositions chunkId b c).length := by
  rw [chunkSize,rowIds,List.count,List.countP_map,List.countP_eq_length_filter,chunkPositions]
  rfl

variable [CharZero K]

theorem chunkAverageLogProb_eq_mean (logProbs : ℕ → ℕ → K) (chunkId : Grid ℤ) (b c t : ℕ) :
    let ps := chunkPositions chunkId b c
    chunkAverageLogProb logProbs (rowIds chunkId b) c t =
      meanOver ps (fun s => logProbs s t) * (ps.length / (ps.length + 1 / (10 : ℕ) ^ 10)) := by
  intro ps
  rw [chunkAverageLogProb,chunkLogProbSum_eq_positions,chunkSize_eq_positions,meanOver,
    div_mul_div_comm]
  rcases Nat.eq_zero_or_pos ps.length with hnil | hpos
  · simp [ps,List.eq_nil_of_length_eq_zero hnil]
  · have hn : (ps.length : K) ≠ 0 := Nat.cast_ne_zero.mpr hpos.ne'
    rw [mul_comm (ps.map _).sum,mul_div_mul_left _ _ hn]

theorem chunkPositions_nil_average {chunkId : Grid ℤ} {b c : ℕ} (hnil : chunkPositions chunkId b c = [])
    (logProbs : ℕ → ℕ → K) (t : ℕ) : chunkAverageLogProb logProbs (rowIds chunkId b) c t = 0 := by
  rw [chunkAverageLogProb_eq_mean,hnil,meanOver,List.map_nil,List.sum_nil,zero_div,zero_mul]

/-- The projection of the slabs is the dense product at distinct columns, other columns are refused,
and the averages of the slices are the means over the chunks of the sequence. -/
theorem sharded_eq_dense (m : Coo K) {tp : ℕ} (htp : 0 < tp) (hdvd : tp ∣ m.rows)
    (studentProbs : Grid (List K)) {columns : List ℕ} (hcols : ∀ c ∈ columns, c < m.cols)
    {bound : ℕ → ℕ} (hzero : bound 0 = 0) (hmono : Monotone bound) {cp : ℕ} (vocab maxChunks : ℕ)
    (logProbs : Grid (List K)) (chunkId : Grid ℤ) (hend : bound cp = chunkId.cols) :
    (columns.Nodup → ∃ projected, projectStudentToTeacherVocab tp (slab tp m.rows studentProbs) m
        (some columns) = .ok projected ∧ ∀ r < tp, (projected r).rows = studentProbs.rows ∧
      (projected r).cols = studentProbs.cols ∧ ∀ b < studentProbs.rows, ∀ t < studentProbs.cols,
        (projected r).entry b t = denseProjection m (studentProbs.entry b t) columns) ∧
    (¬columns.Nodup → projectStudentToTeacherVocab tp (slab tp m.rows studentProbs) m
        (some columns) = .error (.value "columns must not contain duplicates")) ∧
    ∀ r < cp, ∀ b c, let ps := chunkPositions chunkId b c
      let averages := chunkAverageLogProbs cp vocab maxChunks
        (fun r => logProbs.slice (bound r) (bound (r + 1)))
        (fun r => chunkId.slice (bound r) (bound (r + 1))) r
      averages.2.entry b c = ps.length ∧ (∀ s ∈ ps, chunkId.entry b s ≠ -1) ∧
        averages.1.entry b c = ((List.range vocab).map fun t =>
          meanOver ps (fun s => (logProbs.entry b s).getD t 0) *
            (ps.length / (ps.length + 1 / (10 : ℕ) ^ 10))) ∧
        (ps = [] → averages.1.entry b c = List.replicate vocab 0) := by
  refine ⟨fun hnodup => projectStudentToTeacherVocab_eq htp hdvd hcols hnodup studentProbs,
    fun hdup => ?_,fun r hr b c => ?_⟩
  · rw [projectStudentToTeacherVocab,sliceSparseProjectionCols_duplicates hcols hdup]
    rfl
  · obtain ⟨haverage,hsize⟩ :=
      chunkAverageLogProbs_eq hzero hmono hr vocab maxChunks logProbs chunkId hend b c
    refine ⟨?_,fun s hs => ?_,?_,fun hnil => ?_⟩
    · rw [hsize,chunkSize_eq_positions]
    · have hid : chunkId.entry b s = (c : ℤ) := of_decide_eq_true (List.mem_filter.mp hs).2
      omega
    · rw [haverage]
      exact List.map_congr_left fun t _ => chunkAverageLogProb_eq_mean _ chunkId b c t
    · rw [haverage,List.map_congr_left fun t _ => chunkPositions_nil_average hnil _ t,List.map_const',
        List.length_range]

end Averages

def twoSlabs : Coo ℚ := ⟨2,2,[((0,0),1),((1,1),2)],by decide⟩

def twoPositions : Grid (List ℚ) := ⟨1,2,fun _ s => [(s : ℚ) - 3]⟩

def firstChunkOnly : Grid ℤ := ⟨1,2,fun _ _ => 0⟩

/-- Swapped columns of a projection on two ranks, and a chunk that is cut between two ranks. -/
theorem sharded_eq_dense_two :
    (∃ projected, projectStudentToTeacherVocab 2 (slab 2 2 ⟨1,1,fun _ _ => [3,5]⟩) twoSlabs
      (some [1,0]) = .ok projected ∧ ∀ r < 2, (projected r).entry 0 0 = [10,3]) ∧
    ∀ r < 2,
      let averages := chunkAverageLogProbs 2 1 1
        (fun r => twoPositions.slice (min r 2) (min (r + 1) 2))
        (fun r => firstChunkOnly.slice (min r 2) (min (r + 1) 2)) r
      averages.2.entry 0 0 = 2 ∧ averages.1.entry 0 0 = [(-5 : ℚ) / (2 + 1 / 10 ^ 10)] := by
  obtain ⟨hproject,-,haverage⟩ := @sharded_eq_dense ℚ _ _ twoSlabs 2 (by decide) (by decide)
    ⟨1,1,fun _ _ => [3,5]⟩ [1,0] (by decide) (fun r => min r 2) rfl
    (fun a b hab => min_le_min_right 2 hab) 2 1 1 twoPositions firstChunkOnly rfl
  refine ⟨?_,fun r hr => ?_⟩
  · obtain ⟨projected,hok,hranks⟩ := hproject (by decide)
    refine ⟨projected,hok,fun r hr => ?_⟩
    obtain ⟨-,-,hentry⟩ := hranks r hr
    rw [hentry 0 (by decide) 0 (by decide)]
    decide +kernel
  · have hps : chunkPositions firstChunkOnly 0 0 = [0,1] := by decide
    obtain ⟨hsize,-,hvalue,-⟩ := haverage r hr 0 0
    rw [hps] at hsize hvalue
    refine ⟨by simpa using hsize,?_⟩
    rw [hvalue]
    norm_num [meanOver,twoPositions]

end XToken
end DockyardRL
