import DockyardRL.Logprob.Dense

/-! The chunks of the sequence together compute the log-softmax of whole rows and its gradient, for one
token or for several at a position. -/
namespace DockyardRL
namespace Logprob

open Chunks Grid Softmax

variable {K : Type} [Field K] [LinearOrder K] {e : Exponential K} {tp vLocal : ℕ} {row : List K}
variable [IsStrictOrderedRing K]

section Chunked

variable {L : Logits K} {target : ℕ → ℕ → ℕ} (ht : ∀ b < L.B, ∀ s < L.S, target b s < L.vocab)
variable {chunkSize : ℕ}

include ht in
theorem chunkedLogprob_forward (hc : 0 < chunkSize) (hS : 0 < L.S) :
    ∃ out, (∀ inferenceOnly, ChunkedDistributedLogprob.forward e L.tp L.shard (L.grid target)
        L.vocabStartIndex L.vocabEndIndex chunkSize inferenceOnly =
          .ok (out,fun r => if inferenceOnly then none else
            some ⟨L.shard r,targetMask (L.vocabStartIndex r) (L.vocabEndIndex r) (L.grid target),
              maskedTarget (L.vocabStartIndex r) (L.vocabEndIndex r) (L.grid target),chunkSize⟩)) ∧
      out.rows = L.B ∧ out.cols = L.S ∧
      ∀ b < L.B, ∀ s < L.S, out.entry b s = denseLogprob e L target b s := by
  let chunk : ℕ → Grid K := fun c => ChunkedDistributedLogprob.forwardChunk e L.tp L.shard
    (fun r => targetMask (L.vocabStartIndex r) (L.vocabEndIndex r) (L.grid target))
    (fun r => maskedTarget (L.vocabStartIndex r) (L.vocabEndIndex r) (L.grid target))
    (c * chunkSize) (min L.S ((c + 1) * chunkSize))
  have hwidth : ∀ c, (chunk c).cols = min L.S ((c + 1) * chunkSize) - c * chunkSize := by
    intro c
    show min (min L.S ((c + 1) * chunkSize)) L.S - c * chunkSize = _
    omega
  have hentry : ∀ c, ∀ b < L.B, ∀ s, c * chunkSize + s < L.S →
      (chunk c).entry b s = denseLogprob e L target b (c * chunkSize + s) := fun c b hb s hs =>
    gathered_entry L.vLocal_pos (L.length_row b hb _ hs) _ (ht b hb _ hs)
      (fun _ hr => logSoftmax_entry (L.length_row b hb _ hs) (row_ne_nil hb hs) (fun _ _ => rfl) hr)
      (fun _ => rfl) fun _ => rfl
  obtain ⟨out,hcat,hshape⟩ := cat_chunks hS hc chunk (denseLogprob e L target) (fun _ => rfl) hwidth
    hentry
  refine ⟨out,fun inferenceOnly => ?_,hshape⟩
  have hchunks : catChunks ((List.range (rangeSteps L.S chunkSize)).map chunk) = .ok out := by
    rw [catChunks,hcat]
  rw [ChunkedDistributedLogprob.forward,numChunks,if_neg hc.ne']
  show (catChunks ((List.range (rangeSteps L.S chunkSize)).map chunk) >>= _) = _
  rw [hchunks]
  rfl

omit [Field K] [LinearOrder K] [IsStrictOrderedRing K] in
theorem lastDim_shard {b s r : ℕ} (hb : b < L.B) (hs : s < L.S) (hr : r < L.tp) :
    (L.shard r).lastDim = L.vLocal :=
  length_part (L.length_row 0 (by omega) 0 (by omega)) hr

theorem chunk_gradient (target : ℕ → ℕ → ℕ) (g : ℕ → ℕ → K) {b start s r : ℕ} (hb : b < L.B)
    (hs : start + s < L.S) (hr : r < L.tp) (stop : ℕ) :
    (ChunkedDistributedLogprob.backwardChunk e L.tp (fun r =>
        ⟨L.shard r,targetMask (L.vocabStartIndex r) (L.vocabEndIndex r) (L.grid target),
          maskedTarget (L.vocabStartIndex r) (L.vocabEndIndex r) (L.grid target),chunkSize⟩)
        (L.grid g) r start stop).entry b s =
      part L.vLocal r (gradOn e (L.row b (start + s)) (List.range (L.row b (start + s)).length)
        (target b (start + s)) (g b (start + s))) := by
  have hlength := L.length_row b hb _ hs
  have hsoftmax := softmax_entry (e := e) (b := b) (s := s) hlength hr (row_ne_nil hb hs)
    (x := fun q => (L.shard q).slice start stop) fun _ _ => rfl
  show (List.zipWith (fun x y => x - y) ((oneHot (if decide (target b (start + s) < r * L.vLocal ∨
      (r + 1) * L.vLocal ≤ target b (start + s)) = true then 0
      else target b (start + s) - r * L.vLocal) (L.shard r).lastDim).map fun x =>
        (if decide (target b (start + s) < r * L.vLocal ∨
          (r + 1) * L.vLocal ≤ target b (start + s)) = true then 0 else 1) * x)
      (((computeDistributedLogSoftmax e L.tp (fun q => (L.shard q).slice start stop) r).map
        fun y : List K => y.map e.exp).entry b s)).map (fun x => x * g b (start + s)) = _
  rw [hsoftmax,lastDim_shard hb hs hr,oneHot,List.map_map,List.zipWith_map,List.zipWith_self,
    List.map_map,part_gradOn hlength hr]
  refine List.map_congr_left fun j hj => ?_
  refine congrArg (fun x => (x - _) * g b (start + s)) ?_
  exact chosen_eq r (target b (start + s)) (List.mem_range.mp hj)

theorem chunkedLogprob_backward (hc : 0 < chunkSize) (hS : 0 < L.S) (target : ℕ → ℕ → ℕ)
    (g : ℕ → ℕ → K) :
    ∃ grads, ChunkedDistributedLogprob.backward e L.tp (fun r =>
        ⟨L.shard r,targetMask (L.vocabStartIndex r) (L.vocabEndIndex r) (L.grid target),
          maskedTarget (L.vocabStartIndex r) (L.vocabEndIndex r) (L.grid target),chunkSize⟩)
        (L.grid g) = .ok grads ∧
      ∀ r < L.tp, (grads r).rows = L.B ∧ (grads r).cols = L.S ∧ ∀ b < L.B, ∀ s < L.S,
        (grads r).entry b s =
          part L.vLocal r (gradOn e (L.row b s) (List.range (L.row b s).length) (target b s) (g b s)) := by
  refine ⟨_,by rw [ChunkedDistributedLogprob.backward,numChunks,if_neg hc.ne']; rfl,fun r hr => ?_⟩
  obtain ⟨-,-,hend⟩ := rangeSteps_bounds hS hc
  obtain ⟨hrows,hcols⟩ := shape_foldl_setSlice (fun c => c * chunkSize)
    (fun c => min L.S ((c + 1) * chunkSize)) _ _ _
  refine ⟨hrows,hcols,fun b hb s hs => ?_⟩
  refine foldl_setSlice _ _ (fun s => part L.vLocal r (gradOn e (L.row b s)
    (List.range (L.row b s).length) (target b s) (g b s))) ?_ _ s hs (lt_of_lt_of_le hs hend)
  intro c s hs
  exact chunk_gradient target g hb (lt_of_lt_of_le hs (Nat.min_le_left _ _)) hr _

end Chunked

section Several

open ChunkedDistributedGatherLogprob

omit [LinearOrder K] [IsStrictOrderedRing K] in
theorem mulMask_map {ι : Type} (l : List ι) (f : ι → K) (m : ι → Bool) :
    mulMask (l.map f) (l.map m) = l.map fun i => f i * if m i = true then 1 else 0 := by
  rw [mulMask,List.zipWith_map,List.zipWith_self]

omit [LinearOrder K] [IsStrictOrderedRing K] in
/-- Only the rank that holds an index has a value for it. -/
theorem sum_gather_clamped (hv : 0 < vLocal) (hlength : row.length = tp * vLocal) (f : K → K) {v : ℕ}
    (hlt : v < tp * vLocal) : ((List.range tp).map fun r =>
      ((part vLocal r row).map f).getD (min (v - r * vLocal) (vLocal - 1)) 0 *
        if decide (r * vLocal ≤ v ∧ v < (r + 1) * vLocal) = true then 1 else 0).sum =
      f (row.getD v 0) := by
  rw [← sum_gather hv hlength f hlt]
  refine congrArg List.sum (List.map_congr_left fun r _ => ?_)
  have hstep : (r + 1) * vLocal = r * vLocal + vLocal := Nat.succ_mul r vLocal
  by_cases h : v < r * vLocal ∨ (r + 1) * vLocal ≤ v
  · have hout : decide (r * vLocal ≤ v ∧ v < (r + 1) * vLocal) = false := decide_eq_false (by omega)
    rw [hout,decide_eq_true h,if_pos rfl,if_neg Bool.false_ne_true,mul_zero]
  · have hin : decide (r * vLocal ≤ v ∧ v < (r + 1) * vLocal) = true := decide_eq_true (by omega)
    have hclamp : min (v - r * vLocal) (vLocal - 1) = v - r * vLocal := Nat.min_eq_left (by omega)
    rw [hin,decide_eq_false h,if_pos rfl,if_neg Bool.false_ne_true,if_neg Bool.false_ne_true,mul_one,
      hclamp]

variable {L : Logits K} {indices : ℕ → ℕ → List ℕ}
variable (hi : ∀ b < L.B, ∀ s < L.S, ∀ v ∈ indices b s, v < L.vocab) {chunkSize : ℕ}

variable (e L) in
def denseLogprobs (indices : ℕ → ℕ → List ℕ) (b s : ℕ) : List K :=
  (indices b s).map fun v => (L.row b s).getD v 0 - e.log (e.total (L.row b s))

omit [LinearOrder K] [IsStrictOrderedRing K] in
theorem allReduceSumRows_entry {ι : Type} {x : ℕ → Grid (List K)} {b s : ℕ} {is : List ι}
    {f : ℕ → ι → K} (htp : 0 < tp) (hx : ∀ r < tp, (x r).entry b s = is.map (f r)) :
    (allReduceSumRows tp x).entry b s = is.map fun i => ((List.range tp).map fun r => f r i).sum := by
  show (List.range ((x 0).entry b s).length).map (fun j =>
    ((List.range tp).map fun r => ((x r).entry b s).getD j 0).sum) = _
  rw [hx 0 htp,List.length_map]
  refine List.ext_getElem (by simp) fun j hj _ => ?_
  rw [List.length_map,List.length_range] at hj
  rw [List.getElem_map,List.getElem_map,List.getElem_range]
  refine congrArg List.sum (List.map_congr_left fun r hr => ?_)
  rw [hx r (List.mem_range.mp hr),List.getD_eq_getElem _ _ (by rwa [List.length_map]),List.getElem_map]

include hi in
theorem gatherChunk_entry {b s start : ℕ} (hb : b < L.B) (hs : start + s < L.S) (stop : ℕ) :
    (ChunkedDistributedGatherLogprob.forwardChunk e L.tp L.shard (L.grid indices) L.vocabStartIndex
      L.vocabEndIndex start stop).entry b s = denseLogprobs e L indices b (start + s) := by
  have hlength := L.length_row b hb _ hs
  refine (allReduceSumRows_entry L.tp_pos fun r hr => ?_).trans (List.map_congr_left fun v hv =>
    sum_gather_clamped L.vLocal_pos hlength (fun y => y - e.log (e.total (L.row b (start + s))))
      (hi b hb _ hs v hv))
  show mulMask (((indices b (start + s)).map fun v => min (v - r * L.vLocal) ((L.shard r).lastDim - 1)).map
    fun i => ((computeDistributedLogSoftmax e L.tp (fun r => (L.shard r).slice start stop) r).entry b s).getD i 0)
    ((indices b (start + s)).map fun v => decide (r * L.vLocal ≤ v ∧ v < (r + 1) * L.vLocal)) = _
  rw [logSoftmax_entry hlength (row_ne_nil hb hs) (fun _ _ => rfl) hr,lastDim_shard hb hs hr,
    List.map_map,mulMask_map]
  rfl

theorem joinChunks_of_cat {α : Type} {xs : List (Grid α)} {out : Grid α} (h : cat xs = some out) :
    joinChunks xs = .ok out := by
  cases xs with
  | nil => cases h
  | cons x xs =>
    cases xs with
    | nil =>
      rw [joinChunks,if_neg (by simp)]
      exact congrArg Except.ok (Option.some.inj h)
    | cons y xs => rw [joinChunks,if_pos (by simp),catChunks,h]

include hi in
theorem gatherLogprob_forward (hc : 0 < chunkSize) (hS : 0 < L.S) :
    ∃ out, (∀ inferenceOnly, ChunkedDistributedGatherLogprob.forward e L.tp L.shard (L.grid indices)
        L.vocabStartIndex L.vocabEndIndex chunkSize inferenceOnly =
          .ok (out,fun r => if inferenceOnly then none else
            some ⟨L.shard r,L.grid indices,chunkSize,L.vocabStartIndex r,L.vocabEndIndex r⟩)) ∧
      out.rows = L.B ∧ out.cols = L.S ∧
      ∀ b < L.B, ∀ s < L.S, out.entry b s = denseLogprobs e L indices b s := by
  let chunk : ℕ → Grid (List K) := fun c => ChunkedDistributedGatherLogprob.forwardChunk e L.tp L.shard
    (L.grid indices) L.vocabStartIndex L.vocabEndIndex (c * chunkSize) (min L.S ((c + 1) * chunkSize))
  have hwidth : ∀ c, (chunk c).cols = min L.S ((c + 1) * chunkSize) - c * chunkSize := by
    intro c
    show min (min L.S ((c + 1) * chunkSize)) L.S - c * chunkSize = _
    omega
  obtain ⟨out,hcat,hshape⟩ := cat_chunks hS hc chunk (denseLogprobs e L indices) (fun _ => rfl) hwidth
    fun _ _ hb _ hs => gatherChunk_entry hi hb hs _
  refine ⟨out,fun inferenceOnly => ?_,hshape⟩
  rw [ChunkedDistributedGatherLogprob.forward,numChunks,if_neg hc.ne']
  show (joinChunks ((List.range (rangeSteps L.S chunkSize)).map chunk) >>= _) = _
  rw [joinChunks_of_cat hcat]
  rfl

omit [LinearOrder K] [IsStrictOrderedRing K] in
theorem sum_scattered (l : List (ℕ × K)) (t : ℕ) (y : K) :
    -y * (l.map Prod.snd).sum + (l.map fun p => if t = p.1 then p.2 else 0).sum =
      (l.map fun p => ((if t = p.1 then 1 else 0) - y) * p.2).sum := by
  induction l with
  | nil => simp
  | cons p l ih =>
    rw [List.map_cons,List.map_cons,List.map_cons,List.sum_cons,List.sum_cons,List.sum_cons,← ih]
    split_ifs <;> ring

omit [LinearOrder K] [IsStrictOrderedRing K] in
theorem scattered_eq (r v : ℕ) (g : K) {j : ℕ} (hj : j < vLocal) :
    (if min (v - r * vLocal) (vLocal - 1) = j
      then g * (if decide (r * vLocal ≤ v ∧ v < (r + 1) * vLocal) = true then 1 else 0) else 0) =
      if r * vLocal + j = v then g else 0 := by
  have hstep : (r + 1) * vLocal = r * vLocal + vLocal := Nat.succ_mul r vLocal
  by_cases hv : r * vLocal + j = v
  · have hin : decide (r * vLocal ≤ v ∧ v < (r + 1) * vLocal) = true := decide_eq_true (by omega)
    rw [if_pos hv,if_pos (by omega),hin,if_pos rfl,mul_one]
  · rw [if_neg hv]
    by_cases hclamp : min (v - r * vLocal) (vLocal - 1) = j
    · have hout : decide (r * vLocal ≤ v ∧ v < (r + 1) * vLocal) = false := decide_eq_false (by omega)
      rw [if_pos hclamp,hout,if_neg Bool.false_ne_true,mul_zero]
    · exact if_neg hclamp

theorem gatherChunk_gradient {gs : ℕ → ℕ → List K}
    (hg : ∀ b < L.B, ∀ s < L.S, (gs b s).length = (indices b s).length) {b start s r : ℕ}
    (hb : b < L.B) (hs : start + s < L.S) (hr : r < L.tp) (stop : ℕ) :
    (ChunkedDistributedGatherLogprob.backwardChunk e L.tp (fun r =>
        ⟨L.shard r,L.grid indices,chunkSize,L.vocabStartIndex r,L.vocabEndIndex r⟩) (L.grid gs) r start
        stop).entry b s =
      part L.vLocal r (gradsOn e (L.row b (start + s)) (List.range (L.row b (start + s)).length)
        (indices b (start + s)) (gs b (start + s))) := by
  have hlength := L.length_row b hb _ hs
  have hsoftmax := softmax_entry (e := e) (b := b) (s := s) hlength hr (row_ne_nil hb hs)
    (x := fun q => (L.shard q).slice start stop) fun _ _ => rfl
  have hindices : indices b (start + s) = ((indices b (start + s)).zip (gs b (start + s))).map Prod.fst :=
    (List.map_fst_zip (hg b hb _ hs).ge).symm
  have hgs : gs b (start + s) = ((indices b (start + s)).zip (gs b (start + s))).map Prod.snd :=
    (List.map_snd_zip (hg b hb _ hs).le).symm
  show scatterAdd ((((computeDistributedLogSoftmax e L.tp (fun q => (L.shard q).slice start stop) r).map
        fun y : List K => y.map e.exp).entry b s).map fun y => -y * (gs b (start + s)).sum)
    ((indices b (start + s)).map fun v => min (v - r * L.vLocal) ((L.shard r).lastDim - 1))
    (mulMask (gs b (start + s)) ((indices b (start + s)).map fun v =>
      decide (r * L.vLocal ≤ v ∧ v < (r + 1) * L.vLocal))) = _
  rw [hsoftmax,lastDim_shard hb hs hr]
  generalize hl : (indices b (start + s)).zip (gs b (start + s)) = l at *
  rw [gradsOn,hl,hlength,part_range hr,hgs,hindices,List.map_map,List.map_map,List.map_map,mulMask_map]
  refine List.ext_getElem (by simp [length_scatterAdd]) fun j hj _ => ?_
  have hlt : j < L.vLocal := by simpa [length_scatterAdd] using hj
  rw [← List.getD_eq_getElem _ 0 hj,getD_scatterAdd _ _ _ (by simpa using hlt)]
  rw [Exchange.getD_range_map _ _ hlt,List.getElem_map,List.getElem_range]
  refine (congrArg (_ + List.sum ·) (List.map_congr_left fun p _ => scattered_eq r p.1 p.2 hlt)).trans ?_
  refine (sum_scattered l (r * L.vLocal + j) _).trans ?_
  refine congrArg List.sum (List.map_congr_left fun p _ => ?_)
  have hlt' : r * L.vLocal + j < L.tp * L.vLocal := by
    have hle : (r + 1) * L.vLocal ≤ L.tp * L.vLocal := Nat.mul_le_mul_right _ hr
    rw [Nat.succ_mul] at hle
    omega
  rw [gradAt,if_pos (List.mem_range.mpr hlt'),← hlength,massOf_range]

theorem gatherLogprob_backward (hc : 0 < chunkSize) (hS : 0 < L.S) {gs : ℕ → ℕ → List K}
    (hg : ∀ b < L.B, ∀ s < L.S, (gs b s).length = (indices b s).length) :
    ∃ grads, ChunkedDistributedGatherLogprob.backward e L.tp (fun r =>
        ⟨L.shard r,L.grid indices,chunkSize,L.vocabStartIndex r,L.vocabEndIndex r⟩) (L.grid gs) =
        .ok grads ∧
      ∀ r < L.tp, (grads r).rows = L.B ∧ (grads r).cols = L.S ∧ ∀ b < L.B, ∀ s < L.S,
        (grads r).entry b s = part L.vLocal r (gradsOn e (L.row b s) (List.range (L.row b s).length)
          (indices b s) (gs b s)) := by
  refine ⟨_,by rw [ChunkedDistributedGatherLogprob.backward,numChunks,if_neg hc.ne']; rfl,
    fun r hr => ?_⟩
  obtain ⟨-,-,hend⟩ := rangeSteps_bounds hS hc
  obtain ⟨hrows,hcols⟩ := shape_foldl_setSlice (fun c => c * chunkSize)
    (fun c => min L.S ((c + 1) * chunkSize)) _ _ _
  refine ⟨hrows,hcols,fun b hb s hs => ?_⟩
  refine foldl_setSlice _ _ (fun s => part L.vLocal r (gradsOn e (L.row b s)
    (List.range (L.row b s).length) (indices b s) (gs b s))) ?_ _ s hs (lt_of_lt_of_le hs hend)
  intro c s hs
  exact gatherChunk_gradient hg hb (lt_of_lt_of_le hs (Nat.min_le_left _ _)) hr _

end Several

section Rejected

variable {L : Logits K} {chunkSize : ℕ} (h : ¬(0 < chunkSize ∧ 0 < L.S))

include h

omit [Field K] [LinearOrder K] [IsStrictOrderedRing K] in
theorem numChunks_rejected : numChunks L.S chunkSize = .error .zeroDivision ∨
    numChunks L.S chunkSize = .ok 0 := by
  rcases Nat.eq_zero_or_pos chunkSize with rfl | hpos
  · exact .inl rfl
  · have hS : L.S = 0 := by
      by_contra hS
      exact h ⟨hpos,Nat.pos_of_ne_zero hS⟩
    refine .inr ?_
    rw [numChunks,if_neg hpos.ne',hS,rangeSteps_zero hpos]

omit [IsStrictOrderedRing K] in
theorem chunkedLogprob_rejected (target : ℕ → ℕ → ℕ) (inferenceOnly : Bool) :
    ∃ error, ChunkedDistributedLogprob.forward e L.tp L.shard (L.grid target) L.vocabStartIndex
      L.vocabEndIndex chunkSize inferenceOnly = .error error := by
  rw [ChunkedDistributedLogprob.forward]
  show ∃ error, (numChunks L.S chunkSize >>= _) = _
  rcases numChunks_rejected h with hnum | hnum
  · exact ⟨_,by rw [hnum]; rfl⟩
  · exact ⟨_,by rw [hnum]; rfl⟩

omit [IsStrictOrderedRing K] in
theorem gatherLogprob_rejected (indices : ℕ → ℕ → List ℕ) (inferenceOnly : Bool) :
    ∃ error, ChunkedDistributedGatherLogprob.forward e L.tp L.shard (L.grid indices) L.vocabStartIndex
      L.vocabEndIndex chunkSize inferenceOnly = .error error := by
  rw [ChunkedDistributedGatherLogprob.forward]
  show ∃ error, (numChunks L.S chunkSize >>= _) = _
  rcases numChunks_rejected h with hnum | hnum
  · exact ⟨_,by rw [hnum]; rfl⟩
  · exact ⟨_,by rw [hnum]; rfl⟩

end Rejected

end Logprob
end DockyardRL
