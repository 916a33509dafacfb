import DockyardRL.Distributed.ContextLayout
import DockyardRL.Logprob.VocabChunks
import DockyardRL.Logprob.VocabTopk

/-! Reading single logits of a vocabulary that is cut over tensor-parallel ranks: at the indices of every
position of a sequence that may be cut over context-parallel ranks, at the columns of a list, and at the
greatest logit. -/
namespace DockyardRL
namespace Logprob

open Chunks Distributed Grid TopK
open ChunkedDistributedGatherLogprob (inRange localIndices mulMask joinChunks)

section Positions

variable {α : Type}

def takeCols (order : List ℕ) (x : Grid α) : Grid α :=
  ⟨x.rows,order.length,fun b s => x.entry b (order.getD s 0)⟩

/-- `_get_tokens_on_this_cp_rank` along the second dimension. -/
def cpShard (cpRank cpSize : ℕ) (x : Grid α) : Grid α :=
  takeCols (getTokensOnThisCpRank cpRank cpSize (List.range x.cols)) x

/-- `torch.nn.functional.pad(x, (0, 0, 0, pad_len))`. -/
def padCols (padLen : ℕ) (fill : α) (x : Grid α) : Grid α :=
  ⟨x.rows,x.cols + padLen,fun b s => if s < x.cols then x.entry b s else fill⟩

/-- `allgather_cp_sharded_tensor` along the second dimension. -/
def allgatherCpSharded (cpSize : ℕ) (x : ℕ → Grid α) : Grid α :=
  let order := allGatherCp cpSize fun r => (List.range (x r).cols).map (Prod.mk r)
  ⟨(x 0).rows,order.length,fun b s =>
    let source := order.getD s (0,0)
    (x source.1).entry b source.2⟩

/-- The tensor without its last positions, where there may be none to leave out. -/
def dropCols (n : ℕ) (x : Grid α) : Grid α := ⟨x.rows,x.cols - n,x.entry⟩

end Positions

section Gathers

variable {K : Type} [Field K]

/-- The logits of a chunk at the indices: those that a rank has, and zeros for the others; with a
tensor-parallel group their sum. -/
def gatherChunk (tpGroup : Option ℕ) (vocabParallelLogits : ℕ → Grid (List K))
    (globalIndices : Grid (List ℕ)) (vocabStartIndex vocabEndIndex : ℕ → ℕ) (tpRank s0 s1 : ℕ) :
    Grid (List K) :=
  let gi := globalIndices.slice s0 s1
  let localVals := fun r =>
    let logitsChunk := (vocabParallelLogits r).slice s0 s1
    let li := localIndices (vocabStartIndex r) (vocabParallelLogits r).lastDim gi
    let gathered := li.zip (fun is row => is.map fun i => row.getD i 0) logitsChunk
    gathered.zip mulMask (inRange (vocabStartIndex r) (vocabEndIndex r) gi)
  match tpGroup with
  | none => localVals tpRank
  | some tp => allReduceSumRows tp localVals

/-- The loop over the chunks on a rank. -/
def gatherChunks (tpGroup : Option ℕ) (vocabParallelLogits : ℕ → Grid (List K))
    (globalIndices : Grid (List ℕ)) (vocabStartIndex vocabEndIndex : ℕ → ℕ) (chunkSize : Option ℕ)
    (tpRank : ℕ) : Except Raised (Grid (List K)) :=
  let S := (vocabParallelLogits tpRank).cols
  let chunkSize := chunkSize.getD S
  if chunkSize = 0 then .error (.value "range() arg 3 must not be zero")
  else joinChunks ((List.range (rangeSteps S chunkSize)).map fun c =>
    gatherChunk tpGroup vocabParallelLogits globalIndices vocabStartIndex vocabEndIndex tpRank
      (c * chunkSize) (min S ((c + 1) * chunkSize)))

def localGlobalIndices (cpSize cpRank logitsLen k : ℕ) (globalIndices : Grid (List ℕ)) :
    Grid (List ℕ) :=
  if 1 < cpSize then
    let padLen := logitsLen * cpSize - globalIndices.cols
    cpShard cpRank cpSize (padCols padLen (List.replicate k 0) globalIndices)
  else globalIndices

/-- `gather_logits_at_global_indices` with indices of shape `[B,S,k]`, for the logits of all ranks. -/
def gatherLogitsAtGlobalIndices (tpGroup : Option ℕ) (cpSize k : ℕ)
    (vocabParallelLogits : ℕ → ℕ → Grid (List K)) (globalIndices : Grid (List ℕ))
    (vocabStartIndex vocabEndIndex : ℕ → ℕ) (chunkSize : Option ℕ) (cpRank tpRank : ℕ) :
    Except Raised (Grid (List K)) := do
  let padLen := (vocabParallelLogits cpRank tpRank).cols * cpSize - globalIndices.cols
  let gatheredLogits := fun r => gatherChunks tpGroup (vocabParallelLogits r)
    (localGlobalIndices cpSize r (vocabParallelLogits r tpRank).cols k globalIndices)
    vocabStartIndex vocabEndIndex chunkSize tpRank
  let own ← gatheredLogits cpRank
  if 1 < cpSize then
    let all ← (List.range cpSize).mapM gatheredLogits
    return dropCols padLen (allgatherCpSharded cpSize fun r => all.getD r own)
  else return own

/-- `vocab_parallel_gather_columns` of logits whose last dimension is `localVocabSize` on every rank. -/
def vocabParallelGatherColumns (tpWorld localVocabSize : ℕ) (localLogits : ℕ → Grid (List K))
    (columns : List ℕ) (tpRank : ℕ) : Grid (List K) :=
  if tpWorld ≤ 1 then (localLogits tpRank).map fun row => columns.map fun c => row.getD c 0
  else allReduceSumRows tpWorld fun r =>
    let vocabStart := r * localVocabSize
    let inRange := columns.map fun c => decide (vocabStart ≤ c ∧ c < vocabStart + localVocabSize)
    let localIds := columns.map fun c => min (c - vocabStart) (localVocabSize - 1)
    (localLogits r).map fun row => mulMask (localIds.map fun i => row.getD i 0) inRange

/-- `vocab_parallel_argmax` of logits whose last dimension is `localVocabSize` on every rank. -/
def vocabParallelArgmax (argmax : List K → ℕ) (topk : List K → ℕ → List (K × ℕ))
    (tpWorld localVocabSize : ℕ) (localLogits : ℕ → Grid (List K)) (tpRank : ℕ) :
    Except TopkRaised (Grid ℕ) :=
  if 1 < tpWorld then do
    let (_,topkGlobalIdx) ← distributedVocabTopk topk tpWorld localLogits 1 (· * localVocabSize)
      (fun r => (r + 1) * localVocabSize) none tpRank
    return topkGlobalIdx.map fun is => is.headD 0
  else return (localLogits tpRank).map argmax

end Gathers

section Positions

variable {α : Type} {cpSize s : ℕ}

theorem getTokensOnThisCpRank_map {β : Type} (f : α → β) (cpRank cpSize : ℕ) (l : List α) :
    getTokensOnThisCpRank cpRank cpSize (l.map f) = (getTokensOnThisCpRank cpRank cpSize l).map f := by
  unfold getTokensOnThisCpRank
  split_ifs
  · rfl
  · simp only [List.length_map,List.map_flatMap,List.map_take,List.map_drop]

theorem chunkInTwo_map {β : Type} (f : α → β) (l : List α) :
    chunkInTwo (l.map f) = (chunkInTwo l).map (List.map f) := by
  unfold chunkInTwo
  simp only [List.length_map]
  split_ifs <;> simp

theorem allGatherCp_map {β : Type} (f : α → β) (cpSize : ℕ) (tensors : ℕ → List α) :
    allGatherCp cpSize (fun r => (tensors r).map f) = (allGatherCp cpSize tensors).map f := by
  have hchunks : ((List.range cpSize).flatMap fun r => chunkInTwo ((tensors r).map f)) =
      ((List.range cpSize).flatMap fun r => chunkInTwo (tensors r)).map (List.map f) := by
    simp only [chunkInTwo_map,List.map_flatMap]
  have hsort : ∀ l : List (List α × ℕ), SortByKey.sortByKey Prod.snd (l.map (Prod.map (List.map f) id)) =
      (SortByKey.sortByKey Prod.snd l).map (Prod.map (List.map f) id) := fun l => by
    symm
    apply List.map_insertionSort
    exact fun _ _ _ _ => Iff.rfl
  unfold allGatherCp
  dsimp only
  rw [hchunks,List.zip_map_left,hsort,List.flatMap_map,List.map_flatMap]
  rfl

/-- What the ranks have of a tensor is put together again. -/
theorem entry_allgatherCpSharded {x : ℕ → Grid α} {full : List α} (hcp : 0 < cpSize)
    (hfull : full.length = cpSize * 2 * s) {b : ℕ} (hx : ∀ r < cpSize,
      (List.range (x r).cols).map ((x r).entry b) = getTokensOnThisCpRank r cpSize full) :
    (allgatherCpSharded cpSize x).cols = cpSize * 2 * s ∧ ∀ t (ht : t < full.length),
      (allgatherCpSharded cpSize x).entry b t = full[t] := by
  have hgather := allGatherCp_getTokens hcp hfull hx
  have hmap : (allGatherCp cpSize fun r => (List.range (x r).cols).map (Prod.mk r)).map
      (fun source => (x source.1).entry b source.2) = full := by
    rw [← allGatherCp_map,← hgather]
    simp only [List.map_map]
    rfl
  have hlength := congrArg List.length hmap
  rw [List.length_map] at hlength
  refine ⟨hlength.trans hfull,fun t ht => ?_⟩
  have hentry : (List.map _ _)[t]? = full[t]? := congrArg (fun l => l[t]?) hmap
  rw [List.getElem?_map,List.getElem?_eq_getElem ht,Option.map_eq_some_iff] at hentry
  obtain ⟨source,hsource,hvalue⟩ := hentry
  rw [← hvalue]
  simp only [allgatherCpSharded,List.getD_eq_getElem?_getD,hsource,Option.getD_some]

/-- The number of positions, also of a tensor without rows. -/
theorem cols_allgatherCpSharded {x : ℕ → Grid α} (hcp : 0 < cpSize)
    (hx : ∀ r < cpSize, (x r).cols = 2 * s) : (allgatherCpSharded cpSize x).cols = cpSize * 2 * s := by
  have hunits : ∀ r < cpSize, (List.range (x r).cols).map (fun _ => ()) =
      getTokensOnThisCpRank r cpSize (List.replicate (cpSize * 2 * s) ()) := by
    intro r hr
    refine List.ext_getElem ?_ fun _ _ _ => rfl
    rw [List.length_map,List.length_range,hx r hr,length_getTokens hcp List.length_replicate hr]
  exact (entry_allgatherCpSharded (x := fun r => ⟨1,(x r).cols,fun _ _ => ()⟩) (b := 0) hcp
    List.length_replicate hunits).1

end Positions

end Logprob
end DockyardRL
