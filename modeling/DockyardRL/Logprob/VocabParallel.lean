import DockyardRL.Lib.Grid
import DockyardRL.Lib.Reductions

/-! Log-probabilities of logits whose vocabulary is cut into parts, one for each rank of a
tensor-parallel group: all positions at once, in chunks of the sequence, and for several tokens a
position. Each has a forward and a backward pass. -/
namespace DockyardRL
namespace Logprob

open Chunks Grid Softmax

/-- What a call raises. -/
inductive Raised
  | zeroDivision
  | emptyCat
  | index
  | value (message : String)
  | splitSizes
  deriving DecidableEq

variable {K : Type} [Field K] [LinearOrder K]

/-- `all_reduce` with `SUM`: what every rank holds afterwards. -/
def allReduceSum (tp : ℕ) (x : ℕ → Grid K) : Grid K :=
  ⟨(x 0).rows,(x 0).cols,fun b s => ((List.range tp).map fun r => (x r).entry b s).sum⟩

/-- `all_reduce` with `MAX`. -/
def allReduceMax (tp : ℕ) (x : ℕ → Grid K) : Grid K :=
  ⟨(x 0).rows,(x 0).cols,fun b s => ((List.range tp).map fun r => (x r).entry b s).max?.getD 0⟩

/-- `all_reduce` with `SUM` of tensors of shape `[B,S,n]`. -/
def allReduceSumRows (tp : ℕ) (x : ℕ → Grid (List K)) : Grid (List K) :=
  ⟨(x 0).rows,(x 0).cols,fun b s => (List.range ((x 0).entry b s).length).map fun j =>
    ((List.range tp).map fun r => ((x r).entry b s).getD j 0).sum⟩

/-- `torch.amax(row, dim=-1)`. -/
def amax (row : List K) : K := row.max?.getD 0

variable (e : Exponential K)

def computeDistributedLogSoftmax (tp : ℕ) (vocabParallelLogits : ℕ → Grid (List K)) :
    ℕ → Grid (List K) :=
  let logitsMax := allReduceMax tp fun r => (vocabParallelLogits r).map amax
  let shifted := fun r =>
    (vocabParallelLogits r).zip (fun row m => row.map fun x => x - m) logitsMax
  let sumExpLogits := allReduceSum tp fun r => (shifted r).map e.total
  fun r => (shifted r).zip (fun row total => row.map fun x => x - e.log total) sumExpLogits

/-- `(target < vocab_start_index) | (target >= vocab_end_index)`. -/
def targetMask (vocabStartIndex vocabEndIndex : ℕ) (target : Grid ℕ) : Grid Bool :=
  target.map fun t => decide (t < vocabStartIndex ∨ vocabEndIndex ≤ t)

/-- `target - vocab_start_index`, zero where it is masked. -/
def maskedTarget (vocabStartIndex vocabEndIndex : ℕ) (target : Grid ℕ) : Grid ℕ :=
  target.zip (fun t masked => if masked then 0 else t - vocabStartIndex)
    (targetMask vocabStartIndex vocabEndIndex target)

/-- `torch.gather` at the masked target, zero where it is masked. -/
def gatherMasked (logProbs : Grid (List K)) (mask : Grid Bool) (masked : Grid ℕ) : Grid K :=
  (logProbs.zip (fun row t => row.getD t 0) masked).zip (fun x m => if m then 0 else x) mask

/-- `torch.nn.functional.one_hot(t, num_classes)`. -/
def oneHot (t numClasses : ℕ) : List K := (List.range numClasses).map fun v => if v = t then 1 else 0

/-- `(size + chunk_size - 1) // chunk_size`. -/
def numChunks (size chunkSize : ℕ) : Except Raised ℕ :=
  if chunkSize = 0 then .error .zeroDivision else .ok (rangeSteps size chunkSize)

/-- `torch.cat(xs, dim=1)`. -/
def catChunks {α : Type} (xs : List (Grid α)) : Except Raised (Grid α) :=
  match cat xs with
  | some x => .ok x
  | none => .error .emptyCat

namespace DistributedLogprob

/-- What the forward pass saves on a rank. -/
structure Saved (K : Type) where
  softmax : Grid (List K)
  targetMask : Grid Bool
  maskedTarget : Grid ℕ

def forward (tp : ℕ) (vocabParallelLogits : ℕ → Grid (List K)) (target : Grid ℕ)
    (vocabStartIndex vocabEndIndex : ℕ → ℕ) (inferenceOnly : Bool) :
    Grid K × (ℕ → Option (Saved K)) :=
  let mask := fun r => targetMask (vocabStartIndex r) (vocabEndIndex r) target
  let masked := fun r => maskedTarget (vocabStartIndex r) (vocabEndIndex r) target
  let fullLogProbs := computeDistributedLogSoftmax e tp vocabParallelLogits
  let logProbs := allReduceSum tp fun r => gatherMasked (fullLogProbs r) (mask r) (masked r)
  (logProbs,fun r =>
    if inferenceOnly then none
    else some ⟨(fullLogProbs r).map fun row => row.map e.exp,mask r,masked r⟩)

/-- The backward pass of a rank, for a softmax of shape `[B,S,V]`. -/
def backward (saved : Saved K) (gradOutput : Grid K) : Grid (List K) :=
  let B := saved.softmax.rows
  let S := saved.softmax.cols
  let V := saved.softmax.lastDim
  let row := (List.range B).flatMap fun b => List.replicate S b
  let col := (List.range B).flatMap fun _ => List.range S
  let flatIdx := List.zipWith (fun r c => (r * S + c) * V) row col
  let chosen := saved.targetMask.flatten.map fun masked => !masked
  let flatChosen := List.zipWith (fun i t => i + t) (maskedSelect flatIdx chosen)
    (maskedSelect saved.maskedTarget.flatten chosen)
  let gradInput := saved.softmax.zip (fun row g => row.map fun y => -y * g) gradOutput
  let gradOutputSelected := maskedSelect gradOutput.flatten chosen
  let flat := scatterAdd gradInput.flatten.flatten flatChosen gradOutputSelected
  ⟨B,S,fun b s => (flat.drop ((b * S + s) * V)).take V⟩

end DistributedLogprob

namespace ChunkedDistributedLogprob

structure Saved (K : Type) where
  vocabParallelLogits : Grid (List K)
  targetMask : Grid Bool
  maskedTarget : Grid ℕ
  chunkSize : ℕ

def forwardChunk (tp : ℕ) (vocabParallelLogits : ℕ → Grid (List K)) (mask : ℕ → Grid Bool)
    (masked : ℕ → Grid ℕ) (chunkStart chunkEnd : ℕ) : Grid K :=
  let logProbs := computeDistributedLogSoftmax e tp fun r =>
    (vocabParallelLogits r).slice chunkStart chunkEnd
  allReduceSum tp fun r => gatherMasked (logProbs r) ((mask r).slice chunkStart chunkEnd)
    ((masked r).slice chunkStart chunkEnd)

def forward (tp : ℕ) (vocabParallelLogits : ℕ → Grid (List K)) (target : Grid ℕ)
    (vocabStartIndex vocabEndIndex : ℕ → ℕ) (chunkSize : ℕ) (inferenceOnly : Bool) :
    Except Raised (Grid K × (ℕ → Option (Saved K))) := do
  let mask := fun r => targetMask (vocabStartIndex r) (vocabEndIndex r) target
  let masked := fun r => maskedTarget (vocabStartIndex r) (vocabEndIndex r) target
  let seqSize := (vocabParallelLogits 0).cols
  let chunks ← numChunks seqSize chunkSize
  let logProbs ← catChunks ((List.range chunks).map fun chunkIdx =>
    forwardChunk e tp vocabParallelLogits mask masked (chunkIdx * chunkSize)
      (min seqSize ((chunkIdx + 1) * chunkSize)))
  return (logProbs,fun r =>
    if inferenceOnly then none
    else some ⟨vocabParallelLogits r,mask r,masked r,chunkSize⟩)

/-- The gradient of a chunk on a rank. -/
def backwardChunk (tp : ℕ) (saved : ℕ → Saved K) (gradOutput : Grid K) (r chunkStart chunkEnd : ℕ) :
    Grid (List K) :=
  let partitionVocabSize := (saved r).vocabParallelLogits.lastDim
  let logProbs := computeDistributedLogSoftmax e tp fun q =>
    (saved q).vocabParallelLogits.slice chunkStart chunkEnd
  let softmaxOutput := (logProbs r).map fun row => row.map e.exp
  let isChosen := ((saved r).targetMask.slice chunkStart chunkEnd).zip
    (fun masked t => (oneHot t partitionVocabSize).map fun x => (if masked then 0 else 1) * x)
    ((saved r).maskedTarget.slice chunkStart chunkEnd)
  let difference := isChosen.zip (fun one soft => List.zipWith (fun x y => x - y) one soft)
    softmaxOutput
  difference.zip (fun row g => row.map fun x => x * g) (gradOutput.slice chunkStart chunkEnd)

def backward (tp : ℕ) (saved : ℕ → Saved K) (gradOutput : Grid K) :
    Except Raised (ℕ → Grid (List K)) := do
  let chunkSize := (saved 0).chunkSize
  let seqSize := (saved 0).vocabParallelLogits.cols
  let chunks ← numChunks seqSize chunkSize
  return fun r => (List.range chunks).foldl (fun gradInput chunkIdx =>
      gradInput.setSlice (chunkIdx * chunkSize) (min seqSize ((chunkIdx + 1) * chunkSize))
        (backwardChunk e tp saved gradOutput r (chunkIdx * chunkSize)
          (min seqSize ((chunkIdx + 1) * chunkSize))))
    ((saved r).vocabParallelLogits.map fun row => row.map fun _ => 0)

end ChunkedDistributedLogprob

namespace ChunkedDistributedGatherLogprob

structure Saved (K : Type) where
  vocabParallelLogits : Grid (List K)
  globalIndices : Grid (List ℕ)
  chunkSize : ℕ
  vocabStartIndex : ℕ
  vocabEndIndex : ℕ

def inRange (vocabStartIndex vocabEndIndex : ℕ) (gi : Grid (List ℕ)) : Grid (List Bool) :=
  gi.map fun is => is.map fun v => decide (vocabStartIndex ≤ v ∧ v < vocabEndIndex)

/-- `(gi - vocab_start_index).clamp(min=0, max=V_local - 1)`. -/
def localIndices (vocabStartIndex vLocal : ℕ) (gi : Grid (List ℕ)) : Grid (List ℕ) :=
  gi.map fun is => is.map fun v => min (v - vocabStartIndex) (vLocal - 1)

/-- `values * in_range`. -/
def mulMask (values : List K) (mask : List Bool) : List K :=
  List.zipWith (fun x owned => x * if owned then 1 else 0) values mask

/-- `torch.cat(out_chunks, dim=1) if len(out_chunks) > 1 else out_chunks[0]`. -/
def joinChunks {α : Type} (outChunks : List (Grid α)) : Except Raised (Grid α) :=
  if 1 < outChunks.length then catChunks outChunks
  else match outChunks with
    | [] => .error .index
    | x :: _ => .ok x

def forwardChunk (tp : ℕ) (vocabParallelLogits : ℕ → Grid (List K)) (globalIndices : Grid (List ℕ))
    (vocabStartIndex vocabEndIndex : ℕ → ℕ) (s0 s1 : ℕ) : Grid (List K) :=
  let logProbs := computeDistributedLogSoftmax e tp fun r => (vocabParallelLogits r).slice s0 s1
  let gi := globalIndices.slice s0 s1
  allReduceSumRows tp fun r =>
    let li := localIndices (vocabStartIndex r) (vocabParallelLogits r).lastDim gi
    let localVals := (logProbs r).zip (fun row is => is.map fun i => row.getD i 0) li
    localVals.zip mulMask (inRange (vocabStartIndex r) (vocabEndIndex r) gi)

def forward (tp : ℕ) (vocabParallelLogits : ℕ → Grid (List K)) (globalIndices : Grid (List ℕ))
    (vocabStartIndex vocabEndIndex : ℕ → ℕ) (chunkSize : ℕ) (inferenceOnly : Bool) :
    Except Raised (Grid (List K) × (ℕ → Option (Saved K))) := do
  let S := (vocabParallelLogits 0).cols
  let chunks ← numChunks S chunkSize
  let out ← joinChunks ((List.range chunks).map fun chunkIdx =>
    forwardChunk e tp vocabParallelLogits globalIndices vocabStartIndex vocabEndIndex
      (chunkIdx * chunkSize) (min S ((chunkIdx + 1) * chunkSize)))
  return (out,fun r =>
    if inferenceOnly then none
    else some ⟨vocabParallelLogits r,globalIndices,chunkSize,vocabStartIndex r,vocabEndIndex r⟩)

/-- The gradient of a chunk on a rank. -/
def backwardChunk (tp : ℕ) (saved : ℕ → Saved K) (gradOutput : Grid (List K)) (r s0 s1 : ℕ) :
    Grid (List K) :=
  let logProbs := computeDistributedLogSoftmax e tp fun q =>
    (saved q).vocabParallelLogits.slice s0 s1
  let softmaxOutput := (logProbs r).map fun row => row.map e.exp
  let gi := (saved r).globalIndices.slice s0 s1
  let owned := inRange (saved r).vocabStartIndex (saved r).vocabEndIndex gi
  let li := localIndices (saved r).vocabStartIndex (saved r).vocabParallelLogits.lastDim gi
  let goChunk := gradOutput.slice s0 s1
  let goSum := goChunk.map List.sum
  let copied := softmaxOutput.zip (fun row g => row.map fun y => -y * g) goSum
  let goMasked := goChunk.zip mulMask owned
  (copied.zip (fun row is => (row,is)) li).zip (fun p src => scatterAdd p.1 p.2 src) goMasked

def backward (tp : ℕ) (saved : ℕ → Saved K) (gradOutput : Grid (List K)) :
    Except Raised (ℕ → Grid (List K)) := do
  let chunkSize := (saved 0).chunkSize
  let S := (saved 0).vocabParallelLogits.cols
  let chunks ← numChunks S chunkSize
  return fun r => (List.range chunks).foldl (fun gradInput chunkIdx =>
      gradInput.setSlice (chunkIdx * chunkSize) (min S ((chunkIdx + 1) * chunkSize))
        (backwardChunk e tp saved gradOutput r (chunkIdx * chunkSize)
          (min S ((chunkIdx + 1) * chunkSize))))
    ((saved r).vocabParallelLogits.map fun row => row.map fun _ => 0)

end ChunkedDistributedGatherLogprob

end Logprob
end DockyardRL
