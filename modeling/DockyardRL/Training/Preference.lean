import DockyardRL.Lib.Chunks
import DockyardRL.Distributed.BatchedDataDict
import Mathlib.Algebra.Module.Basic
import Mathlib.Algebra.Module.BigOperators
import Mathlib.Algebra.Order.Field.Basic

/-! `train` of the two policy workers: how a batch of rows is cut into global batches and
micro-batches, which counts normalise each of them, and which gradients reach the optimizer.

Preference training: the rows of a pair are next to each other, and every driver hands the rows to
`Policy.train` with sizes of its own. -/
namespace DockyardRL
namespace Training

section

open Chunks

variable {ρ K G : Type*}

/-- The mask columns of a row. -/
structure Columns (ρ K : Type*) where
  sampleMask : ρ → K
  tokenMask : ρ → List K

/-- The valid sequences and the valid tokens of some rows. -/
structure Counts (K : Type*) where
  seqs : K
  toks : K
  deriving DecidableEq

inductive TrainError
  | zeroDivision
  | noGradients
  /-- A batch that is not cut into equal parts. -/
  | notMultiple
  /-- Two tensors that do not broadcast. -/
  | shapes
  /-- A column of `dim` rows for a batch of `size` rows. -/
  | batchSize (dim size : ℕ)
  deriving DecidableEq

section Counting

variable [AddCommMonoid K] [Mul K] (cols : Columns ρ K)

def validSeqs (batch : List ρ) : K := (batch.map cols.sampleMask).sum

/-- `token_mask[:, 1:] * sample_mask.unsqueeze(-1)`. -/
def validToks (batch : List ρ) : K :=
  (batch.map fun r => ((cols.tokenMask r).tail.map (· * cols.sampleMask r)).sum).sum

def globalValidCounts (data : List ρ) : Counts K := ⟨validSeqs cols data,validToks cols data⟩

def reducedCounts (batches : List (List ρ)) : Counts K :=
  ⟨(batches.map (validSeqs cols)).sum,(batches.map (validToks cols)).sum⟩

/-- `shard_by_batch_size` on the rows of a batch: the rows of every data-parallel rank. -/
def rowShards (shards batchSize : ℕ) (rows : List ρ) : Except TrainError (List (List ρ)) :=
  if batchSize = 0 ∨ shards = 0 then .error .zeroDivision
  else if rows.length % batchSize ≠ 0 ∨ batchSize % shards ≠ 0 then .error .notMultiple
  else .ok ((List.range shards).map fun shardIdx =>
    Distributed.BatchedDataDict.rowsIn (Distributed.BatchedDataDict.shardRanges rows.length batchSize (batchSize / shards)
      (rows.length / batchSize) false shardIdx) rows)

def getBatch (rows : List ρ) (batchIdx batchSize : ℕ) : List ρ :=
  (rows.drop (batchIdx * batchSize)).take batchSize

/-- One pass through the inner loop of `train`. -/
structure MicroStep (ρ K : Type*) where
  rows : List ρ
  /-- `mb_idx < iterator_len`; otherwise the loss is multiplied by zero. -/
  counted : Bool
  counts : Counts K

def microSteps (mbs : ℕ) (counts : Counts K) (batch : List ρ) : List (MicroStep ρ K) :=
  (chunks mbs batch).zipIdx.map fun mb => ⟨mb.1,mb.2 < batch.length / mbs,counts⟩

def globalBatch (localGbs : ℕ) (ranks : List (List ρ)) (gbIdx : ℕ) : List (List ρ) :=
  ranks.map (getBatch · gbIdx localGbs)

def numGlobalBatches (gbs : ℕ) (ranks : List (List ρ)) : ℕ := (ranks.map List.length).sum / gbs

/-- The loops of `train`: the micro-steps of every rank in every global batch. -/
def trainSteps (gbs mbs : ℕ) (ranks : List (List ρ)) :
    Except TrainError (List (List (List (MicroStep ρ K)))) :=
  if gbs = 0 ∨ (0 < numGlobalBatches gbs ranks ∧ mbs = 0) then .error .zeroDivision
  else .ok ((List.range (numGlobalBatches gbs ranks)).map fun gbIdx =>
    let batches := globalBatch (gbs / ranks.length) ranks gbIdx
    batches.map (microSteps mbs (reducedCounts cols batches)))

end Counting

section Updates

variable [Field K] [AddCommGroup G] [Module K G] (cols : Columns ρ K)

def batchGrad (grad : ρ → Counts K → G) (counts : Counts K) (rows : List ρ) : G :=
  (rows.map (grad · counts)).sum

def MicroStep.gradient (grad : ρ → Counts K → G) (s : MicroStep ρ K) : G :=
  if s.counted then batchGrad grad s.counts s.rows else 0

/-- What the optimizer is given for one global batch. The loss is multiplied by the number of
ranks, over which the gradients are averaged. -/
def optimizerGradient (grad : ρ → Counts K → G) (steps : List (List (MicroStep ρ K))) : G :=
  (steps.length : K)⁻¹ •
    (steps.map fun rank => (rank.map fun s => (steps.length : K) • s.gradient grad).sum).sum

def dtensorUpdates (grad : ρ → Counts K → G) (evalMode : Bool) (gbs mbs : ℕ)
    (ranks : List (List ρ)) : Except TrainError (List G) :=
  (trainSteps cols gbs mbs ranks).map fun batches =>
    if evalMode then [] else batches.map (optimizerGradient grad)

/-- `accumulate_grads`; nothing is accumulated without a micro-batch. -/
def accumulateGrads (grad : ρ → Counts K → G) (data : List ρ) (counts : Counts K) (mbs : ℕ) :
    Option G :=
  (chunks mbs data).foldl
    (fun acc mb => some (acc.elim (batchGrad grad counts mb) (· + batchGrad grad counts mb))) none

def trainStep (grad : ρ → Counts K → G) (data : List ρ) (mbs : ℕ) : Except TrainError G :=
  match accumulateGrads grad data (globalValidCounts cols data) mbs with
  | none => .error .noGradients
  | some grads => .ok grads

/-- `mbs or self.train_micro_batch_size`. -/
def microBatchSize (trainMicroBatchSize : ℕ) : Option ℕ → ℕ
  | some (m + 1) => m + 1
  | _ => trainMicroBatchSize

/-- The updates of `JaxPolicyWorkerImpl.train`, which does not read the global batch size. -/
def jaxUpdates (trainMicroBatchSize : ℕ) (grad : ρ → Counts K → G) (data : List ρ)
    (evalMode : Bool) (_gbs mbs : Option ℕ) : Except TrainError (List G) :=
  if evalMode then .ok []
  else (trainStep cols grad data (microBatchSize trainMicroBatchSize mbs)).map ([·])

end Updates

end

variable {α K : Type*}

structure PreferenceDatum (α : Type*) where
  messageLogChosen : α
  messageLogRejected : α
  /-- One or zero. -/
  lossMultiplier : Bool

structure PreferenceRow (α : Type*) where
  messageLog : α
  sampleMask : Bool

def preferenceCollateFn (dataBatch : List (PreferenceDatum α)) : List (PreferenceRow α) :=
  dataBatch.flatMap fun datum =>
    [⟨datum.messageLogChosen,datum.lossMultiplier⟩,⟨datum.messageLogRejected,datum.lossMultiplier⟩]

/-- `maybe_pad_last_batch`: a batch that is not full gets an `input_ids` of more rows, which
`__setitem__` refuses. -/
def maybePadLastBatch (batch : List (PreferenceRow α)) (dpSize mbs : ℕ) :
    Except TrainError (List (PreferenceRow α)) :=
  let minPadding := Chunks.rangeSteps batch.length (mbs * dpSize) * (mbs * dpSize) - batch.length
  if minPadding = 0 then .ok batch else .error (.batchSize (batch.length + minPadding) batch.length)

section Loss

variable [Field K] [LinearOrder K]

/-- The operation on two tensors of one dimension; a dimension of one is stretched. -/
def broadcast (op : K → K → K) (xs ys : List K) : Except TrainError (List K) :=
  if xs.length = ys.length then .ok (List.zipWith op xs ys)
  else
    match xs, ys with
    | [x], ys => .ok (ys.map (op x))
    | xs, [y] => .ok (xs.map (op · y))
    | _, _ => .error .shapes

/-- `split_output_tensor`: the even and the odd positions. -/
def splitOutputTensor {β : Type*} : List β → List β × List β
  | [] => ([],[])
  | [x] => ([x],[])
  | x :: y :: rest => (x :: (splitOutputTensor rest).1,y :: (splitOutputTensor rest).2)

/-- `masked_mean` over all positions with a global normalization factor. -/
def maskedMean (tensor mask : List K) (globalNormalizationFactor : K) : Except TrainError K :=
  (broadcast (· * ·) tensor mask).map fun masked => masked.sum / max globalNormalizationFactor 1

/-- `_preference_loss` without its optional terms. -/
def preferenceLoss (logsigmoid : K → K) (beta : K) (rewards sampleMask : List K)
    (globalValidSeqs : K) : Except TrainError K :=
  let chosenMask := (splitOutputTensor sampleMask).1
  (broadcast (fun chosen rejected => beta * (chosen - rejected)) (splitOutputTensor rewards).1
      (splitOutputTensor rewards).2).bind fun logits =>
    (broadcast (fun logit mask => -logsigmoid logit * mask) logits chosenMask).bind
      fun perSampleLoss => maskedMean perSampleLoss chosenMask (globalValidSeqs / (2 : ℕ))

def preferenceColumns : Columns (PreferenceRow α) K :=
  ⟨fun row => if row.sampleMask then 1 else 0,fun _ => []⟩

/-- The reward of a row under the model, and the parameters of the loss. -/
structure PreferenceLossFn (α K : Type*) where
  logsigmoid : K → K
  beta : K
  reward : α → K

/-- A micro-batch as it was given to the loss, and what the worker keeps of its loss. -/
structure MicroLoss (α K : Type*) where
  rows : List (PreferenceRow α)
  loss : K

def PreferenceLossFn.call (lossFn : PreferenceLossFn α K) (rows : List (PreferenceRow α))
    (globalValidSeqs : K) : Except TrainError K :=
  preferenceLoss lossFn.logsigmoid lossFn.beta (rows.map fun row => lossFn.reward row.messageLog)
    (rows.map preferenceColumns.sampleMask) globalValidSeqs

def PreferenceLossFn.onStep (lossFn : PreferenceLossFn α K) (s : MicroStep (PreferenceRow α) K) :
    Except TrainError (MicroLoss α K) :=
  (lossFn.call s.rows s.counts.seqs).map fun loss => ⟨s.rows,if s.counted then loss else 0⟩

/-- `Policy.train` on all ranks: for every global batch the micro-batches of every rank. -/
def policyTrain (lossFn : PreferenceLossFn α K) (dpSize gbs mbs : ℕ)
    (rows : List (PreferenceRow α)) : Except TrainError (List (List (List (MicroLoss α K)))) :=
  (rowShards dpSize gbs rows).bind fun ranks =>
    (trainSteps preferenceColumns gbs mbs ranks).bind fun steps =>
      steps.mapM fun batches => batches.mapM fun rank => rank.mapM lossFn.onStep

end Loss

/-- The sizes a driver is configured with, in preference data. -/
structure Sizes where
  dpSize : ℕ
  microBatchSize : ℕ
  globalBatchSize : ℕ
  dpSize_pos : 0 < dpSize
  microBatchSize_pos : 0 < microBatchSize
  globalBatchSize_pos : 0 < globalBatchSize

inductive Driver
  | dpoTrain
  | rmTrain
  | onlineTrainFn
  | dpoValidate
  | rmValidate
  deriving DecidableEq

/-- What a driver passes to `Policy.train`. -/
structure TrainCall (α : Type*) where
  rows : List (PreferenceRow α)
  gbs : ℕ
  mbs : ℕ

/-- `add_ref_logprobs_to_data`: a partial batch is to be padded in validation and refused in training. -/
def addRefLogprobsToData (sizes : Sizes) (isVal : Bool) (batch : List (PreferenceRow α)) :
    Except TrainError (List (PreferenceRow α)) :=
  let microBatchSize := sizes.microBatchSize * 2
  if batch.length % (sizes.dpSize * microBatchSize) ≠ 0 then
    if isVal then maybePadLastBatch batch sizes.dpSize microBatchSize
    else .error .notMultiple
  else .ok batch

def loadFull (sizes : Sizes) (data : List (PreferenceDatum α)) :
    Except TrainError (List (PreferenceRow α)) :=
  if data.length = sizes.globalBatchSize then .ok (preferenceCollateFn data)
  else .error .notMultiple

/-- The call of `Policy.train` in each of the drivers. -/
def trainCall (sizes : Sizes) (data : List (PreferenceDatum α)) :
    Driver → Except TrainError (TrainCall α)
  | .dpoTrain =>
    (loadFull sizes data).bind fun batch =>
      (addRefLogprobsToData sizes false batch).map fun rows =>
        ⟨rows,sizes.globalBatchSize * 2,sizes.microBatchSize * 2⟩
  | .rmTrain =>
    (loadFull sizes data).map fun rows =>
      ⟨rows,sizes.globalBatchSize * 2,sizes.microBatchSize * 2⟩
  | .onlineTrainFn =>
    let batch := preferenceCollateFn data
    .ok ⟨batch,batch.length,sizes.microBatchSize⟩
  | .dpoValidate =>
    (addRefLogprobsToData sizes true (preferenceCollateFn data)).map fun rows =>
      ⟨rows,rows.length,sizes.microBatchSize * 2⟩
  | .rmValidate =>
    let batch := preferenceCollateFn data
    let padded := if batch.length < sizes.globalBatchSize * 2 then
      maybePadLastBatch batch sizes.dpSize (sizes.microBatchSize * 2) else .ok batch
    padded.map fun rows => ⟨rows,rows.length,sizes.microBatchSize * 2⟩

section Drive

variable [Field K] [LinearOrder K]

def drive (lossFn : PreferenceLossFn α K) (driver : Driver) (sizes : Sizes)
    (data : List (PreferenceDatum α)) : Except TrainError (List (List (List (MicroLoss α K)))) :=
  (trainCall sizes data driver).bind fun call =>
    policyTrain lossFn sizes.dpSize call.gbs call.mbs call.rows

/-- Two neighbouring rows. -/
inductive Pair (α : Type*)
  | datum (datum : PreferenceDatum α)
  | padding (messageLog : α)

def Pair.rows : Pair α → List (PreferenceRow α)
  | .datum d => preferenceCollateFn [d]
  | .padding messageLog => [⟨messageLog,false⟩,⟨messageLog,false⟩]

/-- Every micro-batch consists of whole pairs, and all of them together are the pairs of the data
and of the padding. -/
def WholePairs (data : List (PreferenceDatum α)) (run : List (List (List (MicroLoss α K)))) : Prop :=
  ∃ pairs : List (List (List (List (Pair α)))),
    run.map (List.map (List.map MicroLoss.rows)) =
      pairs.map (List.map (List.map (List.flatMap Pair.rows))) ∧
    ∃ padding : List α, pairs.flatten.flatten.flatten =
      data.map Pair.datum ++ padding.map Pair.padding

def PreferenceLossFn.pairLoss (lossFn : PreferenceLossFn α K) (datum : PreferenceDatum α) : K :=
  -lossFn.logsigmoid (lossFn.beta *
    (lossFn.reward datum.messageLogChosen - lossFn.reward datum.messageLogRejected))

def PreferenceLossFn.mean (lossFn : PreferenceLossFn α K) (data : List (PreferenceDatum α)) : K :=
  ((data.filter PreferenceDatum.lossMultiplier).map lossFn.pairLoss).sum /
    (data.filter PreferenceDatum.lossMultiplier).length

def totalLoss (run : List (List (List (MicroLoss α K)))) : K :=
  (run.flatten.flatten.map MicroLoss.loss).sum

/-- What holds whenever the batch is accepted. -/
def PairsKept (driver : Driver) (sizes : Sizes) (lossFn : PreferenceLossFn α K)
    (data : List (PreferenceDatum α)) : Prop :=
  ∀ run, drive lossFn driver sizes data = .ok run →
    WholePairs data run ∧ totalLoss run = lossFn.mean data

end Drive

end Training
end DockyardRL
