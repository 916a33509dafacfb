import DockyardRL.Lib.Packed

/-! The logits of a teacher for the window of a student rank: assembled from the shards of the
producers, viewed in the storage of one producer, or sent in chunks of the sequence. -/
namespace DockyardRL
namespace XToken

open Blocks

variable {α Payload : Type*}

inductive TransportError
  | noShards | notDivisible | index | shape | noSamples | numSeqChunks | noChunks
deriving DecidableEq, Repr

/-- A handle of a shard. -/
structure ShardHandle (Payload : Type*) where
  vocabStartIndex : ℕ
  vocabEndIndex : ℕ
  globalSeqStart : ℕ
  actualShape : ℕ × ℕ
  fullSeqLen : ℕ
  fullVocabSize : ℕ
  payloadIpc : Payload
  bufIdx : ℕ
  sampleIndexInBuf : ℕ

abbrev Storage (α Payload : Type*) := Payload → List (List (List (List α)))

/-- The slices that are read of a shard and written to the destination. -/
structure ShardMatch (Payload : Type*) where
  handle : ShardHandle Payload
  srcSeq : ℕ × ℕ
  srcVocab : ℕ × ℕ
  destSeq : ℕ × ℕ
  destVocab : ℕ × ℕ

/-- The slices of one shard, if it has rows of the student. -/
def overlap (studentSeqStart studentSeqEnd : ℕ) (handle : ShardHandle Payload) :
    Option (ShardMatch Payload) :=
  let teacherSeqStart := handle.globalSeqStart
  let teacherSeqEnd := teacherSeqStart + handle.actualShape.1
  let overlapSeqStart := max studentSeqStart teacherSeqStart
  let overlapSeqEnd := min studentSeqEnd teacherSeqEnd
  if overlapSeqEnd ≤ overlapSeqStart then none
  else some
    { handle := handle
      srcSeq := (overlapSeqStart - teacherSeqStart,overlapSeqEnd - teacherSeqStart)
      srcVocab := (0,handle.vocabEndIndex - handle.vocabStartIndex)
      destSeq := (overlapSeqStart - studentSeqStart,overlapSeqEnd - studentSeqStart)
      destVocab := (handle.vocabStartIndex,handle.vocabEndIndex) }

def collectOverlappingTeacherShards (teacherShards : List (ShardHandle Payload))
    (studentCpRank studentCpSize fullSeqLen : ℕ) : List (ShardMatch Payload) :=
  teacherShards.filterMap (overlap (studentCpRank * fullSeqLen / studentCpSize)
    ((studentCpRank + 1) * fullSeqLen / studentCpSize))

/-- `src_full[buf_idx, sample_idx, :local_seq_t, :local_vocab_t]`. -/
def readShard (storage : Storage α Payload) (handle : ShardHandle Payload) :
    Except TransportError (List (List α)) :=
  match (storage handle.payloadIpc)[handle.bufIdx]? with
  | none => .error .index
  | some buffer =>
    match buffer[handle.sampleIndexInBuf]? with
    | none => .error .index
    | some sample => .ok (block (0,handle.actualShape.1) (0,handle.actualShape.2) sample)

/-- `dest[rows, cols] = values`. -/
def assign (dest : List (List α)) (rows cols : ℕ × ℕ) (values : List (List α)) :
    Except TransportError (List (List α)) :=
  if HasShape (rows.2 - rows.1) (cols.2 - cols.1) values ∧ rows.2 ≤ dest.length ∧
      ∀ row ∈ dest, cols.2 ≤ row.length then .ok (setBlock rows cols values dest)
  else .error .shape

def copyShard (storage : Storage α Payload) (dest : List (List α)) (found : ShardMatch Payload) :
    Except TransportError (List (List α)) := do
  let src ← readShard storage found.handle
  assign dest found.destSeq found.destVocab (block found.srcSeq found.srcVocab src)

def assembleTeacherLogitsFromShards [Zero α] (storage : Storage α Payload)
    (teacherShards : List (ShardHandle Payload)) (studentCpRank studentCpSize : ℕ) :
    Except TransportError (List (List α)) :=
  match teacherShards with
  | [] => .error .noShards
  | first :: _ =>
    if first.fullSeqLen % studentCpSize ≠ 0 then .error .notDivisible
    else
      let localSeqLen := first.fullSeqLen / studentCpSize
      let dest := List.replicate localSeqLen (List.replicate first.fullVocabSize 0)
      (collectOverlappingTeacherShards teacherShards studentCpRank studentCpSize
        first.fullSeqLen).foldlM (copyShard storage) dest

def covering (teacherShards : List (ShardHandle Payload))
    (fullVocabSize studentSeqStart studentSeqEnd : ℕ) : List (ShardHandle Payload) :=
  teacherShards.filter fun h =>
    h.vocabStartIndex = 0 ∧ h.vocabEndIndex = fullVocabSize ∧ h.globalSeqStart ≤ studentSeqStart ∧
      studentSeqEnd ≤ h.globalSeqStart + h.actualShape.1

def chooseHandles (fullVocabSize studentSeqStart studentSeqEnd : ℕ) :
    List (List (ShardHandle Payload)) → Option (List (ShardHandle Payload))
  | [] => some []
  | teacherShards :: entries =>
    match covering teacherShards fullVocabSize studentSeqStart studentSeqEnd with
    | [handle] => (chooseHandles fullVocabSize studentSeqStart studentSeqEnd entries).map (handle :: ·)
    | _ => none

def isSlab [DecidableEq Payload] (first : ShardHandle Payload) (chosen : List (ShardHandle Payload)) :
    Bool :=
  chosen.zipIdx.all fun p =>
    p.1.payloadIpc = first.payloadIpc ∧ p.1.bufIdx = first.bufIdx ∧ p.1.sampleIndexInBuf = p.2 ∧
      p.1.globalSeqStart = first.globalSeqStart

def tryZeroCopyTeacherLogits [DecidableEq Payload] (storage : Storage α Payload)
    (perSampleEntries : List (List (ShardHandle Payload))) (studentCpRank studentCpSize : ℕ) :
    Except TransportError (Option (List (List (List α)))) :=
  match perSampleEntries with
  | [] => .ok none
  | [] :: _ => .ok none
  | (first :: _) :: _ =>
    let studentSeqStart := studentCpRank * first.fullSeqLen / studentCpSize
    let studentSeqEnd := (studentCpRank + 1) * first.fullSeqLen / studentCpSize
    match chooseHandles first.fullVocabSize studentSeqStart studentSeqEnd perSampleEntries with
    | none => .ok none
    | some [] => .ok none
    | some (h0 :: more) =>
      if isSlab h0 (h0 :: more) then
        match (storage h0.payloadIpc)[h0.bufIdx]? with
        | none => .error .index
        | some buffer =>
          .ok (some ((buffer.take (more.length + 1)).map
            (block (studentSeqStart - h0.globalSeqStart,studentSeqEnd - h0.globalSeqStart)
              (0,first.fullVocabSize))))
      else .ok none

/-- `torch.stack(rebuilt, dim=0)`. -/
def stack (rebuilt : List (List (List α))) : Except TransportError (List (List (List α))) :=
  match rebuilt with
  | [] => .error .noSamples
  | _ :: _ => .ok rebuilt

def rankAndSize (cpGroup : Option (ℕ × ℕ)) : ℕ × ℕ := cpGroup.getD (0,1)

def rebuildTeacherFullLogitsFromIpc [DecidableEq Payload] [Zero α] (storage : Storage α Payload)
    (perSampleEntries : List (List (ShardHandle Payload))) (cpGroup : Option (ℕ × ℕ)) :
    Except TransportError (List (List (List α))) :=
  let cp := rankAndSize cpGroup
  match tryZeroCopyTeacherLogits storage perSampleEntries cp.1 cp.2 with
  | .error e => .error e
  | .ok (some view) => .ok view
  | .ok none =>
    match perSampleEntries.mapM fun entry =>
        assembleTeacherLogitsFromShards storage entry cp.1 cp.2 with
    | .error e => .error e
    | .ok rebuilt => stack rebuilt

/-- A batch of logits with its sequence length. -/
structure LogitsBatch (α : Type*) where
  seqLen : ℕ
  samples : List (List (List α))

/-- `torch.chunk(x, num_seq_chunks, dim=1)`. -/
def chunkSeq (x : LogitsBatch α) (numSeqChunks : ℕ) : List (LogitsBatch α) :=
  let size := (x.seqLen + numSeqChunks - 1) / numSeqChunks
  let chunks := if size = 0 then numSeqChunks else (x.seqLen + size - 1) / size
  (List.range chunks).map fun i =>
    ⟨min size (x.seqLen - i * size),x.samples.map (cut (i * size,(i + 1) * size))⟩

def chunkTeacherLogitsForCrossCluster (teacherLogits : LogitsBatch α) (numSeqChunks : ℕ) :
    Except TransportError (List (LogitsBatch α)) :=
  if numSeqChunks < 1 then .error .numSeqChunks else .ok (chunkSeq teacherLogits numSeqChunks)

/-- `torch.cat([x, y], dim=1)`. -/
def LogitsBatch.append (x y : LogitsBatch α) : LogitsBatch α :=
  ⟨x.seqLen + y.seqLen,List.zipWith (· ++ ·) x.samples y.samples⟩

def rebuildTeacherFullLogitsCrossCluster (seqChunks : List (LogitsBatch α))
    (cpGroup : Option (ℕ × ℕ)) : Except TransportError (LogitsBatch α) :=
  match seqChunks with
  | [] => .error .noChunks
  | first :: more =>
    let full := more.foldl LogitsBatch.append first
    let cpSize := match cpGroup with
      | some (_,size) => if 1 < size then size else 1
      | none => 1
    if cpSize = 1 then .ok full
    else
      let cpRank := (rankAndSize cpGroup).1
      if full.seqLen % cpSize ≠ 0 then .error .notDivisible
      else
        let localSeqLen := full.seqLen / cpSize
        let seqStart := cpRank * localSeqLen
        .ok ⟨min localSeqLen (full.seqLen - seqStart),
          full.samples.map (cut (seqStart,seqStart + localSeqLen))⟩

end XToken
end DockyardRL
