import DockyardRL.Lib.Gather
import DockyardRL.Packing.Algorithms

/-! `BatchedDataDict`: named values that share a first dimension. A value is its
rows; what a row is (a tensor slice, an image, any Python object) is left open. -/
namespace DockyardRL
namespace Distributed

open Gather Packing

/-- A tensor, an array, a `PackedTensor`, a list, a tensor or array of dimension
zero, or any other value. -/
inductive Value (ρ : Type*)
  | tensor (rows : List ρ)
  | array (rows : List ρ)
  | packed (tensors : List ρ) (dimToPack : ℤ)
  | list (items : List ρ)
  | zeroDim (value : ρ)
  | scalar (value : ρ)
  deriving DecidableEq

inductive BatchError
  | indexError
  | keyError (key : String)
  | typeError
  | valueError (message : String)
  | runtimeError (message : String)
  | assertionError (message : String)
  | zeroDivisionError
  | packing (e : PackError)
  deriving DecidableEq

variable {ρ : Type*}

namespace Value

/-- `_batch_dim` is the number of these. -/
def rows? : Value ρ → Option (List ρ)
  | .tensor rows => some rows
  | .array rows => some rows
  | .packed tensors _ => some tensors
  | .list items => some items
  | .zeroDim _ => none
  | .scalar _ => none

def batchDim (v : Value ρ) : Option ℕ := v.rows?.map List.length

/-- `PackedTensor(tensors, dim)` refuses an empty list. -/
def packedTensor (tensors : List ρ) (dimToPack : ℤ) : Except BatchError (Value ρ) :=
  if tensors.isEmpty then
    .error (.assertionError "Input tensors to PackedTensor must be a non-empty list")
  else .ok (.packed tensors dimToPack)

def rowAt (rows : List ρ) (i : ℕ) : Except BatchError ρ :=
  match rows[i]? with
  | some row => .ok row
  | none => .error .indexError

/-- `rows[idx]` for a list of indices. -/
def takeRows (rows : List ρ) (idx : List ℕ) : Except BatchError (List ρ) := idx.mapM (rowAt rows)

/-- `_slice_value` with a list of indices. -/
def slice (v : Value ρ) (idx : List ℕ) : Except BatchError (Value ρ) :=
  match v with
  | .tensor rows => (takeRows rows idx).map .tensor
  | .array rows => (takeRows rows idx).map .array
  | .packed tensors dim => (takeRows tensors idx).bind fun ts => packedTensor ts dim
  | .list items => (takeRows items idx).map .list
  | .zeroDim _ => .error .indexError
  | .scalar x => .ok (.scalar x)

/-- `_slice_value` with the slice `start:stop`. -/
def sliceRange (v : Value ρ) (start stop : ℕ) : Except BatchError (Value ρ) :=
  match v with
  | .tensor rows => .ok (.tensor ((rows.take stop).drop start))
  | .array rows => .ok (.array ((rows.take stop).drop start))
  | .packed tensors dim => packedTensor ((tensors.take stop).drop start) dim
  | .list items => .ok (.list ((items.take stop).drop start))
  | .zeroDim _ => .error .indexError
  | .scalar x => .ok (.scalar x)

end Value

/-- What the sharding reads of `SequencePackingArgs`; the algorithm may be left out. -/
structure SequencePackingArgs where
  maxTokensPerMicrobatch : ℕ
  inputLengthsKey : String
  algorithm : Option String
  deriving DecidableEq

/-- `_data`, `_batch_size` and `_packing_args`. The keys of a dictionary are distinct. -/
structure BatchedDataDict (ρ : Type*) where
  data : List (String × Value ρ)
  batchSize : Option ℕ
  packingArgs : Option SequencePackingArgs
  deriving DecidableEq

namespace BatchedDataDict

/-- `_infer_batch_size`: the first batched value decides. -/
def inferBatchSize (data : List (String × Value ρ)) : Option ℕ :=
  data.findSome? fun entry => entry.2.batchDim

/-- `__init__`. -/
def ofData (data : List (String × Value ρ)) : BatchedDataDict ρ :=
  ⟨data,inferBatchSize data,none⟩

def empty : BatchedDataDict ρ := ⟨[],none,none⟩

/-- `d[key] = value` on the underlying dictionary. -/
def assign (key : String) (value : Value ρ) : List (String × Value ρ) → List (String × Value ρ)
  | [] => [(key,value)]
  | entry :: rest => if entry.1 = key then (key,value) :: rest else entry :: assign key value rest

/-- `__setitem__`: batched values must agree on the batch size. -/
def setItem (d : BatchedDataDict ρ) (key : String) (value : Value ρ) :
    Except BatchError (BatchedDataDict ρ) :=
  match value.batchDim, d.batchSize with
  | some dim, some size =>
    if dim ≠ size then
      .error (.valueError s!"Cannot insert '{key}' with batch size {dim}; existing batch size is {size}.")
    else .ok { d with data := assign key value d.data }
  | some dim, none => .ok { d with data := assign key value d.data, batchSize := some dim }
  | none, _ => .ok { d with data := assign key value d.data }

def get? (d : BatchedDataDict ρ) (key : String) : Option (Value ρ) := d.data.lookup key

def getItem (d : BatchedDataDict ρ) (key : String) : Except BatchError (Value ρ) :=
  match d.get? key with
  | some v => .ok v
  | none => .error (.keyError key)

/-- `size`, zero when unset. -/
def size (d : BatchedDataDict ρ) : ℕ := d.batchSize.getD 0

/-- `copy` drops the packing tag, as every constructed dictionary does. -/
def copy (d : BatchedDataDict ρ) : BatchedDataDict ρ := ofData d.data

def sliceEntry (idx : List ℕ) (entry : String × Value ρ) : Except BatchError (String × Value ρ) :=
  (entry.2.slice idx).map fun v => (entry.1,v)

/-- `select` with a list of indices; `select_indices` is the same after normalising the list. -/
def select (d : BatchedDataDict ρ) (idx : List ℕ) : Except BatchError (BatchedDataDict ρ) :=
  (d.data.mapM (sliceEntry idx)).map ofData

def sliceRangeEntry (start stop : ℕ) (entry : String × Value ρ) :
    Except BatchError (String × Value ρ) :=
  (entry.2.sliceRange start stop).map fun v => (entry.1,v)

/-- `get_batch`: a contiguous chunk through `select`. -/
def getBatch (d : BatchedDataDict ρ) (batchIdx batchSize : ℕ) :
    Except BatchError (BatchedDataDict ρ) :=
  let start := batchIdx * batchSize
  (d.data.mapM (sliceRangeEntry start (start + batchSize))).map ofData

/-- What `torch.cat` accepts after a tensor. -/
def tensorRows : Value ρ → Except BatchError (List ρ)
  | .tensor rows => .ok rows
  | _ => .error .typeError

/-- What `np.concatenate` accepts after an array and `extend` on a list. -/
def anyRows (v : Value ρ) : Except BatchError (List ρ) :=
  match v.rows? with
  | some rows => .ok rows
  | none => .error .typeError

/-- What `PackedTensor.concat` accepts after a packed tensor. -/
def packedRows (dimToPack : ℤ) : Value ρ → Except BatchError (List ρ)
  | .packed tensors dim =>
    if dim = dimToPack then .ok tensors
    else .error (.assertionError "All packed tensors must have the same dim_to_pack")
  | _ => .error .typeError

def scalarItem : Value ρ → Except BatchError ρ
  | .scalar value => .ok value
  | _ => .error .typeError

/-- `_concat_values`: the first value decides how. -/
def concatValues : List (Value ρ) → Except BatchError (Value ρ)
  | [] => .error (.valueError "Cannot concat empty list.")
  | .tensor rows :: vs => (vs.mapM tensorRows).map fun rest => .tensor (rows ++ rest.flatten)
  | .array rows :: vs => (vs.mapM anyRows).map fun rest => .array (rows ++ rest.flatten)
  | .packed tensors dim :: vs =>
    (vs.mapM (packedRows dim)).bind fun rest => Value.packedTensor (tensors ++ rest.flatten) dim
  | .list items :: vs => (vs.mapM anyRows).map fun rest => .list (items ++ rest.flatten)
  | .zeroDim _ :: _ => .error (.runtimeError "zero-dimensional values cannot be concatenated")
  | .scalar x :: vs => (vs.mapM scalarItem).map fun rest => .list (x :: rest)

def sameKeys (d e : BatchedDataDict ρ) : Bool :=
  d.data.all (fun entry => (e.get? entry.1).isSome) &&
    e.data.all (fun entry => (d.get? entry.1).isSome)

def concatEntry (dicts : List (BatchedDataDict ρ)) (key : String) :
    Except BatchError (String × Value ρ) :=
  (dicts.mapM (getItem · key)).bind fun values =>
    (concatValues values).map fun v => (key,v)

/-- `concat`: the key sets must agree. Sets of keys are left out of the message. -/
def concat : List (BatchedDataDict ρ) → Except BatchError (BatchedDataDict ρ)
  | [] => .ok empty
  | [d] => .ok d.copy
  | first :: rest =>
    match rest.findIdx? (fun d => !first.sameKeys d) with
    | some i => .error (.valueError s!"Key mismatch at index {i + 1}")
    | none => ((first.data.map Prod.fst).mapM (concatEntry (first :: rest))).map ofData

def reorderEntry (reorderIndices : List ℕ) (entry : String × Value ρ) :
    Except BatchError (String × Value ρ) :=
  if entry.2.batchDim.isNone then .ok entry
  else (entry.2.slice reorderIndices).map fun v => (entry.1,v)

def reorderData (d : BatchedDataDict ρ) (reorderIndices : List ℕ) :
    Except BatchError (BatchedDataDict ρ) :=
  (d.data.mapM (reorderEntry reorderIndices)).map fun data =>
    ⟨data,inferBatchSize data,d.packingArgs⟩

/-- The size `shard_by_batch_size` reads off a value. -/
def shardDim (v : Value ρ) : Except BatchError ℕ :=
  match v with
  | .zeroDim _ => .error .indexError
  | .scalar _ => .error .typeError
  | v => .ok (v.batchDim.getD 0)

/-- The row ranges of one shard, one per chunk, empty ones left out. -/
def shardRanges (total chunkSize shardSize numChunks : ℕ) (allowUnevenShards : Bool)
    (shardIdx : ℕ) : List (ℕ × ℕ) :=
  (List.range numChunks).filterMap fun chunkIdx =>
    let chunkStart := chunkIdx * chunkSize
    let shardStart := chunkStart + shardIdx * shardSize
    let shardEnd := chunkStart + (shardIdx + 1) * shardSize
    let shardStart := if allowUnevenShards then min shardStart total else shardStart
    let shardEnd := if allowUnevenShards then min shardEnd total else shardEnd
    if shardStart < shardEnd then some (shardStart,shardEnd) else none

def rowsIn (ranges : List (ℕ × ℕ)) (rows : List ρ) : List ρ :=
  ranges.flatMap fun r => (rows.drop r.1).take (r.2 - r.1)

/-- The part of a value that goes to a shard; an empty packed part becomes a list. -/
def shardValue (ranges : List (ℕ × ℕ)) (v : Value ρ) : Except BatchError (Value ρ) :=
  match v with
  | .tensor rows => .ok (.tensor (rowsIn ranges rows))
  | .array rows => .ok (.array (rowsIn ranges rows))
  | .packed tensors dim =>
    if ranges.isEmpty then .ok (.list []) else Value.packedTensor (rowsIn ranges tensors) dim
  | .list items => .ok (.list (rowsIn ranges items))
  | .zeroDim _ => .error .indexError
  | .scalar _ => .error .typeError

/-- Fill one shard through `__setitem__`. -/
def fillShard (ranges : List (ℕ × ℕ)) (data : List (String × Value ρ)) :
    Except BatchError (BatchedDataDict ρ) :=
  data.foldlM (fun shard entry =>
    (shardValue ranges entry.2).bind fun v => shard.setItem entry.1 v) empty

/-- `shard_by_batch_size` without packing: every chunk is cut into `shards` parts,
which are aggregated by position. -/
def shardByBatchSize (d : BatchedDataDict ρ) (shards : ℕ) (batchSize : Option ℕ)
    (allowUnevenShards : Bool) : Except BatchError (List (BatchedDataDict ρ)) :=
  if allowUnevenShards && batchSize.isSome then
    .error (.assertionError "batch_size must be None if allow_uneven_shards is True")
  else
    ((d.data.map Prod.snd).mapM shardDim).bind fun sizes =>
      match sizes.dedup with
      | [total] =>
        let chunkSize := batchSize.getD total
        if chunkSize = 0 then .error .zeroDivisionError
        else if total % chunkSize ≠ 0 then
          .error (.assertionError
            s!"Total batch size ({total}) is not a multiple of batch_size ({chunkSize})")
        else if shards = 0 then .error .zeroDivisionError
        else if !allowUnevenShards && chunkSize % shards ≠ 0 then
          .error (.assertionError
            s!"Batch size ({chunkSize}) is not a multiple of shards ({shards})")
        else
          let numChunks := total / chunkSize
          let shardSize := if allowUnevenShards then (chunkSize + shards - 1) / shards
            else chunkSize / shards
          (List.range shards).mapM fun shardIdx =>
            fillShard (shardRanges total chunkSize shardSize numChunks allowUnevenShards shardIdx)
              d.data
      | _ => .error (.assertionError "Batch sizes are not the same across the batch")

section Packing

variable {σ : Type*} (asLength : ρ → ℕ) (rng : Generator)

/-- `_packable_lengths`; `asLength` is `int` on a row of the lengths field. -/
def packableLengths (d : BatchedDataDict ρ) (lengthsKey : String) : Except BatchError (List ℕ) :=
  (d.getItem lengthsKey).bind fun v =>
    match v with
    | .tensor rows => .ok (rows.map asLength)
    | .array rows => .ok (rows.map asLength)
    | .list items => .ok (items.map asLength)
    | _ => .error .typeError

/-- `sorted(range(n), key=lambda i: lengths[i])`. -/
def sortOrder (lengths : List ℕ) : List ℕ :=
  (List.range lengths.length).insertionSort fun i j => lengthAt lengths i ≤ lengthAt lengths j

/-- `_shard_by_batch_size_packed`: sort by length, shard, and return the inverse permutation. -/
def shardByBatchSizePacked (d : BatchedDataDict ρ) (shards : ℕ) (args : SequencePackingArgs) :
    Except BatchError (List (BatchedDataDict ρ) × List ℕ) :=
  (d.packableLengths asLength args.inputLengthsKey).bind fun lengths =>
    (d.select (sortOrder lengths)).bind fun reordered =>
      (reordered.shardByBatchSize shards none false).map fun shardList =>
        (shardList.map fun shard => { shard with packingArgs := some args },
          inverse (sortOrder lengths))

/-- The shards of `shard_by_batch_size`; packing comes first and reads no batch size. -/
def shards (d : BatchedDataDict ρ) (count : ℕ) (batchSize : Option ℕ)
    (sequencePackingArgs : Option SequencePackingArgs) :
    Except BatchError (List (BatchedDataDict ρ)) :=
  match sequencePackingArgs with
  | some args => (d.shardByBatchSizePacked asLength count args).map Prod.fst
  | none => d.shardByBatchSize count batchSize false

/-- Heaviest pack first, ties by first index. -/
def packKeyLe (lengths : List ℕ) (p q : Pack) : Prop :=
  let weight := BinPacking.load (lengthAt lengths)
  weight q < weight p ∨ (weight p = weight q ∧ p.headD 0 ≤ q.headD 0)

instance (lengths : List ℕ) (p q : Pack) : Decidable (packKeyLe lengths p q) :=
  inferInstanceAs (Decidable (_ ∨ _))

/-- `_compute_packs`; packs are never empty, so `pack[0]` exists. -/
def computePacks (d : BatchedDataDict ρ) : Except BatchError PackList :=
  match d.packingArgs with
  | none => .error (.runtimeError ("Packable-sequence iteration requires a batch produced by " ++
      "shard_by_batch_size(sequence_packing_args=...)."))
  | some args =>
    (d.packableLengths asLength args.inputLengthsKey).bind fun lengths =>
      match packSequences rng lengths args.maxTokensPerMicrobatch
          (args.algorithm.getD "first_fit_decreasing") (some 0) with
      | .error e => .error (.packing e)
      | .ok packs => .ok (packs.insertionSort (packKeyLe lengths))

def getPackableSequenceOrder (d : BatchedDataDict ρ) : Except BatchError (List ℕ) :=
  (d.computePacks asLength rng).map List.flatten

/-- The micro-batches of `make_microbatch_iterator_for_packable_sequences`. -/
def packedMicrobatches (d : BatchedDataDict ρ) : Except BatchError (List (BatchedDataDict ρ)) :=
  (d.computePacks asLength rng).bind fun packs => packs.mapM d.select

/-- `_restore_packed_row_order` of the worker; `blank` is what `empty_like` contains. -/
def restorePackedRowOrder (blank outputs : List σ) (d : BatchedDataDict ρ) :
    Except BatchError (List σ) :=
  (d.getPackableSequenceOrder asLength rng).bind fun order =>
    if order.length ≠ outputs.length then
      .error (.runtimeError (s!"packed micro-batch outputs do not cover the shard exactly: " ++
        s!"{outputs.length} rows for {order.length} packed indices"))
    else .ok (scatter blank order outputs)

/-- Row `i`: its value under every key. -/
def row (d : BatchedDataDict ρ) (i : ℕ) : String → Option ρ := fun key =>
  ((d.get? key).bind Value.rows?).bind (·[i]?)

def rowList (d : BatchedDataDict ρ) : List (String → Option ρ) := (List.range d.size).map d.row

/-- Per-row results of a shard: one micro-batch after the other, put back in row order. -/
def shardResults (f : (String → Option ρ) → σ) (emptyLike : List σ → List σ)
    (d : BatchedDataDict ρ) : Except BatchError (List σ) :=
  (d.packedMicrobatches asLength rng).bind fun microbatches =>
    let outputs := microbatches.flatMap fun microbatch => microbatch.rowList.map f
    d.restorePackedRowOrder asLength rng (emptyLike outputs) outputs

def gatherResults (key : String) (results : List (List σ)) (unsortedDataIndices : List ℕ) :
    Except BatchError (BatchedDataDict σ) :=
  (concat (results.map fun rows => ofData [(key,.tensor rows)])).bind
    (·.reorderData unsortedDataIndices)

end Packing

end BatchedDataDict
end Distributed
end DockyardRL
