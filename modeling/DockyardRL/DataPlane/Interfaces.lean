import DockyardRL.Lib.Dict
import Mathlib.Data.Finset.Basic
import Mathlib.Data.Finset.Card

/-! Metadata of a batch in the data plane: which samples it consists of and what is known of each
without reading its tensors.

The in-memory data plane: one partition with its rows, its tags and, for every registered consumer
task, the ids already handed out. -/
namespace DockyardRL
namespace DataPlane

/-- `KVBatchMeta`; `aligned` is what `__post_init__` checks. -/
structure KVBatchMeta (ν τ : Type*) where
  partitionId : String
  taskName : Option String
  sampleIds : List String
  fields : Option (List String)
  sequenceLengths : Option (List ℕ)
  extraInfo : Option (List (String × ν))
  tags : Option (List τ)
  aligned : ∀ ts, tags = some ts → ts.length = sampleIds.length

namespace KVBatchMeta

variable {ν τ : Type*}

def size (m : KVBatchMeta ν τ) : ℕ := m.sampleIds.length

def untagged (partitionId : String) (taskName : Option String) (sampleIds : List String)
    (fields : Option (List String)) (sequenceLengths : Option (List ℕ))
    (extraInfo : Option (List (String × ν))) : KVBatchMeta ν τ :=
  ⟨partitionId,taskName,sampleIds,fields,sequenceLengths,extraInfo,none,nofun⟩

def misaligned (tags ids : ℕ) : String :=
  s!"KVBatchMeta: tags ({tags}) must align 1:1 with sample_ids ({ids})"

/-- The constructor of metadata with tags, which `__post_init__` may refuse. -/
def construct (partitionId : String) (taskName : Option String) (sampleIds : List String)
    (fields : Option (List String)) (tags : Option (List τ)) : Except String (KVBatchMeta ν τ) :=
  match tags with
  | none => .ok (.untagged partitionId taskName sampleIds fields none none)
  | some ts =>
    if h : ts.length = sampleIds.length then
      .ok ⟨partitionId,taskName,sampleIds,fields,none,none,some ts,fun _ heq =>
        Option.some.inj heq ▸ h⟩
    else .error (misaligned ts.length sampleIds.length)

end KVBatchMeta

/-- The batch of a `put_samples`: columns of one length, and the names of its leaves that are
no tensors. -/
structure TensorDict (ν : Type*) where
  columns : Dict String (List ν)
  nonTensorLeaves : List String
  batchSize : ℕ
  aligned : ∀ entry ∈ columns.entries, entry.2.length = batchSize

inductive NoOpError
  | keyError (message : String)
  | typeError (message : String)
  | valueError (message : String)
  | indexError
  | runtimeError
  deriving DecidableEq

abbrev Row (ν : Type*) := Dict String ν
abbrev Tag (κ : Type*) := Dict String κ

structure Partition (ν κ : Type*) where
  rows : Dict String (Row ν)
  tags : Dict String (Tag κ)
  consumed : Dict String (Finset String)

variable {ν κ : Type*}

/-- `consumed={t: set() for t in consumer_tasks}`. -/
def consumedInit (consumerTasks : List String) : Dict String (Finset String) :=
  consumerTasks.foldl (fun acc t => acc.set t ∅) .empty

def registerPartition (consumerTasks : List String) : Partition ν κ :=
  ⟨.empty,.empty,consumedInit consumerTasks⟩

/-- `repr` of a name. -/
def quoted (name : String) : String := "'" ++ name ++ "'"

def rejectedLeaves (bad : List String) : String :=
  "put_samples received non-tensor leaves: [" ++ String.intercalate ", " (bad.map quoted) ++ "]. " ++
    "Tensorize via codec helpers, use `tags=` for primitives, " ++
    "or use the Ray object store for arbitrary Python objects."

def unregisteredTask (taskName partitionId : String) : String :=
  "task " ++ quoted taskName ++ " not registered as a consumer of partition " ++ quoted partitionId

def notProduced (field sampleId partitionId : String) : String :=
  "field " ++ quoted field ++ " not yet produced for sample_id " ++ quoted sampleId ++
    " in partition " ++ quoted partitionId

/-- The fields of row `i` written into `row`; nothing when a column is too short. -/
def writeRow (fields : TensorDict ν) (i : ℕ) (row : Row ν) : Option (Row ν) :=
  fields.columns.entries.foldlM (fun acc entry => entry.2[i]?.map (acc.set entry.1)) row

/-- The rows from number `i` on. An id without a row keeps the empty row `setdefault` gave it,
and the ids behind it are not reached. -/
def writeRows (fields : TensorDict ν) :
    List String → ℕ → Dict String (Row ν) → Dict String (Row ν) × Except NoOpError Unit
  | [], _, rows => (rows,.ok ())
  | sid :: rest, i, rows =>
    let row := (rows.get? sid).getD .empty
    match writeRow fields i row with
    | some row' => writeRows fields rest (i + 1) (rows.set sid row')
    | none => (rows.set sid row,.error .indexError)

/-- `rec.tags.setdefault(sid, {}).update(tag)` along the zip. -/
def writeTags (sampleIds : List String) (tags : List (Tag κ)) (held : Dict String (Tag κ)) :
    Dict String (Tag κ) :=
  (sampleIds.zip tags).foldl (fun acc entry =>
    acc.set entry.1 (((acc.get? entry.1).getD .empty).update entry.2)) held

section Methods

variable (partitionId : String)

def finishPut (rec : Partition ν κ) (sampleIds : List String) (fields : Option (TensorDict ν))
    (tags : Option (List (Tag κ))) :
    Partition ν κ × Except NoOpError (KVBatchMeta Empty (Tag κ)) :=
  let rec' := match tags with
    | some ts => { rec with tags := writeTags sampleIds ts rec.tags }
    | none => rec
  (rec',(KVBatchMeta.construct partitionId none sampleIds (fields.map fun td => td.columns.keys)
    tags).mapError .valueError)

def putSamples (rec : Partition ν κ) (sampleIds : List String) (fields : Option (TensorDict ν))
    (tags : Option (List (Tag κ))) :
    Partition ν κ × Except NoOpError (KVBatchMeta Empty (Tag κ)) :=
  match fields with
  | none => finishPut partitionId rec sampleIds none tags
  | some td =>
    if td.nonTensorLeaves ≠ [] then (rec,.error (.typeError (rejectedLeaves td.nonTensorLeaves)))
    else
      match writeRows td sampleIds 0 rec.rows with
      | (rows,.ok ()) => finishPut partitionId { rec with rows := rows } sampleIds (some td) tags
      | (rows,.error e) => ({ rec with rows := rows },.error e)

/-- The ready samples with their lengths, up to the batch size. A tag that holds no length
counts as zero, one that `int` refuses ends the scan; `asLength` is `int`. -/
def readySamples (asLength : κ → Option ℕ) (rec : Partition ν κ) (done : Finset String)
    (requiredFields : List String) (batchSize : ℤ) :
    List (String × Row ν) → List (String × ℕ) → Except NoOpError (List (String × ℕ))
  | [], ready => .ok ready
  | (key,row) :: rest, ready =>
    if key ∈ done then readySamples asLength rec done requiredFields batchSize rest ready
    else if !requiredFields.all (fun f => (row.get? f).isSome) then
      readySamples asLength rec done requiredFields batchSize rest ready
    else
      let length := match (rec.tags.get? key).bind (·.get? "input_lengths") with
        | none => some 0
        | some value => asLength value
      match length with
      | none => .error (.valueError "input_lengths")
      | some n =>
        let ready' := ready ++ [(key,n)]
        if batchSize ≤ ready'.length then .ok ready'
        else readySamples asLength rec done requiredFields batchSize rest ready'

def claimMeta (asLength : κ → Option ℕ) (rec : Partition ν κ) (taskName : String)
    (requiredFields : List String) (batchSize : ℤ) :
    Partition ν κ × Except NoOpError (KVBatchMeta Empty (Tag κ)) :=
  match rec.consumed.get? taskName with
  | none => (rec,.error (.keyError (unregisteredTask taskName partitionId)))
  | some done =>
    match readySamples asLength rec done requiredFields batchSize rec.rows.entries [] with
    | .error e => (rec,.error e)
    | .ok ready =>
      let ids := ready.map Prod.fst
      let seqs := ready.map Prod.snd
      ({ rec with consumed := rec.consumed.set taskName (done ∪ ids.toFinset) },
        .ok (.untagged partitionId (some taskName) ids (some requiredFields)
          (if seqs.any (· ≠ 0) then some seqs else none) none))

def consumedAll (rec : Partition ν κ) (t : String) : Bool :=
  match rec.consumed.get? t with
  | none => false
  | some done => !decide (done.card < rec.rows.size)

def checkConsumptionStatus (rec : Partition ν κ) (taskNames : List String) : Bool :=
  taskNames.all (consumedAll rec)

def readField (sid : String) (row : Row ν) (f : String) : Except NoOpError (String × ν) :=
  match row.get? f with
  | none => .error (.keyError (notProduced f sid partitionId))
  | some value => .ok (f,value)

def readRow (rec : Partition ν κ) (selectFields : List String) (sid : String) :
    Except NoOpError (List (String × ν)) :=
  match rec.rows.get? sid with
  | none => .error (.keyError sid)
  | some row => selectFields.mapM (readField partitionId sid row)

/-- `get_samples`: every field as the list of its rows. `stackable` says which rows
`stack_or_nest` can put together; a field that is named twice has too many of them. -/
def getSamples (stackable : List ν → Bool) (rec : Partition ν κ) (sampleIds selectFields : List String) :
    Except NoOpError (List (String × List ν)) :=
  if sampleIds = [] then .ok []
  else
    match sampleIds.mapM (readRow partitionId rec selectFields) with
    | .error e => .error e
    | .ok matrix =>
      let out := selectFields.map fun f => (f,matrix.filterMap (·.lookup f))
      if selectFields.Nodup ∧ out.all (fun column => stackable column.2) then .ok out
      else .error .runtimeError

def clearSample (rec : Partition ν κ) (sid : String) : Partition ν κ :=
  ⟨rec.rows.erase sid,rec.tags.erase sid,rec.consumed.mapValues (·.erase sid)⟩

/-- `clear_samples`; without ids the partition itself goes. -/
def clearSamples (rec : Partition ν κ) (sampleIds : Option (List String)) :
    Option (Partition ν κ) :=
  sampleIds.map fun ids => ids.foldl clearSample rec

end Methods

end DataPlane
end DockyardRL
