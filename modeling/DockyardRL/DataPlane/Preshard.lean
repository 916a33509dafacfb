import DockyardRL.DataPlane.Interfaces
import DockyardRL.Distributed.PackedSharding

/-! `shard_meta_for_dp`: the ids of a batch are dealt out to the data-parallel ranks by
sharding a skeleton batch that carries their positions. -/
namespace DockyardRL
namespace DataPlane

open Gather Stripes Fallible Distributed

inductive PreshardError
  | valueError (message : String)
  | notImplementedError (message : String)
  | sharding (e : BatchError)
  deriving DecidableEq

/-- `repr` of an optional list of lengths. -/
def reprLengths : Option (List ℕ) → String
  | none => "None"
  | some lengths => "[" ++ String.intercalate ", " (lengths.map toString) ++ "]"

def emptyMeta : String := "shard_meta_for_dp: empty meta — nothing to shard"

def missingLengths (n : ℕ) (sequenceLengths : Option (List ℕ)) : String :=
  s!"shard_meta_for_dp requires meta.sequence_lengths populated and of length {n} " ++
    s!"(got {reprLengths sequenceLengths}). The rollout actor's fan-out should populate this " ++
    "from input_lengths."

def exclusiveArgs : String :=
  "Pass at most one of sequence_packing_args / dynamic_batching_args."

def unportedDynamicBatching : String :=
  "shard_by_batch_size() does not support dynamic_batching_args in this build. Dynamic " ++
    "microbatching is unported; set policy.dynamic_batching.enabled=false (the shipped default)."

def skeleton (seqLens : List ℕ) : BatchedDataDict ℕ :=
  .ofData [("input_ids",.tensor (List.replicate seqLens.length 0)),
    ("input_lengths",.tensor seqLens),
    ("sample_mask",.tensor (List.replicate seqLens.length 1)),
    ("meta_idx",.tensor (List.range seqLens.length))]

/-- `skeleton.shard_by_batch_size`; the packed path returns its own inverse, which is not used. -/
def shardSkeleton (seqLens : List ℕ) (dpWorld : ℕ) (batchSize : Option ℕ)
    (sequencePackingArgs : Option SequencePackingArgs) :
    Except BatchError (List (BatchedDataDict ℕ)) :=
  (skeleton seqLens).shards id dpWorld batchSize sequencePackingArgs

/-- `shard["meta_idx"].tolist()`. -/
def metaIdx (shard : BatchedDataDict ℕ) : Except BatchError (List ℕ) :=
  (shard.getItem "meta_idx").bind BatchedDataDict.tensorRows

variable {ν τ : Type*}

/-- The metadata of one rank. The shards carry no micro-batch attributes, so the extra
information is a copy. -/
def rankMeta (m : KVBatchMeta ν τ) (seqLens idxList : List ℕ) :
    Except BatchError (KVBatchMeta ν τ) :=
  (Value.takeRows m.sampleIds idxList).bind fun rankSampleIds =>
    (Value.takeRows seqLens idxList).map fun rankSeqlens =>
      .untagged m.partitionId m.taskName rankSampleIds m.fields (some rankSeqlens)
        (some (m.extraInfo.getD []))

/-- `unsorted[old_idx] = new_pos`, or nothing when the order is kept. -/
def unsortedIndices (n : ℕ) (flatIdx : List ℕ) : Option (List ℕ) :=
  if flatIdx ≠ List.range n then
    some (scatter (List.replicate n 0) flatIdx (List.range flatIdx.length))
  else none

def splitMeta (m : KVBatchMeta ν τ) (seqLens : List ℕ) (sharded : List (BatchedDataDict ℕ)) :
    Except BatchError (List (KVBatchMeta ν τ) × Option (List ℕ)) :=
  (sharded.mapM metaIdx).bind fun idxLists =>
    (idxLists.mapM (rankMeta m seqLens)).map fun out =>
      (out,unsortedIndices m.size idxLists.flatten)

def shardMetaForDp (m : KVBatchMeta ν τ) (dpWorld : ℕ) (batchSize : Option ℕ)
    (sequencePackingArgs : Option SequencePackingArgs) (dynamicBatching : Bool) :
    Except PreshardError (List (KVBatchMeta ν τ) × Option (List ℕ)) :=
  if m.size = 0 then .error (.valueError emptyMeta)
  else
    match m.sequenceLengths with
    | none => .error (.valueError (missingLengths m.size none))
    | some seqLens =>
      if seqLens.length ≠ m.size then
        .error (.valueError (missingLengths m.size (some seqLens)))
      else if sequencePackingArgs.isSome && dynamicBatching then .error (.valueError exclusiveArgs)
      else if dynamicBatching then .error (.notImplementedError unportedDynamicBatching)
      else
        ((shardSkeleton seqLens dpWorld batchSize sequencePackingArgs).bind
          (splitMeta m seqLens)).mapError .sharding

def reindex {σ : Type*} (unsorted : Option (List ℕ)) (aggregate : List σ) : List σ :=
  match unsorted with
  | some idx => gather aggregate idx
  | none => aggregate

/-- `rank` holds the samples of `m` at the positions in `part`, each with its own length
and tag. -/
structure HoldsPart (m rank : KVBatchMeta ν τ) (part : List ℕ) : Prop where
  sampleIds : rank.sampleIds = gather m.sampleIds part
  sequenceLengths : rank.sequenceLengths = m.sequenceLengths.map (gather · part)
  tags : rank.tags = m.tags.map (gather · part)

/-- A split of the samples over the ranks that can be undone. -/
structure Splits (m : KVBatchMeta ν τ) (dpWorld : ℕ) (ranks : List (KVBatchMeta ν τ))
    (unsorted : Option (List ℕ)) : Prop where
  disjoint : m.sampleIds.Nodup → ranks.Pairwise fun r s => r.sampleIds.Disjoint s.sampleIds
  covered : (ranks.flatMap KVBatchMeta.sampleIds).Perm m.sampleIds
  equalSizes : ranks.length = dpWorld ∧ ∀ r ∈ ranks, r.size = m.size / dpWorld
  restored : ∃ parts, List.Forall₂ (HoldsPart m) ranks parts ∧
    parts.flatten.Perm (List.range m.size) ∧
    ∀ (σ : Type) (results : List σ), results.length = m.size →
      reindex unsorted (parts.flatMap (gather results)) = results

theorem skeleton_uniform (seqLens : List ℕ) : (skeleton seqLens).Uniform seqLens.length := by
  refine ⟨by simp [skeleton,BatchedDataDict.ofData],by simp [skeleton,BatchedDataDict.ofData],?_,?_⟩
  · intro entry hentry
    rw [Value.hasRows_iff]
    simp only [skeleton,BatchedDataDict.ofData,List.mem_cons,List.not_mem_nil,or_false] at hentry
    rcases hentry with rfl | rfl | rfl | rfl <;> simp [Value.batchDim,Value.rows?]
  · simp [skeleton,BatchedDataDict.ofData,BatchedDataDict.inferBatchSize,Value.batchDim,Value.rows?]

theorem metaIdx_tagged (args : Option SequencePackingArgs) {d : BatchedDataDict ℕ} {rows : List ℕ}
    (h : d.get? "meta_idx" = some (.tensor rows)) (part : List ℕ) :
    metaIdx (BatchedDataDict.tagged args d part) = .ok (gather rows part) := by
  rw [BatchedDataDict.get?] at h
  simp [metaIdx,BatchedDataDict.getItem,BatchedDataDict.get?,BatchedDataDict.tagged,
    BatchedDataDict.gathered,BatchedDataDict.lookup_mapRows,h,Value.mapRows,Except.bind,
    BatchedDataDict.tensorRows]

theorem skeleton_metaIdx (seqLens : List ℕ) :
    (skeleton seqLens).get? "meta_idx" = some (.tensor (List.range seqLens.length)) := by
  rfl

theorem shardSkeleton_plain {seqLens : List ℕ} {dpWorld : ℕ} {batchSize : Option ℕ}
    (hn : 0 < seqLens.length) (hdp : dpWorld ∣ batchSize.getD seqLens.length)
    (hbatch : batchSize.getD seqLens.length ∣ seqLens.length) :
    ∃ sharded parts, shardSkeleton seqLens dpWorld batchSize none = .ok sharded ∧
      sharded.mapM metaIdx = .ok parts ∧ parts.length = dpWorld ∧
      parts.flatten.Perm (List.range seqLens.length) ∧
      ∀ p ∈ parts, p.length = seqLens.length / dpWorld := by
  obtain ⟨size,hsize⟩ := hdp
  obtain ⟨chunks,hchunks⟩ := hbatch
  have htotal : chunks * batchSize.getD seqLens.length = seqLens.length := by
    rw [Nat.mul_comm,← hchunks]
  have hshards := (skeleton_uniform seqLens).shardByBatchSize_stripes batchSize hn hsize.symm htotal
  have hpos : 0 < dpWorld := by
    refine Nat.pos_of_ne_zero fun hzero => hn.ne ?_
    rw [← htotal,hsize,hzero,Nat.zero_mul,Nat.mul_zero]
  refine ⟨_,(List.range dpWorld).map (stripe (batchSize.getD seqLens.length) size chunks),hshards,
    ?_,by simp,?_,?_⟩
  · rw [mapM_eq_ok,List.forall₂_map_left_iff,List.forall₂_map_right_iff,List.forall₂_same]
    intro i hi
    have hwithin := within_stripe chunks hsize.symm (List.mem_range.mp hi)
    rw [htotal] at hwithin
    exact (metaIdx_tagged none (skeleton_metaIdx seqLens) _).trans
      (congrArg _ (gather_positions hwithin))
  · have hperm := stripes_perm chunks hsize.symm
    rwa [htotal] at hperm
  · intro p hp
    obtain ⟨i,-,rfl⟩ := List.mem_map.mp hp
    rw [length_stripe]
    refine (Nat.div_eq_of_eq_mul_right hpos ?_).symm
    calc seqLens.length = chunks * (dpWorld * size) := by rw [← hsize,htotal]
      _ = dpWorld * (chunks * size) := Nat.mul_left_comm _ _ _

def skeletonColumns : List String := ["input_ids","input_lengths","sample_mask","meta_idx"]

theorem packableLengths_skeleton {seqLens : List ℕ} {key : String} :
    (∃ lengths, (skeleton seqLens).packableLengths id key = .ok lengths) ↔
      key ∈ skeletonColumns := by
  have hkeys : ((skeleton seqLens).get? key).isSome ↔ key ∈ skeletonColumns := by
    rw [BatchedDataDict.get?,List.lookup_isSome_iff]
    simp [skeleton,BatchedDataDict.ofData,skeletonColumns]
  constructor
  · rintro ⟨lengths,hlengths⟩
    refine hkeys.mp ?_
    by_contra hnone
    simp [BatchedDataDict.packableLengths,BatchedDataDict.getItem,Option.not_isSome_iff_eq_none.mp hnone,
      Except.bind] at hlengths
  · intro hmem
    simp only [skeletonColumns,List.mem_cons,List.not_mem_nil,or_false] at hmem
    rcases hmem with rfl | rfl | rfl | rfl <;> exact ⟨_,rfl⟩

theorem shardSkeleton_packed {seqLens : List ℕ} {dpWorld : ℕ} (batchSize : Option ℕ)
    {args : SequencePackingArgs} (hn : 0 < seqLens.length) (hdp : dpWorld ∣ seqLens.length)
    (hkey : args.inputLengthsKey ∈ skeletonColumns) :
    ∃ sharded parts, shardSkeleton seqLens dpWorld batchSize (some args) = .ok sharded ∧
      sharded.mapM metaIdx = .ok parts ∧ parts.length = dpWorld ∧
      parts.flatten.Perm (List.range seqLens.length) ∧
      ∀ p ∈ parts, p.length = seqLens.length / dpWorld := by
  have huniform := skeleton_uniform seqLens
  obtain ⟨lengths,hlengths⟩ := packableLengths_skeleton.mpr hkey
  have hlen := BatchedDataDict.packableLengths_length id huniform hlengths
  have hperm := hlen ▸ BatchedDataDict.sortOrder_perm lengths
  have hshards := huniform.shardByBatchSizePacked_ok id hn hdp hlengths
  have hblocks := BatchedDataDict.flatten_shards hdp
  have hsize : (BatchedDataDict.sortOrder lengths).length = seqLens.length := by
    rw [hperm.length_eq,List.length_range]
  have hwithin : ∀ i ∈ List.range dpWorld,
      Within (List.range' (i * (seqLens.length / dpWorld)) (seqLens.length / dpWorld))
        (BatchedDataDict.sortOrder lengths).length := by
    intro i hi j hj
    have hmem : j ∈ List.range seqLens.length :=
      hblocks ▸ List.mem_flatten.mpr ⟨_,List.mem_map.mpr ⟨i,hi,rfl⟩,hj⟩
    exact hsize ▸ List.mem_range.mp hmem
  refine ⟨_,(List.range dpWorld).map fun i => gather (BatchedDataDict.sortOrder lengths)
    (List.range' (i * (seqLens.length / dpWorld)) (seqLens.length / dpWorld)),
    map_eq_ok.mpr ⟨_,hshards,rfl⟩,?_,by simp,?_,?_⟩
  · rw [List.map_map,mapM_eq_ok,List.forall₂_map_left_iff,List.forall₂_map_right_iff,
      List.forall₂_same]
    intro i _
    have hpositions : ((skeleton seqLens).gathered (BatchedDataDict.sortOrder lengths)).get?
        "meta_idx" = some (.tensor (BatchedDataDict.sortOrder lengths)) := by
      have hread := skeleton_metaIdx seqLens
      rw [BatchedDataDict.get?] at hread
      rw [BatchedDataDict.get?,BatchedDataDict.gathered,BatchedDataDict.lookup_mapRows,hread,
        Option.map_some,Value.mapRows,gather_positions (within_perm hperm)]
    exact metaIdx_tagged (some args) hpositions _
  · have hjoin := congrArg (gather (BatchedDataDict.sortOrder lengths)) hblocks
    rw [gather_flatten,List.map_map,← hsize,gather_range,hsize] at hjoin
    exact (List.Perm.of_eq hjoin).trans hperm
  · intro p hp
    obtain ⟨i,hi,rfl⟩ := List.mem_map.mp hp
    rw [length_gather (hwithin i hi),List.length_range']

theorem splitMeta_ok {m : KVBatchMeta ν τ} {seqLens : List ℕ} (hlens : seqLens.length = m.size)
    {sharded : List (BatchedDataDict ℕ)} {parts : List (List ℕ)}
    (hparts : sharded.mapM metaIdx = .ok parts) (hwithin : Within parts.flatten m.size) :
    splitMeta m seqLens sharded = .ok (parts.map fun part =>
      .untagged m.partitionId m.taskName (gather m.sampleIds part) m.fields
        (some (gather seqLens part)) (some (m.extraInfo.getD [])),
      unsortedIndices m.size parts.flatten) := by
  have hranks : parts.mapM (rankMeta m seqLens) = .ok (parts.map fun part =>
      .untagged m.partitionId m.taskName (gather m.sampleIds part) m.fields
        (some (gather seqLens part)) (some (m.extraInfo.getD []))) := by
    refine mapM_ok fun part hpart => ?_
    have hpart : Within part m.size := fun i hi => hwithin i (List.mem_flatten_of_mem hpart hi)
    rw [rankMeta,Value.takeRows_ok hpart,Value.takeRows_ok (hlens ▸ hpart)]
    rfl
  rw [splitMeta,hparts]
  simp only [Except.bind,hranks,Except.map]

theorem reindex_unsorted {σ : Type*} {n : ℕ} {flatIdx : List ℕ} (h : flatIdx.Perm (List.range n))
    {results : List σ} (hlen : results.length = n) :
    reindex (unsortedIndices n flatIdx) (gather results flatIdx) = results := by
  have hn : flatIdx.length = n := by rw [h.length_eq,List.length_range]
  by_cases hkept : flatIdx = List.range n
  · rw [unsortedIndices,if_neg (by simpa using hkept),reindex,hkept,← hlen,gather_range]
  · have hinverse : scatter (List.replicate n 0) flatIdx (List.range flatIdx.length) =
        inverse flatIdx := by
      rw [inverse,hn]
    rw [unsortedIndices,if_pos hkept,reindex,hinverse,gather_gather (hlen ▸ within_perm h),
      gather_inverse h,← hlen,gather_range]

theorem splitMeta_splits {m : KVBatchMeta ν τ} {seqLens : List ℕ}
    (hseq : m.sequenceLengths = some seqLens) (htags : m.tags = none) {dpWorld : ℕ}
    {parts : List (List ℕ)} (hcount : parts.length = dpWorld)
    (hperm : parts.flatten.Perm (List.range m.size))
    (hsizes : ∀ p ∈ parts, p.length = m.size / dpWorld) :
    Splits m dpWorld (parts.map fun part =>
      .untagged m.partitionId m.taskName (gather m.sampleIds part) m.fields
        (some (gather seqLens part)) (some (m.extraInfo.getD [])))
      (unsortedIndices m.size parts.flatten) := by
  have hwithin : ∀ p ∈ parts, Within p m.size := fun p hp i hi =>
    within_perm hperm i (List.mem_flatten_of_mem hp hi)
  have hcovered : (parts.map (gather m.sampleIds)).flatten.Perm m.sampleIds := by
    rw [← gather_flatten]
    exact gather_perm hperm
  refine ⟨?_,?_,⟨by simpa using hcount,?_⟩,parts,?_,hperm,?_⟩
  · intro hnodup
    have hpairs := (List.nodup_flatten.mp (hcovered.nodup_iff.mpr hnodup)).2
    rw [List.pairwise_map] at hpairs ⊢
    exact hpairs
  · rw [List.flatMap_map]
    exact hcovered
  · intro r hr
    obtain ⟨p,hp,rfl⟩ := List.mem_map.mp hr
    exact (length_gather (hwithin p hp)).trans (hsizes p hp)
  · rw [List.forall₂_map_left_iff,List.forall₂_same]
    intro p _
    exact ⟨rfl,by rw [hseq]; rfl,by rw [htags]; rfl⟩
  · intro σ results hlen
    rw [List.flatMap_def,← gather_flatten]
    exact reindex_unsorted hperm hlen

theorem splitMeta_tags {m : KVBatchMeta ν τ} {seqLens : List ℕ} {sharded : List (BatchedDataDict ℕ)}
    {ranks : List (KVBatchMeta ν τ)} {unsorted : Option (List ℕ)}
    (h : splitMeta m seqLens sharded = .ok (ranks,unsorted)) : ∀ r ∈ ranks, r.tags = none := by
  obtain ⟨parts,-,h⟩ := bind_eq_ok.mp h
  obtain ⟨out,hout,h⟩ := map_eq_ok.mp h
  obtain ⟨rfl,-⟩ := Prod.mk.inj h
  intro r hr
  obtain ⟨part,-,hpart⟩ := (mem_mapM_iff hout).mp hr
  obtain ⟨ids,-,hpart⟩ := bind_eq_ok.mp hpart
  obtain ⟨lens,-,rfl⟩ := map_eq_ok.mp hpart
  rfl

/-- The split of the samples over the ranks loses exactly the tags. -/
theorem shardMetaForDp_splits_iff (m : KVBatchMeta ν τ) {seqLens : List ℕ}
    (hseq : m.sequenceLengths = some seqLens) (hlens : seqLens.length = m.size) (hn : 0 < m.size)
    {dpWorld : ℕ} (hdp : dpWorld ∣ m.size) (batchSize : Option ℕ)
    (packing : Option SequencePackingArgs)
    (hbatch : packing = none → ∀ b, batchSize = some b → b ∣ m.size ∧ dpWorld ∣ b) :
    (∃ ranks unsorted, shardMetaForDp m dpWorld batchSize packing false = .ok (ranks,unsorted) ∧
      Splits m dpWorld ranks unsorted) ↔
    m.tags = none ∧ ∀ args, packing = some args → args.inputLengthsKey ∈ skeletonColumns := by
  have hrun : shardMetaForDp m dpWorld batchSize packing false =
      ((shardSkeleton seqLens dpWorld batchSize packing).bind
        (splitMeta m seqLens)).mapError .sharding := by
    simp [shardMetaForDp,hn.ne',hseq,hlens]
  have hdp' : dpWorld ∣ seqLens.length := hlens ▸ hdp
  have hn' : 0 < seqLens.length := hlens ▸ hn
  constructor
  · rintro ⟨ranks,unsorted,hok,hsplits⟩
    have hresult : (shardSkeleton seqLens dpWorld batchSize packing).bind (splitMeta m seqLens) =
        .ok (ranks,unsorted) := mapError_eq_ok.mp (hrun.symm.trans hok)
    obtain ⟨sharded,hsharded,hsplit⟩ := bind_eq_ok.mp hresult
    refine ⟨?_,?_⟩
    · have hne : ranks ≠ [] := by
        have hpos := Nat.pos_of_dvd_of_pos hdp hn
        rw [← hsplits.equalSizes.1] at hpos
        exact List.ne_nil_of_length_pos hpos
      obtain ⟨parts,hheld,-⟩ := hsplits.restored
      cases hheld with
      | nil => exact absurd rfl hne
      | cons hrank _ =>
        have hlost := splitMeta_tags hsplit _ List.mem_cons_self
        rw [hrank.tags] at hlost
        exact Option.map_eq_none_iff.mp hlost
    · rintro args rfl
      obtain ⟨r,hpacked,-⟩ := map_eq_ok.mp hsharded
      obtain ⟨lengths,hlengths,-⟩ := bind_eq_ok.mp hpacked
      exact packableLengths_skeleton.mp ⟨lengths,hlengths⟩
  · rintro ⟨htags,hkey⟩
    have hshards : ∃ sharded parts, shardSkeleton seqLens dpWorld batchSize packing = .ok sharded ∧
        sharded.mapM metaIdx = .ok parts ∧ parts.length = dpWorld ∧
        parts.flatten.Perm (List.range seqLens.length) ∧
        ∀ p ∈ parts, p.length = seqLens.length / dpWorld := by
      cases packing with
      | some args => exact shardSkeleton_packed batchSize hn' hdp' (hkey args rfl)
      | none =>
        cases batchSize with
        | none => exact shardSkeleton_plain hn' hdp' dvd_rfl
        | some b =>
          have hb := hbatch rfl b rfl
          exact shardSkeleton_plain hn' hb.2 (hlens ▸ hb.1)
    obtain ⟨sharded,parts,hsharded,hparts,hcount,hperm,hsizes⟩ := hshards
    rw [hlens] at hperm hsizes
    refine ⟨_,_,?_,splitMeta_splits hseq htags hcount hperm hsizes⟩
    rw [hrun,hsharded,Except.bind,splitMeta_ok hlens hparts (within_perm hperm)]
    rfl

def fourSamples : KVBatchMeta ℕ String :=
  .untagged "rollout" (some "train") ["a","b","c","d"] none (some [3,1,2,1]) none

theorem shardMetaForDp_splits_iff_four :
    ∃ ranks unsorted, shardMetaForDp fourSamples 2 (some 2) none false = .ok (ranks,unsorted) ∧
      Splits fourSamples 2 ranks unsorted :=
  (shardMetaForDp_splits_iff fourSamples (show _ = some [3,1,2,1] from rfl) rfl (by decide) (by decide)
    (some 2) none (fun _ b hb => Option.some.inj hb ▸ ⟨by decide,by decide⟩)).mpr ⟨rfl,nofun⟩

def taggedSamples : KVBatchMeta ℕ String :=
  ⟨"rollout",some "train",["a","b"],none,some [3,1],none,some ["reward 1","reward 0"],
    fun _ h => Option.some.inj h ▸ rfl⟩

/-- The rewards do not arrive at the ranks. -/
theorem taggedSamples_tags_lost :
    (∃ ranks unsorted, shardMetaForDp taggedSamples 2 none none false = .ok (ranks,unsorted) ∧
      ranks.map KVBatchMeta.sampleIds = [["a"],["b"]] ∧
      ranks.map KVBatchMeta.tags = [none,none]) ∧
    ¬∃ ranks unsorted, shardMetaForDp taggedSamples 2 none none false = .ok (ranks,unsorted) ∧
      Splits taggedSamples 2 ranks unsorted := by
  have hrun : ∃ ranks unsorted, shardMetaForDp taggedSamples 2 none none false =
      .ok (ranks,unsorted) ∧ ranks.map KVBatchMeta.sampleIds = [["a"],["b"]] ∧
        ranks.map KVBatchMeta.tags = [none,none] := ⟨_,_,rfl,rfl,rfl⟩
  refine ⟨hrun,?_⟩
  rintro ⟨ranks,unsorted,hok,hsplits⟩
  obtain ⟨ranks',unsorted',hok',-,htags⟩ := hrun
  obtain ⟨rfl,-⟩ := Prod.mk.inj (Except.ok.inj (hok'.symm.trans hok))
  obtain ⟨parts,hheld,-⟩ := hsplits.restored
  cases hheld with
  | nil => cases htags
  | cons hrank _ =>
    have hlost := hrank.tags
    rw [List.map_cons,List.cons.injEq] at htags
    rw [htags.1] at hlost
    cases hlost

end DataPlane
end DockyardRL
