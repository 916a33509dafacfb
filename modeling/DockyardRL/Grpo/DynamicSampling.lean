import DockyardRL.Grpo.RolloutAllocation
import Mathlib.Data.List.DropRight
import Mathlib.Data.Rat.Sqrt
import Mathlib.Data.Rat.Floor

/-! Dynamic sampling: generation batches are scored, rows without spread are dropped, and what
is left is accumulated until a step has enough rows to train on. -/
namespace DockyardRL
namespace Grpo

open Gather Variance

/-- `graded_allocation`. -/
structure GradedAllocationConfig (K : Type*) where
  enabled : Bool
  minRolloutsPerPrompt : Option ℤ
  varianceExponent : Option K

/-- `routing_diversity`. -/
structure RoutingDiversityConfig (K : Type*) where
  enabled : Bool
  allocationExponent : Option K

/-- The settings that dynamic sampling reads. -/
structure GrpoConfig (K : Type*) where
  numPromptsPerStep : ℕ
  numGenerationsPerPrompt : ℕ
  useDynamicSampling : Bool
  useLeaveOneOutBaseline : Bool
  dynamicSamplingMaxGenBatches : Option ℤ
  gradedAllocation : Option (GradedAllocationConfig K)
  routingDiversity : Option (RoutingDiversityConfig K)

/-- A rollout; `data` stands for the columns that dynamic sampling only carries along. -/
structure Rollout (P D K : Type*) where
  prompt : P
  data : D
  totalReward : K
  unshapedTotalReward : K
  routingDiversity : K
deriving DecidableEq

/-- The rollouts of one generation, and which of the optional columns they come with. -/
structure GenerationBatch (P D K : Type*) where
  rollouts : List (Rollout P D K)
  hasUnshaped : Bool
  hasDiversity : Bool

/-- A row of the batch that `dynamic_sampling` works on. -/
structure ScoredRow (P D K : Type*) where
  rollout : Rollout P D K
  allocationGroup : ℕ
  baseline : K
  std : K
  filteredReward : Option K
deriving DecidableEq

/-- The optional columns a batch has; the cells of a column it lacks are never read. -/
structure Columns where
  unshaped : Bool
  diversity : Bool
  group : Bool
deriving DecidableEq, Repr

structure ScoredBatch (P D K : Type*) where
  rows : List (ScoredRow P D K)
  columns : Columns

inductive SamplingError
  | noSuchColumn (key : String)
  | tooManyPrompts
  | maxGenBatchesNotPositive
  | maxGenBatchesReached (maxGenBatches : ℤ)
  | noAllocationGroups
deriving DecidableEq, Repr

/-- What `dynamic_sampling` returns; of its metrics, the rewards before the filter and the number
of rows that a complete step does not use. -/
structure Sampling (P D K : Type*) where
  batch : ScoredBatch P D K
  isBatchComplete : Bool
  batchCache : Option (ScoredBatch P D K)
  unfilteredReward : Option (List K)
  numDiscardedValidSamples : Option ℕ

variable {P D K : Type*}

namespace GrpoConfig

def trainPromptsSize (cfg : GrpoConfig K) : ℕ := cfg.numPromptsPerStep * cfg.numGenerationsPerPrompt

def maxGenBatches (cfg : GrpoConfig K) : ℤ := cfg.dynamicSamplingMaxGenBatches.getD 10

def gradedAllocationEnabled (cfg : GrpoConfig K) : Bool :=
  (cfg.gradedAllocation.map GradedAllocationConfig.enabled).getD false

def diversityExponent [Zero K] (cfg : GrpoConfig K) : K :=
  match cfg.routingDiversity with
  | some diversity => if diversity.enabled then diversity.allocationExponent.getD 0 else 0
  | none => 0

end GrpoConfig

namespace ScoredBatch

def size (b : ScoredBatch P D K) : ℕ := b.rows.length

/-- `batch.select_indices(indices)`. -/
def selectIndices (b : ScoredBatch P D K) (indices : List ℕ) : ScoredBatch P D K :=
  ⟨gather b.rows indices,b.columns⟩

/-- `batch.select(slice(0, stop))`. -/
def head (b : ScoredBatch P D K) (stop : ℕ) : ScoredBatch P D K := ⟨b.rows.take stop,b.columns⟩

/-- `BatchedDataDict.from_batches([a, b])`, which reads every column of the first batch, in
alphabetical order, from both. -/
def fromBatches (a b : ScoredBatch P D K) : Except SamplingError (ScoredBatch P D K) :=
  if a.columns.group && !b.columns.group then .error (.noSuchColumn "allocation_group")
  else if a.columns.diversity && !b.columns.diversity then
    .error (.noSuchColumn "routing_diversity")
  else if a.columns.unshaped && !b.columns.unshaped then
    .error (.noSuchColumn "unshaped_total_reward")
  else .ok ⟨a.rows ++ b.rows,a.columns⟩

end ScoredBatch

/-- `_GROUP_ID_STRIDE`. -/
def groupIdStride : ℕ := 2 ^ 32

def assignGroupIds [LinearOrder P] (promptIds : List P) (genBatchOrdinal : ℕ) :
    Except SamplingError (List ℕ) :=
  let locals := promptIds.map (unique promptIds).idxOf
  if locals.any (groupIdStride ≤ ·) then .error .tooManyPrompts
  else .ok (locals.map (· + genBatchOrdinal * groupIdStride))

variable [Field K] [LinearOrder K] [LinearOrder P]

namespace GenerationBatch

def prompts (batch : GenerationBatch P D K) : List P := batch.rollouts.map Rollout.prompt

def rewards (batch : GenerationBatch P D K) : List K := batch.rollouts.map Rollout.totalReward

def stdRewards (cfg : GrpoConfig K) (batch : GenerationBatch P D K) : Option (List K) :=
  if cfg.useDynamicSampling && batch.hasUnshaped then
    some (batch.rollouts.map Rollout.unshapedTotalReward)
  else none

/-- Baselines and standard deviations of a generation batch, all of whose rows are valid. -/
def baselineAndStd (A : Arithmetic K) (cfg : GrpoConfig K) (batch : GenerationBatch P D K) :
    List K × List K :=
  calculateBaselineAndStdPerPrompt A batch.prompts batch.rewards
    (List.replicate batch.rollouts.length true) cfg.useLeaveOneOutBaseline (batch.stdRewards cfg)

def groupIds (cfg : GrpoConfig K) (batch : GenerationBatch P D K) (numGenBatches : ℕ) :
    Except SamplingError (List ℕ) :=
  if cfg.gradedAllocationEnabled then assignGroupIds batch.prompts numGenBatches
  else .ok (List.replicate batch.rollouts.length 0)

/-- The generation batch as it reaches `dynamic_sampling`. -/
def scored (A : Arithmetic K) (cfg : GrpoConfig K) (batch : GenerationBatch P D K)
    (groupIds : List ℕ) : ScoredBatch P D K :=
  let stats := batch.baselineAndStd A cfg
  ⟨List.zipWith (fun rollout cells => ⟨rollout,cells.1,cells.2.1,cells.2.2,none⟩) batch.rollouts
      (groupIds.zip (stats.1.zip stats.2)),
    ⟨batch.hasUnshaped,batch.hasDiversity,cfg.gradedAllocationEnabled⟩⟩

end GenerationBatch

namespace ScoredRow

/-- `batch["filtered_reward"] = batch["total_reward"]`. -/
def setFilteredReward (row : ScoredRow P D K) : ScoredRow P D K :=
  { row with filteredReward := some row.rollout.totalReward }

end ScoredRow

namespace ScoredBatch

def filtered (b : ScoredBatch P D K) : ScoredBatch P D K :=
  ⟨(b.rows.filter fun row => row.std ≠ 0).map ScoredRow.setFilteredReward,b.columns⟩

def accumulate (cache : Option (ScoredBatch P D K)) (filtered : ScoredBatch P D K) :
    Except SamplingError (Option (ScoredBatch P D K) × ScoredBatch P D K) :=
  if 0 < filtered.size then
    match cache with
    | none => .ok (some filtered,filtered)
    | some cache => (cache.fromBatches filtered).map fun both => (some both,both)
  else .ok (cache,filtered)

variable [FloorSemiring K]

/-- The rows of a complete step: by group variance where that is asked for, else the first ones. -/
def trim (A : Arithmetic K) (cfg : GrpoConfig K) (b : ScoredBatch P D K) :
    Except SamplingError (ScoredBatch P D K) :=
  match cfg.gradedAllocation with
  | some alloc =>
    if alloc.enabled then
      if b.columns.group then
        let keptIndices := allocateRolloutBudget A (b.rows.map ScoredRow.allocationGroup)
          (b.rows.map ScoredRow.std) cfg.trainPromptsSize (alloc.minRolloutsPerPrompt.getD 1)
          (alloc.varianceExponent.getD 1)
          (if b.columns.diversity then some (b.rows.map fun row => row.rollout.routingDiversity)
            else none) cfg.diversityExponent
        .ok ⟨(b.selectIndices keptIndices).rows,
          { b.columns with diversity := false, group := false }⟩
      else .error .noAllocationGroups
    else .ok (b.head cfg.trainPromptsSize)
  | none => .ok (b.head cfg.trainPromptsSize)

end ScoredBatch

section Sampler

variable [FloorSemiring K] (A : Arithmetic K) (cfg : GrpoConfig K)

/-- What `dynamic_sampling` makes of the rows that have accumulated. -/
def concludeSampling (unfiltered : List K) (numGenBatches : ℕ)
    (batchCache : Option (ScoredBatch P D K)) (filtered : ScoredBatch P D K) :
    Except SamplingError (Sampling P D K) :=
  if filtered.size < cfg.trainPromptsSize then
    if cfg.maxGenBatches ≤ 0 then .error .maxGenBatchesNotPositive
    else if (numGenBatches : ℤ) ≤ cfg.maxGenBatches then
      .ok ⟨filtered,false,batchCache,some unfiltered,none⟩
    else .error (.maxGenBatchesReached cfg.maxGenBatches)
  else (filtered.trim A cfg).map fun batch =>
    ⟨batch,true,batchCache,some unfiltered,some (filtered.size - cfg.trainPromptsSize)⟩

def dynamicSampling (repeatedBatch : ScoredBatch P D K) (numGenBatches : ℕ)
    (batchCache : Option (ScoredBatch P D K)) : Except SamplingError (Sampling P D K) :=
  if cfg.useDynamicSampling then
    (ScoredBatch.accumulate batchCache repeatedBatch.filtered).bind fun pool =>
      concludeSampling A cfg (repeatedBatch.rows.map fun row => row.rollout.totalReward)
        numGenBatches pool.1 pool.2
  else .ok ⟨repeatedBatch,true,batchCache,none,none⟩

/-- What the training loop keeps between two generation batches. -/
structure Sampler (P D K : Type*) where
  batchCache : Option (ScoredBatch P D K)
  numGenBatches : ℕ

def Sampler.start : Sampler P D K := ⟨none,0⟩

def generationStep (s : Sampler P D K) (batch : GenerationBatch P D K) :
    Except SamplingError (Sampling P D K × Sampler P D K) :=
  (batch.groupIds cfg (s.numGenBatches + 1)).bind fun groupIds =>
    (dynamicSampling A cfg (batch.scored A cfg groupIds) (s.numGenBatches + 1) s.batchCache).map
      fun out => (out,if out.isBatchComplete then Sampler.start
        else ⟨out.batchCache,s.numGenBatches + 1⟩)

def samplingRun (batches : List (GenerationBatch P D K)) :
    Except SamplingError (List (Sampling P D K) × Sampler P D K) :=
  batches.foldlM (fun out batch => (generationStep A cfg out.2 batch).map fun step =>
    (out.1 ++ [step.1],step.2)) ([],Sampler.start)

end Sampler

section Groups

def GenerationBatch.signal (cfg : GrpoConfig K) (batch : GenerationBatch P D K)
    (rollout : Rollout P D K) : K :=
  if cfg.useDynamicSampling && batch.hasUnshaped then rollout.unshapedTotalReward
  else rollout.totalReward

def GenerationBatch.groupOf (batch : GenerationBatch P D K) (p : P) : List (Rollout P D K) :=
  batch.rollouts.filter fun rollout => rollout.prompt = p

/-- A prompt's rollouts are kept or dropped together, and dropped when their rewards are all
equal. -/
def GroupsWhole (A : Arithmetic K) (cfg : GrpoConfig K) (batch : GenerationBatch P D K) : Prop :=
  ∀ groupIds : List ℕ, groupIds.length = batch.rollouts.length → ∀ p,
    let kept := ((batch.scored A cfg groupIds).filtered.rows.map ScoredRow.rollout).filter
      fun rollout => rollout.prompt = p
    (AllEqual ((batch.groupOf p).map (batch.signal cfg)) → kept = []) ∧
      (¬AllEqual ((batch.groupOf p).map (batch.signal cfg)) → kept = batch.groupOf p)

/-- Rewards that differ, but are all equal without one of them. -/
def OneOff (g : List K) : Prop := ¬AllEqual g ∧ ∃ i < g.length, AllEqual (g.eraseIdx i)

omit [LinearOrder P] in
theorem filtered_rollouts {rollouts : List (Rollout P D K)} {ids : List ℕ} {baselines stds : List K}
    (hids : ids.length = rollouts.length) (hbaselines : baselines.length = rollouts.length)
    (hstds : stds.length = rollouts.length) (columns : Columns) :
    ((ScoredBatch.mk (List.zipWith (fun rollout (cells : ℕ × K × K) =>
        (ScoredRow.mk rollout cells.1 cells.2.1 cells.2.2 none : ScoredRow P D K)) rollouts
        (ids.zip (baselines.zip stds))) columns).filtered.rows.map ScoredRow.rollout) =
      ((rollouts.zip stds).filter fun entry => entry.2 ≠ 0).map Prod.fst := by
  induction rollouts generalizing ids baselines stds with
  | nil => rfl
  | cons rollout rollouts ih =>
    obtain ⟨id,ids,rfl⟩ := List.exists_cons_of_length_eq_add_one hids
    obtain ⟨baseline,baselines,rfl⟩ := List.exists_cons_of_length_eq_add_one hbaselines
    obtain ⟨std,stds,rfl⟩ := List.exists_cons_of_length_eq_add_one hstds
    simp only [List.length_cons,Nat.add_right_cancel_iff] at hids hbaselines hstds
    have hrest := ih hids hbaselines hstds
    simp only [ScoredBatch.filtered,List.map_map] at hrest ⊢
    by_cases hstd : std = 0
    · simpa [hstd] using hrest
    · simpa [hstd,ScoredRow.setFilteredReward] using hrest

theorem filter_zip_eq {α : Type*} {l : List α} {stds : List K} (hlen : stds.length = l.length) :
    ((∀ x ∈ stds, x = 0) → ((l.zip stds).filter fun entry => entry.2 ≠ 0).map Prod.fst = []) ∧
      (((l.zip stds).filter fun entry => entry.2 ≠ 0).map Prod.fst = l ↔ ∀ x ∈ stds, x ≠ 0) := by
  refine ⟨fun hzero => ?_,⟨fun heq x hx hzero => ?_,fun hne => ?_⟩⟩
  · rw [List.map_eq_nil_iff,List.filter_eq_nil_iff]
    intro entry hentry
    simp [hzero entry.2 (List.of_mem_zip hentry).2]
  · have hsame : ((l.zip stds).filter fun entry => entry.2 ≠ 0).length = (l.zip stds).length := by
      rw [← List.length_map (f := Prod.fst),heq,List.length_zip,hlen,Nat.min_self]
    have hall := List.length_filter_eq_length_iff.mp hsame
    obtain ⟨i,hi,rfl⟩ := List.mem_iff_getElem.mp hx
    have hil : i < l.length := hlen ▸ hi
    have hmem : (l[i],stds[i]) ∈ l.zip stds := by
      rw [← List.getElem_zip (h := by rw [List.length_zip]; omega)]
      exact List.getElem_mem _
    have htest := hall _ hmem
    simp [hzero] at htest
  · have hall : (l.zip stds).filter (fun entry => entry.2 ≠ 0) = l.zip stds := by
      refine List.filter_eq_self.mpr fun entry hentry => ?_
      simpa using hne entry.2 (List.of_mem_zip hentry).2
    rw [hall,List.map_fst_zip hlen.ge]

variable {A : Arithmetic K} {cfg : GrpoConfig K}

namespace GenerationBatch

variable {batch : GenerationBatch P D K}

omit [Field K] [LinearOrder K] in
theorem gather_rollouts (p : P) : gather batch.rollouts (matching batch.prompts p) = batch.groupOf p :=
  gather_matching Rollout.prompt batch.rollouts p

theorem length_stds (A : Arithmetic K) (cfg : GrpoConfig K) (batch : GenerationBatch P D K) : (batch.baselineAndStd A cfg).2.length = batch.rollouts.length := by
  rw [baselineAndStd,(length_calculate _ _).2,rewards,List.length_map]

variable [IsStrictOrderedRing K]

theorem std_eq_zero_iff (hA : SqrtZero A) {p : P} (hp : p ∈ batch.prompts) {k : ℕ} {x : K}
    (hx : (gather (batch.baselineAndStd A cfg).2 (matching batch.prompts p))[k]? = some x) :
    x = 0 ↔ AllEqual (peers cfg.useLeaveOneOutBaseline
      ((batch.groupOf p).map (batch.signal cfg)) k) := by
  have hlen : batch.prompts.length = batch.rollouts.length := List.length_map _
  have hrewards : batch.rewards.length = batch.prompts.length := by
    rw [rewards,List.length_map,hlen]
  have hvalid : (List.replicate batch.rollouts.length true).length = batch.prompts.length := by
    rw [List.length_replicate,hlen]
  have hstd : ∀ s ∈ batch.stdRewards cfg, s.length = batch.prompts.length := by
    intro s hs
    rw [stdRewards] at hs
    split_ifs at hs
    · obtain rfl := Option.mem_some_iff.mp hs
      rw [List.length_map,hlen]
    · cases hs
  have hwithin : Within (matching batch.prompts p) batch.prompts.length := within_matching p
  have hstats := congrArg Prod.snd (gather_calculate A cfg.useLeaveOneOutBaseline
    hrewards hvalid hstd hp)
  have hgroup : (gather batch.rewards (matching batch.prompts p)).length =
      (matching batch.prompts p).length := length_gather (hrewards ▸ hwithin)
  have hmask : gather (List.replicate batch.rollouts.length true) (matching batch.prompts p) =
      List.replicate (gather batch.rewards (matching batch.prompts p)).length true := by
    rw [hgroup]
    refine List.eq_replicate_iff.mpr ⟨length_gather (hvalid ▸ hwithin),fun b hb => ?_⟩
    obtain ⟨i,-,hi⟩ := List.mem_filterMap.mp hb
    exact List.eq_of_mem_replicate (List.mem_of_getElem? hi)
  have hsignal : ((batch.stdRewards cfg).map (gather · (matching batch.prompts p))).getD
      (gather batch.rewards (matching batch.prompts p)) =
      (batch.groupOf p).map (batch.signal cfg) := by
    rw [stdRewards,rewards,← gather_rollouts,← gather_map]
    by_cases hunshaped : (cfg.useDynamicSampling && batch.hasUnshaped) = true
    · have hsame : batch.signal cfg = Rollout.unshapedTotalReward := by
        funext rollout
        rw [signal,if_pos hunshaped]
      rw [if_pos hunshaped,hsame]
      rfl
    · have hsame : batch.signal cfg = Rollout.totalReward := by
        funext rollout
        rw [signal,if_neg hunshaped]
      rw [if_neg hunshaped,hsame]
      rfl
  dsimp only at hstats
  rw [baselineAndStd,hstats,hmask] at hx
  have hiff := promptStd_eq_zero_iff hA (fun s hs => by
    obtain ⟨t,ht,rfl⟩ := Option.mem_map.mp hs
    rw [hgroup]
    exact length_gather (hstd t ht ▸ hwithin)) hx
  rwa [hsignal] at hiff

omit [IsStrictOrderedRing K] in
theorem kept_eq (A : Arithmetic K) (cfg : GrpoConfig K) {groupIds : List ℕ} (hids : groupIds.length = batch.rollouts.length) (p : P) :
    ((batch.scored A cfg groupIds).filtered.rows.map ScoredRow.rollout).filter
        (fun rollout => rollout.prompt = p) =
      (((batch.groupOf p).zip
        (gather (batch.baselineAndStd A cfg).2 (matching batch.prompts p))).filter
          fun entry => entry.2 ≠ 0).map Prod.fst := by
  have hlen := length_stds A cfg batch
  have hfirst : (batch.baselineAndStd A cfg).1.length = batch.rollouts.length := by
    rw [baselineAndStd,(length_calculate _ _).1,rewards,List.length_map]
  have hzip : gather (batch.rollouts.zip (batch.baselineAndStd A cfg).2) (matching batch.prompts p) =
      (batch.rollouts.zip (batch.baselineAndStd A cfg).2).filter
        fun entry => entry.1.prompt = p := by
    rw [← gather_matching (fun entry : Rollout P D K × K => entry.1.prompt)]
    congr 2
    have hfst : (batch.rollouts.zip (batch.baselineAndStd A cfg).2).map Prod.fst = batch.rollouts :=
      List.map_fst_zip hlen.ge
    rw [prompts,← hfst,List.map_map,hfst]
    rfl
  have hwithin : Within (matching batch.prompts p) batch.rollouts.length := by
    have hprompts : Within (matching batch.prompts p) batch.prompts.length := within_matching p
    rwa [prompts,List.length_map] at hprompts
  rw [scored,filtered_rollouts hids hfirst hlen,← gather_rollouts,← gather_zip hlen.symm hwithin,hzip,
    List.filter_map,List.filter_filter,List.filter_filter]
  congr 2
  funext entry
  simp [Bool.and_comm]

end GenerationBatch

variable [IsStrictOrderedRing K]

theorem kept_eq_group_iff (cfg : GrpoConfig K) (hA : SqrtZero A) {batch : GenerationBatch P D K} {groupIds : List ℕ}
    (hids : groupIds.length = batch.rollouts.length) (p : P) :
    let g := (batch.groupOf p).map (batch.signal cfg)
    let kept := ((batch.scored A cfg groupIds).filtered.rows.map ScoredRow.rollout).filter
      fun rollout => rollout.prompt = p
    (AllEqual g → kept = []) ∧ (kept = batch.groupOf p ↔
      ∀ k < g.length, ¬AllEqual (peers cfg.useLeaveOneOutBaseline g k)) := by
  intro g kept
  have hkept : kept = _ := GenerationBatch.kept_eq A cfg hids p
  set stds := gather (batch.baselineAndStd A cfg).2 (matching batch.prompts p) with hstds
  have hwithin : Within (matching batch.prompts p) batch.rollouts.length := by
    have hprompts : Within (matching batch.prompts p) batch.prompts.length := within_matching p
    rwa [GenerationBatch.prompts,List.length_map] at hprompts
  have hlen : stds.length = (batch.groupOf p).length := by
    have hall := GenerationBatch.length_stds A cfg batch
    rw [hstds,← GenerationBatch.gather_rollouts,length_gather (by rwa [hall]),length_gather hwithin]
  have hg : g.length = (batch.groupOf p).length := List.length_map _
  obtain ⟨hnone,hall⟩ := filter_zip_eq hlen
  have hzero : ∀ k, ∀ x, stds[k]? = some x →
      (x = 0 ↔ AllEqual (peers cfg.useLeaveOneOutBaseline g k)) := by
    intro k x hx
    have hp : p ∈ batch.prompts := by
      obtain ⟨hk,-⟩ := List.getElem?_eq_some_iff.mp hx
      obtain ⟨rollout,hrollout⟩ := List.exists_mem_of_length_pos (l := batch.groupOf p) (by omega)
      obtain ⟨hmem,hprompt⟩ := List.mem_filter.mp hrollout
      exact List.mem_map.mpr ⟨rollout,hmem,by simpa using hprompt⟩
    exact GenerationBatch.std_eq_zero_iff hA hp hx
  refine ⟨fun hequal => ?_,?_⟩
  · rw [hkept]
    refine hnone fun x hx => ?_
    obtain ⟨k,hk⟩ := List.mem_iff_getElem?.mp hx
    refine (hzero k x hk).mpr (allEqual_of_sublist ?_ hequal)
    cases cfg.useLeaveOneOutBaseline with
    | false => exact List.Sublist.refl _
    | true => exact List.eraseIdx_sublist _ _
  · rw [hkept,hall]
    constructor
    · intro hne k hk hequal
      have hx : stds[k]? = some stds[k] := List.getElem?_eq_getElem (by omega)
      exact hne _ (List.mem_of_getElem? hx) ((hzero k _ hx).mpr hequal)
    · intro hne x hx hxzero
      obtain ⟨k,hk⟩ := List.mem_iff_getElem?.mp hx
      obtain ⟨hlt,-⟩ := List.getElem?_eq_some_iff.mp hk
      exact hne k (by omega) ((hzero k x hk).mp hxzero)

theorem groupsWhole_iff (hA : SqrtZero A) (batch : GenerationBatch P D K) :
    GroupsWhole A cfg batch ↔ cfg.useLeaveOneOutBaseline = false ∨
      ∀ p, ¬OneOff ((batch.groupOf p).map (batch.signal cfg)) := by
  have hwhole : GroupsWhole A cfg batch ↔ ∀ p,
      ¬AllEqual ((batch.groupOf p).map (batch.signal cfg)) →
        ∀ k < ((batch.groupOf p).map (batch.signal cfg)).length,
          ¬AllEqual (peers cfg.useLeaveOneOutBaseline ((batch.groupOf p).map (batch.signal cfg)) k) := by
    constructor
    · intro h p hdiffer
      have hids : (List.replicate batch.rollouts.length 0).length = batch.rollouts.length :=
        List.length_replicate
      exact (kept_eq_group_iff cfg hA hids p).2.mp ((h _ hids p).2 hdiffer)
    · intro h groupIds hids p
      obtain ⟨hnone,hall⟩ := kept_eq_group_iff cfg hA hids p
      exact ⟨hnone,fun hdiffer => hall.mpr (h p hdiffer)⟩
  rw [hwhole]
  cases hloo : cfg.useLeaveOneOutBaseline with
  | false =>
    refine iff_of_true (fun p hdiffer k _ => ?_) (Or.inl rfl)
    exact hdiffer
  | true =>
    rw [or_iff_right (by simp)]
    refine forall_congr' fun p => ?_
    rw [OneOff,not_and]
    refine imp_congr_right fun _ => ?_
    constructor
    · rintro h ⟨k,hk,hequal⟩
      exact h k hk hequal
    · intro h k hk hequal
      exact h ⟨k,hk,hequal⟩

end Groups

section Runs

variable [FloorSemiring K] (A : Arithmetic K) (cfg : GrpoConfig K)

def cachedRows (cache : Option (ScoredBatch P D K)) : List (ScoredRow P D K) :=
  (cache.map ScoredBatch.rows).getD []

/-- The rows that a generation batch adds to the cache when it is the `n`-th of its step. -/
def keptRows (batch : GenerationBatch P D K) (n : ℕ) : List (ScoredRow P D K) :=
  (batch.scored A cfg ((batch.groupIds cfg n).toOption.getD [])).filtered.rows

def pendingBatches (batches : List (GenerationBatch P D K)) (results : List (Sampling P D K)) :
    List (GenerationBatch P D K) :=
  ((batches.zip results).rtakeWhile fun step => !step.2.isBatchComplete).map Prod.fst

def arrivals (batches : List (GenerationBatch P D K)) : List (ScoredRow P D K) :=
  (batches.zipIdx 1).flatMap fun entry => keptRows A cfg entry.1 entry.2

/-- Wherever a run has got to, the next generation batch leaves in the cache the rows kept since
the last complete step, in order of arrival; the step is complete exactly when these are enough, and
then trains on as many as it needs, taken from the cache; it gives up only when they are not. -/
def AccumulatesExactly (batches : List (GenerationBatch P D K)) : Prop :=
  ∀ done batch, done ++ [batch] <+: batches → ∀ results s, samplingRun A cfg done = .ok (results,s) →
    let rows := arrivals A cfg (pendingBatches done results ++ [batch])
    (∀ out s', generationStep A cfg s batch = .ok (out,s') →
      cachedRows out.batchCache = rows ∧
        (out.isBatchComplete = true ↔ cfg.trainPromptsSize ≤ rows.length) ∧
        (out.isBatchComplete = true → out.batch.rows.length = cfg.trainPromptsSize ∧
          out.batch.rows.Sublist rows)) ∧
      ∀ m, generationStep A cfg s batch = .error (.maxGenBatchesReached m) →
        rows.length < cfg.trainPromptsSize

/-- Prompt groups are kept or dropped whole, and what is kept accumulates exactly. -/
def DynamicSamplingExact (batches : List (GenerationBatch P D K)) : Prop :=
  (∀ batch ∈ batches, GroupsWhole A cfg batch) ∧ AccumulatesExactly A cfg batches

variable {A cfg}

omit [Field K] [LinearOrder K] [LinearOrder P] [FloorSemiring K] in
theorem rows_fromBatches {a b c : ScoredBatch P D K} (h : a.fromBatches b = .ok c) :
    c.rows = a.rows ++ b.rows := by
  rw [ScoredBatch.fromBatches] at h
  split_ifs at h
  rw [← Except.ok.inj h]

omit [Field K] [LinearOrder K] [LinearOrder P] [FloorSemiring K] in
theorem accumulate_spec {cache : Option (ScoredBatch P D K)} {filtered : ScoredBatch P D K}
    {out : Option (ScoredBatch P D K) × ScoredBatch P D K}
    (h : ScoredBatch.accumulate cache filtered = .ok out) :
    cachedRows out.1 = cachedRows cache ++ filtered.rows ∧
      (0 < filtered.size → out.2.rows = cachedRows out.1) ∧
      (filtered.size = 0 → out.2 = filtered) := by
  unfold ScoredBatch.accumulate at h
  by_cases hsize : 0 < filtered.size
  · rw [if_pos hsize] at h
    cases cache with
    | none =>
      obtain rfl := Except.ok.inj h
      exact ⟨rfl,fun _ => rfl,fun hzero => absurd hzero hsize.ne'⟩
    | some cache =>
      obtain ⟨both,hboth,rfl⟩ := Fallible.map_eq_ok.mp h
      exact ⟨rows_fromBatches hboth,fun _ => rfl,fun hzero => absurd hzero hsize.ne'⟩
  · rw [if_neg hsize] at h
    obtain rfl := Except.ok.inj h
    have hnil : filtered.rows = [] := List.eq_nil_of_length_eq_zero (Nat.eq_zero_of_not_pos hsize)
    exact ⟨by rw [hnil,List.append_nil],fun hpos => absurd hpos hsize,fun _ => rfl⟩

omit [LinearOrder P] in
theorem trim_error {b : ScoredBatch P D K} {e : SamplingError} (h : b.trim A cfg = .error e) :
    e = .noAllocationGroups := by
  rw [ScoredBatch.trim] at h
  cases halloc : cfg.gradedAllocation with
  | none =>
    rw [halloc] at h
    cases h
  | some alloc =>
    rw [halloc] at h
    dsimp only at h
    by_cases henabled : alloc.enabled = true
    · rw [if_pos henabled] at h
      by_cases hgroup : b.columns.group = true
      · rw [if_pos hgroup] at h
        cases h
      · rw [if_neg hgroup] at h
        exact (Except.error.inj h).symm
    · rw [if_neg henabled] at h
      cases h

omit [Field K] [LinearOrder K] [LinearOrder P] [FloorSemiring K] in
theorem accumulate_error {cache : Option (ScoredBatch P D K)} {filtered : ScoredBatch P D K}
    {e : SamplingError} (h : ScoredBatch.accumulate cache filtered = .error e) :
    ∃ key, e = .noSuchColumn key := by
  unfold ScoredBatch.accumulate at h
  by_cases hsize : 0 < filtered.size
  · rw [if_pos hsize] at h
    cases cache with
    | none => cases h
    | some cache =>
      dsimp only at h
      cases hboth : cache.fromBatches filtered with
      | ok both =>
        rw [hboth] at h
        cases h
      | error e' =>
        rw [hboth] at h
        obtain rfl := Except.error.inj h
        rw [ScoredBatch.fromBatches] at hboth
        split_ifs at hboth
        · exact ⟨_,(Except.error.inj hboth).symm⟩
        · exact ⟨_,(Except.error.inj hboth).symm⟩
        · exact ⟨_,(Except.error.inj hboth).symm⟩
  · rw [if_neg hsize] at h
    cases h

variable [IsStrictOrderedRing K]

omit [LinearOrder P] in
theorem trim_spec (hA : PowerNonneg A) {b out : ScoredBatch P D K} (h : b.trim A cfg = .ok out)
    (hsize : cfg.trainPromptsSize ≤ b.size) :
    out.rows.length = cfg.trainPromptsSize ∧ out.rows.Sublist b.rows := by
  have hhead : (b.head cfg.trainPromptsSize).rows.length = cfg.trainPromptsSize ∧
      (b.head cfg.trainPromptsSize).rows.Sublist b.rows :=
    ⟨List.length_take_of_le hsize,List.take_sublist _ _⟩
  rw [ScoredBatch.trim] at h
  cases halloc : cfg.gradedAllocation with
  | none =>
    rw [halloc] at h
    obtain rfl := Except.ok.inj h
    exact hhead
  | some alloc =>
    rw [halloc] at h
    dsimp only at h
    by_cases henabled : alloc.enabled = true
    · rw [if_pos henabled] at h
      by_cases hgroup : b.columns.group = true
      · rw [if_pos hgroup] at h
        obtain rfl := Except.ok.inj h
        obtain ⟨hsorted,hwithin,hlength⟩ := allocateRolloutBudget_spec
          (fun x => hA x (alloc.varianceExponent.getD 1)) (fun x => hA x cfg.diversityExponent)
          (b.rows.map ScoredRow.allocationGroup) (b.rows.map ScoredRow.std) cfg.trainPromptsSize
          (alloc.minRolloutsPerPrompt.getD 1)
          (if b.columns.diversity then some (b.rows.map fun row => row.rollout.routingDiversity)
            else none)
        rw [List.length_map] at hwithin hlength
        have hrows : b.rows.length = b.size := rfl
        refine ⟨?_,gather_sublist hsorted _⟩
        rw [ScoredBatch.selectIndices,length_gather hwithin]
        omega
      · rw [if_neg hgroup] at h
        cases h
    · rw [if_neg henabled] at h
      obtain rfl := Except.ok.inj h
      exact hhead

omit [LinearOrder P] in
theorem dynamicSampling_spec (hA : PowerNonneg A) (huse : cfg.useDynamicSampling = true)
    (repeatedBatch : ScoredBatch P D K) (n : ℕ) {cache : Option (ScoredBatch P D K)}
    (hcache : cache = none ∨ (cachedRows cache).length < cfg.trainPromptsSize) :
    (∀ out, dynamicSampling A cfg repeatedBatch n cache = .ok out →
      cachedRows out.batchCache = cachedRows cache ++ repeatedBatch.filtered.rows ∧
        (out.isBatchComplete = true ↔ cfg.trainPromptsSize ≤
          (cachedRows cache ++ repeatedBatch.filtered.rows).length) ∧
        (out.isBatchComplete = true → out.batch.rows.length = cfg.trainPromptsSize ∧
          out.batch.rows.Sublist (cachedRows cache ++ repeatedBatch.filtered.rows))) ∧
      ∀ m, dynamicSampling A cfg repeatedBatch n cache = .error (.maxGenBatchesReached m) →
        (cachedRows cache ++ repeatedBatch.filtered.rows).length < cfg.trainPromptsSize := by
  cases hpool : ScoredBatch.accumulate cache repeatedBatch.filtered with
  | error e =>
    obtain ⟨key,rfl⟩ := accumulate_error hpool
    have hraise : dynamicSampling A cfg repeatedBatch n cache = .error (.noSuchColumn key) := by
      rw [dynamicSampling,if_pos huse,hpool]
      rfl
    rw [hraise]
    exact ⟨fun out h => (by cases h),fun m h => by cases h⟩
  | ok pool =>
    obtain ⟨hcached,hsome,hnone⟩ := accumulate_spec hpool
    have hcall : dynamicSampling A cfg repeatedBatch n cache = concludeSampling A cfg
        (repeatedBatch.rows.map fun row => row.rollout.totalReward) n pool.1 pool.2 := by
      rw [dynamicSampling,if_pos huse,hpool]
      rfl
    have hsize : pool.2.size < cfg.trainPromptsSize ↔
        (cachedRows cache ++ repeatedBatch.filtered.rows).length < cfg.trainPromptsSize := by
      by_cases hpos : 0 < repeatedBatch.filtered.size
      · rw [ScoredBatch.size,hsome hpos,hcached]
      · have hzero := Nat.eq_zero_of_not_pos hpos
        have hnil : repeatedBatch.filtered.rows = [] := List.eq_nil_of_length_eq_zero hzero
        rw [hnone hzero,hzero,hnil,List.append_nil]
        obtain rfl | hfew := hcache
        · rfl
        · exact iff_of_true (Nat.zero_lt_of_lt hfew) hfew
    have hrows : cfg.trainPromptsSize ≤ pool.2.size → ∀ l : List (ScoredRow P D K),
        l.Sublist pool.2.rows → l.Sublist (cachedRows cache ++ repeatedBatch.filtered.rows) := by
      intro _ l hl
      by_cases hpos : 0 < repeatedBatch.filtered.size
      · rwa [hsome hpos,hcached] at hl
      · have hnil : repeatedBatch.filtered.rows = [] :=
          List.eq_nil_of_length_eq_zero (Nat.eq_zero_of_not_pos hpos)
        rw [hnone (Nat.eq_zero_of_not_pos hpos),hnil] at hl
        rw [List.sublist_nil.mp hl]
        exact List.nil_sublist _
    rw [hcall,concludeSampling]
    by_cases hfew : pool.2.size < cfg.trainPromptsSize
    · rw [if_pos hfew]
      have hshort := hsize.mp hfew
      refine ⟨fun out h => ?_,fun _ _ => hshort⟩
      split_ifs at h
      obtain rfl := Except.ok.inj h
      exact ⟨hcached,iff_of_false Bool.false_ne_true (not_le.mpr hshort),
        fun hcomplete => absurd hcomplete Bool.false_ne_true⟩
    · rw [if_neg hfew]
      have henough : cfg.trainPromptsSize ≤
          (cachedRows cache ++ repeatedBatch.filtered.rows).length := by
        rw [← not_lt,← hsize]
        exact hfew
      refine ⟨fun out h => ?_,fun m h => ?_⟩
      · obtain ⟨batch,hbatch,rfl⟩ := Fallible.map_eq_ok.mp h
        obtain ⟨hlength,hsub⟩ := trim_spec hA hbatch (not_lt.mp hfew)
        exact ⟨hcached,iff_of_true rfl henough,fun _ => ⟨hlength,hrows (not_lt.mp hfew) _ hsub⟩⟩
      · cases htrim : pool.2.trim A cfg with
        | ok batch =>
          rw [htrim] at h
          cases h
        | error e =>
          rw [htrim] at h
          have heq := trim_error htrim
          rw [heq] at h
          cases h

theorem generationStep_spec (hA : PowerNonneg A) (huse : cfg.useDynamicSampling = true)
    {s : Sampler P D K} (batch : GenerationBatch P D K)
    (hcache : s.batchCache = none ∨ (cachedRows s.batchCache).length < cfg.trainPromptsSize) :
    (∀ out s', generationStep A cfg s batch = .ok (out,s') →
      (cachedRows out.batchCache =
          cachedRows s.batchCache ++ keptRows A cfg batch (s.numGenBatches + 1) ∧
        (out.isBatchComplete = true ↔ cfg.trainPromptsSize ≤
          (cachedRows s.batchCache ++ keptRows A cfg batch (s.numGenBatches + 1)).length) ∧
        (out.isBatchComplete = true → out.batch.rows.length = cfg.trainPromptsSize ∧
          out.batch.rows.Sublist
            (cachedRows s.batchCache ++ keptRows A cfg batch (s.numGenBatches + 1)))) ∧
      s' = if out.isBatchComplete then Sampler.start
        else ⟨out.batchCache,s.numGenBatches + 1⟩) ∧
      ∀ m, generationStep A cfg s batch = .error (.maxGenBatchesReached m) →
        (cachedRows s.batchCache ++ keptRows A cfg batch (s.numGenBatches + 1)).length <
          cfg.trainPromptsSize := by
  cases hids : batch.groupIds cfg (s.numGenBatches + 1) with
  | error e =>
    have hraise : generationStep A cfg s batch = .error e := by
      rw [generationStep,hids]
      rfl
    have htoo : e = .tooManyPrompts := by
      rw [GenerationBatch.groupIds,assignGroupIds] at hids
      split_ifs at hids
      exact (Except.error.inj hids).symm
    rw [hraise,htoo]
    exact ⟨fun out s' h => (by cases h),fun m h => by cases h⟩
  | ok ids =>
    have hkept : keptRows A cfg batch (s.numGenBatches + 1) =
        (batch.scored A cfg ids).filtered.rows := by
      rw [keptRows,hids]
      rfl
    have hcall : generationStep A cfg s batch =
        (dynamicSampling A cfg (batch.scored A cfg ids) (s.numGenBatches + 1) s.batchCache).map
          fun out => (out,if out.isBatchComplete then Sampler.start
            else ⟨out.batchCache,s.numGenBatches + 1⟩) := by
      rw [generationStep,hids]
      rfl
    obtain ⟨hok,herror⟩ := dynamicSampling_spec hA huse (batch.scored A cfg ids)
      (s.numGenBatches + 1) hcache
    rw [hkept,hcall]
    refine ⟨fun out s' h => ?_,fun m h => ?_⟩
    · obtain ⟨out',hout,heq⟩ := Fallible.map_eq_ok.mp h
      obtain ⟨rfl,rfl⟩ := Prod.mk.inj heq
      exact ⟨hok out' hout,rfl⟩
    · cases hout : dynamicSampling A cfg (batch.scored A cfg ids) (s.numGenBatches + 1)
          s.batchCache with
      | ok out =>
        rw [hout] at h
        cases h
      | error e =>
        rw [hout] at h
        obtain rfl := Except.error.inj h
        exact herror m hout

omit [FloorSemiring K] [IsStrictOrderedRing K] in
theorem arrivals_append (batches : List (GenerationBatch P D K)) (batch : GenerationBatch P D K) :
    arrivals A cfg (batches ++ [batch]) =
      arrivals A cfg batches ++ keptRows A cfg batch (batches.length + 1) := by
  rw [arrivals,arrivals,List.zipIdx_append,List.flatMap_append]
  simp [Nat.add_comm]

theorem samplingRun_spec (hA : PowerNonneg A) (huse : cfg.useDynamicSampling = true)
    {batches : List (GenerationBatch P D K)} {results : List (Sampling P D K)} {s : Sampler P D K}
    (h : samplingRun A cfg batches = .ok (results,s)) :
    results.length = batches.length ∧
      cachedRows s.batchCache = arrivals A cfg (pendingBatches batches results) ∧
      s.numGenBatches = (pendingBatches batches results).length ∧
      (s.batchCache = none ∨ (cachedRows s.batchCache).length < cfg.trainPromptsSize) := by
  induction batches using List.reverseRecOn generalizing results s with
  | nil =>
    obtain ⟨rfl,rfl⟩ := Prod.mk.inj (Except.ok.inj h)
    exact ⟨rfl,rfl,rfl,Or.inl rfl⟩
  | append_singleton batches batch ih =>
    rw [samplingRun,List.foldlM_append] at h
    obtain ⟨⟨before,t⟩,hbefore,hlast⟩ := Fallible.bind_eq_ok.mp h
    rw [List.foldlM_cons] at hlast
    obtain ⟨⟨results',s''⟩,hstep,hpure⟩ := Fallible.bind_eq_ok.mp hlast
    obtain ⟨rfl,rfl⟩ := Prod.mk.inj (Except.ok.inj hpure)
    obtain ⟨⟨out,s'⟩,hgen,heq⟩ := Fallible.map_eq_ok.mp hstep
    obtain ⟨rfl,rfl⟩ := Prod.mk.inj heq
    obtain ⟨hlen,hcached,hnum,hcache⟩ := ih hbefore
    obtain ⟨⟨hrows,hcomplete,-⟩,hnext⟩ := (generationStep_spec hA huse batch hcache).1 out s' hgen
    have hpending : pendingBatches (batches ++ [batch]) (before ++ [out]) =
        if out.isBatchComplete then [] else pendingBatches batches before ++ [batch] := by
      rw [pendingBatches,pendingBatches,List.zip_append hlen.symm,List.zip_cons_cons,List.zip_nil_left,
        List.rtakeWhile_concat]
      cases out.isBatchComplete <;> simp
    refine ⟨by simp [hlen],?_⟩
    dsimp only
    rw [hpending,hnext]
    cases hdone : out.isBatchComplete with
    | true => exact ⟨rfl,rfl,Or.inl rfl⟩
    | false =>
      have hfew : ¬cfg.trainPromptsSize ≤ (cachedRows t.batchCache ++
          keptRows A cfg batch (t.numGenBatches + 1)).length := by
        rw [← hcomplete,hdone]
        exact Bool.false_ne_true
      simp only [Bool.false_eq_true,if_false]
      refine ⟨?_,by simp [hnum],Or.inr ?_⟩
      · rw [hrows,hcached,arrivals_append,hnum]
      · rw [hrows]
        exact not_le.mp hfew

theorem accumulatesExactly (hA : PowerNonneg A) (huse : cfg.useDynamicSampling = true)
    (batches : List (GenerationBatch P D K)) : AccumulatesExactly A cfg batches := by
  intro done batch _ results s hrun
  obtain ⟨-,hcached,hnum,hcache⟩ := samplingRun_spec hA huse hrun
  obtain ⟨hok,herror⟩ := generationStep_spec hA huse batch hcache
  rw [hcached,hnum,← arrivals_append] at hok herror
  exact ⟨fun out s' h => (hok out s' h).1,herror⟩

/-- Dynamic sampling does what it is meant to exactly when leave-one-out never meets a group whose
rewards are equal but for one. -/
theorem dynamicSamplingExact_iff (hsqrt : SqrtZero A) (hpower : PowerNonneg A)
    (huse : cfg.useDynamicSampling = true) (batches : List (GenerationBatch P D K)) :
    DynamicSamplingExact A cfg batches ↔ cfg.useLeaveOneOutBaseline = false ∨
      ∀ batch ∈ batches, ∀ p, ¬OneOff ((batch.groupOf p).map (batch.signal cfg)) := by
  rw [DynamicSamplingExact,and_iff_left (accumulatesExactly hpower huse batches)]
  constructor
  · intro h
    by_cases hloo : cfg.useLeaveOneOutBaseline = false
    · exact Or.inl hloo
    · exact Or.inr fun batch hbatch => ((groupsWhole_iff hsqrt batch).mp (h batch hbatch)).resolve_left hloo
  · rintro (hloo | hgroups) batch hbatch
    · exact (groupsWhole_iff hsqrt batch).mpr (Or.inl hloo)
    · exact (groupsWhole_iff hsqrt batch).mpr (Or.inr (hgroups batch hbatch))

end Runs

/-- Rationals with roots of squares, powers with natural exponents, and the largest number of single
precision. -/
def rationalArithmetic : Arithmetic ℚ :=
  ⟨Rat.sqrt,fun x e => x ^ e.num.toNat,(2 ^ 24 - 1) * 2 ^ 104⟩

theorem rationalArithmetic_sqrtZero : SqrtZero rationalArithmetic := by
  intro x hx
  have hden : Nat.sqrt x.den ≠ 0 := by simp [Nat.sqrt_eq_zero,x.den_ne_zero]
  show mkRat (Int.sqrt x.num) (Nat.sqrt x.den) = 0 ↔ x = 0
  rw [Rat.mkRat_eq_zero hden,Int.sqrt,Int.natCast_eq_zero,Nat.sqrt_eq_zero,Int.toNat_eq_zero,
    ← Rat.num_eq_zero]
  have hnum := Rat.num_nonneg.mpr hx
  omega

theorem rationalArithmetic_powerNonneg : PowerNonneg rationalArithmetic :=
  fun _ _ hx => pow_nonneg hx _

def exampleConfig (leaveOneOut : Bool) (numPrompts numGenerations : ℕ) : GrpoConfig ℚ :=
  ⟨numPrompts,numGenerations,true,leaveOneOut,none,none,none⟩

def exampleBatch (rewards : List (ℕ × ℚ)) : GenerationBatch ℕ Unit ℚ :=
  ⟨rewards.map fun entry => ⟨entry.1,(),entry.2,0,0⟩,false,false⟩

theorem dynamicSamplingExact_plain :
    DynamicSamplingExact rationalArithmetic (exampleConfig false 1 4)
      [exampleBatch [(0,0),(1,1),(0,0),(0,0),(1,1),(0,2)],exampleBatch [(0,1),(0,1)]] :=
  (dynamicSamplingExact_iff rationalArithmetic_sqrtZero rationalArithmetic_powerNonneg rfl _).mpr
    (Or.inl rfl)

/-- Without the one reward that differs, a leave-one-out group loses that row alone. -/
theorem leaveOneOut_splits_group :
    ¬DynamicSamplingExact rationalArithmetic (exampleConfig true 1 5)
      [exampleBatch [(0,2),(0,0),(0,0),(0,0),(0,0)]] := by
  intro hexact
  have hwhole := hexact.1 _ List.mem_cons_self
  have hone : OneOff (((exampleBatch [(0,2),(0,0),(0,0),(0,0),(0,0)]).groupOf 0).map
      ((exampleBatch [(0,2),(0,0),(0,0),(0,0),(0,0)]).signal (exampleConfig true 1 5))) :=
    ⟨by decide,0,by decide,by decide⟩
  obtain hplain | hgroups := (groupsWhole_iff rationalArithmetic_sqrtZero _).mp hwhole
  · exact Bool.noConfusion hplain
  · exact hgroups 0 hone

end Grpo
end DockyardRL
