import Mathlib.Data.List.Nodup
import Mathlib.Tactic.Common

/-! The ranks at which the workers join the group for weight updates. Each side of the group and
each layer below adds its own offset. -/
namespace DockyardRL
namespace Refit

/-- The sizes of the two fleets. -/
structure Fleets where
  trainWorldSize : ℕ
  shards : ℕ
  tensorParallel : ℕ
  pipelineParallel : ℕ
  trainWorldSize_pos : 0 < trainWorldSize
  shards_pos : 0 < shards
  tensorParallel_pos : 0 < tensorParallel
  pipelineParallel_pos : 0 < pipelineParallel

/-- A worker that joins. -/
inductive Member
  | trainer (rank : ℕ)
  | inference (shard localRank : ℕ)
  deriving DecidableEq

/-- What a worker gives to `StatelessProcessGroup`. -/
structure Join where
  member : Member
  rank : ℕ
  worldSize : ℕ
  deriving DecidableEq

/-- `AbstractPolicyWorker.init_collective`. -/
def trainerInitCollective (selfRank worldSize : ℕ) : Join := ⟨.trainer selfRank,selfRank,worldSize⟩

/-- `VllmInternalWorkerExtension.init_collective`. -/
def workerInitCollective (shard rankPrefix worldSize trainWorldSize localRank : ℕ) : Join :=
  ⟨.inference shard localRank,trainWorldSize + rankPrefix + localRank,worldSize⟩

namespace Fleets

variable (fleets : Fleets)

def modelParallel : ℕ := fleets.tensorParallel * fleets.pipelineParallel

/-- `VllmGeneration.init_collective`, with the workers that each leader calls. -/
def generationInitCollective (worldSize : ℕ) : List Join :=
  (List.range fleets.shards).flatMap fun shardIdx =>
    let rankInSync := fleets.trainWorldSize + shardIdx
    (List.range fleets.modelParallel).map
      (workerInitCollective shardIdx rankInSync worldSize fleets.trainWorldSize)

def initCommunicator : List Join :=
  let inferenceWorldSize := fleets.shards * fleets.modelParallel
  let worldSize := fleets.trainWorldSize + inferenceWorldSize
  (List.range fleets.trainWorldSize).map (fun rank => trainerInitCollective rank worldSize) ++
    fleets.generationInitCollective worldSize

/-- The ranks are those of a group of the size that all are told, the trainer has the first ones,
and every worker of every shard takes part. -/
structure RanksExact : Prop where
  distinct : (fleets.initCommunicator.map Join.rank).Nodup
  all : ∀ rank, rank ∈ fleets.initCommunicator.map Join.rank ↔
    rank < fleets.trainWorldSize + fleets.shards * fleets.modelParallel
  trainer : ∀ join ∈ fleets.initCommunicator,
    (∃ rank, join.member = .trainer rank) ↔ join.rank < fleets.trainWorldSize
  receive : ∀ shard < fleets.shards, ∀ localRank < fleets.modelParallel,
    ∃ join ∈ fleets.initCommunicator, join.member = .inference shard localRank ∧
      join.rank < join.worldSize

theorem modelParallel_pos : 0 < fleets.modelParallel :=
  Nat.mul_pos fleets.tensorParallel_pos fleets.pipelineParallel_pos

theorem mem_generationInitCollective {worldSize : ℕ} {join : Join} :
    join ∈ fleets.generationInitCollective worldSize ↔
      ∃ shard < fleets.shards, ∃ localRank < fleets.modelParallel,
        join = ⟨.inference shard localRank,2 * fleets.trainWorldSize + shard + localRank,worldSize⟩ := by
  have hrank : ∀ shard localRank, fleets.trainWorldSize + (fleets.trainWorldSize + shard) + localRank =
      2 * fleets.trainWorldSize + shard + localRank := by
    intro shard localRank
    omega
  simp only [generationInitCollective,List.mem_flatMap,List.mem_map,List.mem_range,
    workerInitCollective,hrank]
  constructor
  · rintro ⟨shard,hshard,localRank,hlocal,rfl⟩
    exact ⟨shard,hshard,localRank,hlocal,rfl⟩
  · rintro ⟨shard,hshard,localRank,hlocal,rfl⟩
    exact ⟨shard,hshard,localRank,hlocal,rfl⟩

theorem trainWorldSize_not_mem :
    fleets.trainWorldSize ∉ fleets.initCommunicator.map Join.rank := by
  have hpos := fleets.trainWorldSize_pos
  rw [List.mem_map]
  rintro ⟨join,hjoin,hrank⟩
  rcases List.mem_append.mp hjoin with hjoin | hjoin
  · obtain ⟨rank,hlt,rfl⟩ := List.mem_map.mp hjoin
    rw [List.mem_range] at hlt
    have heq : rank = fleets.trainWorldSize := hrank
    omega
  · obtain ⟨shard,-,localRank,-,rfl⟩ := fleets.mem_generationInitCollective.mp hjoin
    have heq : 2 * fleets.trainWorldSize + shard + localRank = fleets.trainWorldSize := hrank
    omega

/-- The ranks are never those of the group. -/
theorem not_ranksExact : ¬ fleets.RanksExact := by
  intro h
  refine fleets.trainWorldSize_not_mem ((h.all _).mpr ?_)
  have hpos := Nat.mul_pos fleets.shards_pos fleets.modelParallel_pos
  omega

def smallest : Fleets := ⟨1,1,1,1,Nat.one_pos,Nat.one_pos,Nat.one_pos,Nat.one_pos⟩

/-- The inference worker joins a group of two at rank two. -/
theorem smallest_not_ranksExact : ¬ smallest.RanksExact := by
  intro h
  exact absurd ((h.all 1).mpr (by decide)) (by decide)

end Fleets

end Refit
end DockyardRL
