import DockyardRL.Grpo.DynamicSampling

/-! `GRPOAdvantageEstimator` on the rows that dynamic sampling trains on. The estimator takes the
baselines again, over these rows; they are the baselines of the generation batches as long as whole
groups are trained and none of them twice. -/
namespace DockyardRL
namespace Grpo

open Gather Variance

/-- `GRPOAdvantageEstimator`. -/
structure AdvantageEstimator where
  useLeaveOneOutBaseline : Bool
  normalizeRewards : Bool

variable {P D K : Type*} [Field K] [LinearOrder K] [LinearOrder P]

def epsilon : K := 1 / 10 ^ 6

/-- `GRPOAdvantageEstimator.compute_advantage`: one value per row, at all of its tokens. -/
def computeAdvantage {μ : Type*} (A : Arithmetic K) (estimator : AdvantageEstimator)
    (promptIds : List P) (rewards : List K) (mask : List (List μ)) : List (List K) :=
  let stats := calculateBaselineAndStdPerPrompt A promptIds rewards
    (List.replicate rewards.length true) estimator.useLeaveOneOutBaseline none
  let differences := List.zipWith (· - ·) rewards stats.1
  let advantages :=
    if estimator.normalizeRewards then
      List.zipWith (fun x std => if 0 < std then x / (std + epsilon) else x) differences stats.2
    else differences
  List.zipWith (fun x tokens => tokens.map fun _ => x) advantages mask

/-- `filtered_reward` where dynamic sampling has set it. -/
def ScoredRow.trainingReward (row : ScoredRow P D K) : K :=
  row.filteredReward.getD row.rollout.totalReward

def stepAdvantages {μ : Type*} (A : Arithmetic K) (cfg : GrpoConfig K) (rows : List (ScoredRow P D K))
    (mask : List (List μ)) : List (List K) :=
  computeAdvantage A ⟨cfg.useLeaveOneOutBaseline,false⟩ (rows.map fun row => row.rollout.prompt)
    (rows.map ScoredRow.trainingReward) mask

/-- Every token of a row has the row's reward less the baseline its own generation batch gave it. -/
def AdvantagesUnchanged (A : Arithmetic K) (cfg : GrpoConfig K) (rows : List (ScoredRow P D K)) :
    Prop :=
  ∀ mask : List (List Bool), mask.length = rows.length → stepAdvantages A cfg rows mask =
    List.zipWith (fun row tokens => tokens.map fun _ => row.rollout.totalReward - row.baseline) rows
      mask

/-- The rows that share a prompt are all the rollouts of it in the generation batch that one of
them comes from. -/
def TrainsWholeGroups (A : Arithmetic K) (cfg : GrpoConfig K)
    (batches : List (GenerationBatch P D K)) (rows : List (ScoredRow P D K)) : Prop :=
  ∀ row ∈ rows, ∃ entry ∈ batches.zipIdx 1, row ∈ keptRows A cfg entry.1 entry.2 ∧
    (rows.filter fun other => other.rollout.prompt = row.rollout.prompt).map ScoredRow.rollout =
      entry.1.groupOf row.rollout.prompt

section Rows

variable {A : Arithmetic K} {cfg : GrpoConfig K} [IsStrictOrderedRing K]

omit [Field K] [LinearOrder K] [LinearOrder P] [IsStrictOrderedRing K] in
theorem mem_zipped {rollouts : List (Rollout P D K)} {f : Rollout P D K → K} {ids : List ℕ}
    {stds : List K} {row : ScoredRow P D K}
    (h : row ∈ List.zipWith (fun rollout (cells : ℕ × K × K) =>
      (ScoredRow.mk rollout cells.1 cells.2.1 cells.2.2 none : ScoredRow P D K)) rollouts
      (ids.zip ((rollouts.map f).zip stds))) :
    row.baseline = f row.rollout := by
  induction rollouts generalizing ids stds with
  | nil => cases h
  | cons rollout rollouts ih =>
    cases ids with
    | nil => cases h
    | cons id ids =>
      cases stds with
      | nil => cases h
      | cons std stds =>
        obtain rfl | hrest := List.mem_cons.mp h
        · rfl
        · exact ih hrest

theorem keptRows_baseline {batch : GenerationBatch P D K} {n : ℕ} {row : ScoredRow P D K}
    (h : row ∈ keptRows A cfg batch n) :
    row.baseline = baselineOf cfg.useLeaveOneOutBaseline
        ((batch.groupOf row.rollout.prompt).map Rollout.totalReward) row.rollout.totalReward ∧
      row.trainingReward = row.rollout.totalReward := by
  obtain ⟨scored,hscored,rfl⟩ := List.mem_map.mp h
  have hstd : ∀ s ∈ batch.stdRewards cfg, s.length = batch.rollouts.length := by
    intro s hs
    rw [GenerationBatch.stdRewards] at hs
    split_ifs at hs
    · obtain rfl := Option.mem_some_iff.mp hs
      exact List.length_map _
    · cases hs
  have hbaselines : (batch.baselineAndStd A cfg).1 = _ := calculate_baseline A
    cfg.useLeaveOneOutBaseline batch.rollouts Rollout.prompt Rollout.totalReward hstd
  have hmem := (List.mem_filter.mp hscored).1
  rw [GenerationBatch.scored] at hmem
  dsimp only at hmem
  rw [hbaselines] at hmem
  exact ⟨mem_zipped hmem,rfl⟩

theorem wholeGroups_unchanged {batches : List (GenerationBatch P D K)} {rows : List (ScoredRow P D K)}
    (h : TrainsWholeGroups A cfg batches rows) : AdvantagesUnchanged A cfg rows := by
  intro mask hmask
  have hnone : ∀ s ∈ (none : Option (List K)), s.length = rows.length := fun s hs => by cases hs
  have hbaselines := calculate_baseline A cfg.useLeaveOneOutBaseline rows
    (fun row => row.rollout.prompt) ScoredRow.trainingReward hnone
  have hrows : List.zipWith (· - ·) (rows.map ScoredRow.trainingReward) (rows.map fun row =>
        baselineOf cfg.useLeaveOneOutBaseline
          ((rows.filter fun other => other.rollout.prompt = row.rollout.prompt).map
            ScoredRow.trainingReward) row.trainingReward) =
      rows.map fun row => row.rollout.totalReward - row.baseline := by
    rw [List.zipWith_map,List.zipWith_self]
    refine List.map_congr_left fun row hrow => ?_
    obtain ⟨entry,-,hkept,hgroup⟩ := h row hrow
    obtain ⟨hbaseline,hreward⟩ := keptRows_baseline hkept
    have hrewards : (rows.filter fun other => other.rollout.prompt = row.rollout.prompt).map
        ScoredRow.trainingReward = (entry.1.groupOf row.rollout.prompt).map Rollout.totalReward := by
      rw [← hgroup,List.map_map]
      refine List.map_congr_left fun other hother => ?_
      obtain ⟨_,-,hother',-⟩ := h other (List.mem_filter.mp hother).1
      exact (keptRows_baseline hother').2
    rw [hrewards,hreward,hbaseline]
  rw [stepAdvantages,computeAdvantage]
  dsimp only
  rw [List.length_map,hbaselines,hrows]
  simp only [Bool.false_eq_true,if_false]
  rw [List.zipWith_map_left]

end Rows

section Steps

variable [FloorSemiring K] (A : Arithmetic K) (cfg : GrpoConfig K)

/-- A step that some run over the generation batches completes: the generation batches it is made
from and the rows it trains on. -/
def CompletesStep (batches pending : List (GenerationBatch P D K)) (rows : List (ScoredRow P D K)) :
    Prop :=
  ∃ done batch results s out s', done ++ [batch] <+: batches ∧
    samplingRun A cfg done = .ok (results,s) ∧ generationStep A cfg s batch = .ok (out,s') ∧
    out.isBatchComplete = true ∧ pending = pendingBatches done results ++ [batch] ∧
    rows = out.batch.rows

/-- Every step of every run trains on the advantages its rows had before they were selected. -/
def TrimmingExact (batches : List (GenerationBatch P D K)) : Prop :=
  ∀ pending rows, CompletesStep A cfg batches pending rows → AdvantagesUnchanged A cfg rows

variable {A cfg}

end Steps

/-- Two prompts whose groups are kept and one whose rewards are all equal. -/
def threePrompts : GenerationBatch ℕ Unit ℚ :=
  exampleBatch [(0,0),(0,0),(0,0),(0,2),(1,1),(1,1),(1,1),(1,1),(2,0),(2,4),(2,0),(2,0)]

/-- The rows that the step over `threePrompts` trains on. -/
def trainedRows : List (ScoredRow ℕ Unit ℚ) :=
  (keptRows rationalArithmetic (exampleConfig false 2 4) threePrompts 1).take 8

def samePrompt (reward : ℚ) : GenerationBatch ℕ Unit ℚ :=
  exampleBatch [(0,0),(0,0),(0,0),(0,reward),(1,1),(1,1),(1,1),(1,1)]

def mergedRows : List (ScoredRow ℕ Unit ℚ) :=
  keptRows rationalArithmetic (exampleConfig false 2 4) (samePrompt 2) 1 ++
    keptRows rationalArithmetic (exampleConfig false 2 4) (samePrompt 4) 2

section Columns

variable {P K : Type} [Field K] [LinearOrder K] [LinearOrder P] {b s : ℕ}

variable (A : Arithmetic K)

/-- `calculate_baseline_and_std_per_prompt` on whole columns, all of whose rows are valid. -/
def columnStats (leaveOneOut : Bool) (promptIds : Fin b → P) (rewards : Fin b → K) :
    List K × List K :=
  calculateBaselineAndStdPerPrompt A (List.ofFn promptIds) (List.ofFn rewards)
    (List.replicate (List.ofFn rewards).length true) leaveOneOut none

theorem length_columnStats (leaveOneOut : Bool) (promptIds : Fin b → P) (rewards : Fin b → K) :
    (columnStats A leaveOneOut promptIds rewards).1.length = b ∧
      (columnStats A leaveOneOut promptIds rewards).2.length = b := by
  have hlen := @length_calculate P K _ _ A leaveOneOut (List.ofFn rewards)
    (List.replicate (List.ofFn rewards).length true) none _ (List.ofFn promptIds)
  rwa [← columnStats,List.length_ofFn] at hlen

def baseline (leaveOneOut : Bool) (promptIds : Fin b → P) (rewards : Fin b → K) (i : Fin b) : K :=
  (columnStats A leaveOneOut promptIds rewards).1.get
    (i.cast (length_columnStats A leaveOneOut promptIds rewards).1.symm)

def std (leaveOneOut : Bool) (promptIds : Fin b → P) (rewards : Fin b → K) (i : Fin b) : K :=
  (columnStats A leaveOneOut promptIds rewards).2.get
    (i.cast (length_columnStats A leaveOneOut promptIds rewards).2.symm)

theorem columnStats_eq (leaveOneOut : Bool) (promptIds : Fin b → P) (rewards : Fin b → K) :
    columnStats A leaveOneOut promptIds rewards =
      (List.ofFn (baseline A leaveOneOut promptIds rewards),
        List.ofFn (std A leaveOneOut promptIds rewards)) := by
  have hlen := length_columnStats A leaveOneOut promptIds rewards
  refine Prod.ext ?_ ?_
  · exact List.ext_getElem (by simp [hlen.1]) fun i hi hj => by simp [baseline]
  · exact List.ext_getElem (by simp [hlen.2]) fun i hi hj => by simp [std]

end Columns

end Grpo
end DockyardRL
