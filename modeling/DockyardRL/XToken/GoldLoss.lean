import Mathlib.Algebra.BigOperators.Group.List.Basic
import Mathlib.Algebra.Order.Field.Basic
import Mathlib.Algebra.Order.Group.Unbundled.Abs
import Mathlib.Data.List.Sort
import Mathlib.Algebra.BigOperators.Ring.List
import Mathlib.Data.List.GetD
import Mathlib.Tactic.Linarith
import Mathlib.Tactic.Positivity

/-! The loss of a teacher with another vocabulary: a divergence on the tokens that both have, and a
distance of the sorted probabilities of the others, over the valid chunks of the rows.

What the micro-batches add up to. The number of chunks is reduced for every micro-batch, over all
the ranks; the values add up to the mean over the global batch when these numbers are that of the
global batch. -/
namespace DockyardRL
namespace XToken

/-- The chunks of a row: the chunk of every position (`-1` for none), and the pairs that count. -/
structure ChunkLayout where
  studentChunkId : List ℤ
  teacherChunkId : List ℤ
  pairValid : List Bool
  sampleMask : Bool

/-- The log-probabilities are those of a position and a token. -/
structure GoldRow (K : Type) extends ChunkLayout where
  studentLogProbs : ℕ → ℕ → K
  teacherLogProbs : ℕ → ℕ → K

def chunkSize (chunkId : List ℤ) (c : ℕ) : ℕ := chunkId.count (c : ℤ)

/-- `valid_chunk_mask` and the sample mask. -/
def ChunkLayout.validChunk (l : ChunkLayout) (c : ℕ) : Bool :=
  0 < chunkSize l.studentChunkId c ∧ 0 < chunkSize l.teacherChunkId c ∧
    l.pairValid.getD c false = true ∧ l.sampleMask = true

def ChunkLayout.validChunks (l : ChunkLayout) : List ℕ :=
  (List.range l.pairValid.length).filter l.validChunk

/-- `build_exact_token_map`. -/
structure VocabPartition where
  commonStudent : List ℕ
  commonTeacher : List ℕ
  uncommonStudent : List ℕ
  uncommonTeacher : List ℕ
  length_common : commonTeacher.length = commonStudent.length

section Loss

variable {K : Type} [Field K] [LinearOrder K]

/-- `chunk_log_prob_sums`. -/
def chunkLogProbSum (logProbs : ℕ → ℕ → K) (chunkId : List ℤ) (c token : ℕ) : K :=
  (chunkId.zipIdx.map fun p => if p.1 = (c : ℤ) then logProbs p.2 token else 0).sum

/-- `chunk_average_finalize`. -/
def chunkAverageLogProb (logProbs : ℕ → ℕ → K) (chunkId : List ℤ) (c token : ℕ) : K :=
  chunkLogProbSum logProbs chunkId c token / (chunkSize chunkId c + 1 / (10 : ℕ) ^ 10)

/-- What `CrossTokenizerDistillationLossFn` is configured with. -/
structure GoldLossFn (K : Type) where
  temperature : K
  reverseKl : Bool
  uncommonTopk : ℤ
  partition : VocabPartition

variable (exp : K → K) (lossFn : GoldLossFn K)

/-- An element of `kl_div` with a logarithmic target. -/
def klDiv (input target : K) : K := exp target * (target - input)

def klPerChunk (row : GoldRow K) (c : ℕ) : K :=
  let studentCommon := lossFn.partition.commonStudent.map
    (chunkAverageLogProb row.studentLogProbs row.studentChunkId c)
  let teacherCommon := lossFn.partition.commonTeacher.map
    (chunkAverageLogProb row.teacherLogProbs row.teacherChunkId c)
  (List.zipWith (fun s t => if lossFn.reverseKl then klDiv exp t s else klDiv exp s t)
    studentCommon teacherCommon).sum

def maxUncommon : ℤ :=
  min (min (lossFn.partition.uncommonStudent.length : ℤ) lossFn.partition.uncommonTeacher.length)
    lossFn.uncommonTopk

def sortedProbs (k : ℕ) (tokens : List ℕ) (logProb : ℕ → K) : List K :=
  ((tokens.map fun token => exp (logProb token)).insertionSort (· ≥ ·)).take k

def l1PerChunk (row : GoldRow K) (c : ℕ) : K :=
  let k := (maxUncommon lossFn).toNat
  (List.zipWith (fun s t => |s - t|)
    (sortedProbs exp k lossFn.partition.uncommonStudent
      (chunkAverageLogProb row.studentLogProbs row.studentChunkId c))
    (sortedProbs exp k lossFn.partition.uncommonTeacher
      (chunkAverageLogProb row.teacherLogProbs row.teacherChunkId c))).sum

/-- What `_compute_gold` returns. -/
structure GoldResult (K : Type) where
  loss : K
  klCommon : K
  l1Uncommon : K
  numValidChunks : ℕ

/-- `valid_chunk.sum()` of a micro-batch. -/
def numValidChunks {ρ : Type} (layout : ρ → ChunkLayout) (rows : List ρ) : ℕ :=
  (rows.map fun row => (layout row).validChunks.length).sum

/-- `_compute_gold` on the rows of a micro-batch, where the ranks of the job have reduced the number
of their valid chunks to `globalValidChunks`. -/
def computeGold (globalValidChunks : ℕ) (rows : List (GoldRow K)) : GoldResult K :=
  if globalValidChunks = 0 then ⟨0,0,0,0⟩
  else
    let klCommon := if lossFn.partition.commonStudent ≠ [] then
        (rows.map fun row => (row.validChunks.map (klPerChunk exp lossFn row)).sum).sum /
          max (globalValidChunks : K) 1
      else 0
    let valid := numValidChunks GoldRow.toChunkLayout rows
    let l1Uncommon := if (lossFn.partition.uncommonStudent ≠ [] ∨
        lossFn.partition.uncommonTeacher ≠ []) ∧ 0 < valid ∧ 0 < maxUncommon lossFn then
        (rows.map fun row => (row.validChunks.map (l1PerChunk exp lossFn row)).sum).sum /
          max (globalValidChunks : K) 1
      else 0
    ⟨(klCommon + l1Uncommon) * (lossFn.temperature * lossFn.temperature),klCommon,l1Uncommon,valid⟩

/-- Rows on data-parallel ranks, cut into micro-batches. -/
structure Spread (ρ : Type) where
  ranks : List (List (List ρ))
  microBatches : ℕ
  length_ranks : ∀ rank ∈ ranks, rank.length = microBatches

def Spread.map {ρ σ : Type} (f : ρ → σ) (spread : Spread ρ) : Spread σ :=
  ⟨spread.ranks.map (List.map (List.map f)),spread.microBatches,fun rank hrank => by
    obtain ⟨r,hr,rfl⟩ := List.mem_map.mp hrank
    rw [List.length_map,spread.length_ranks r hr]⟩

def Spread.rows {ρ : Type} (spread : Spread ρ) : List ρ := spread.ranks.flatten.flatten

/-- The number of valid chunks of all the micro-batches `i`, on the data-parallel ranks. -/
def Spread.chunksAt {ρ : Type} (layout : ρ → ChunkLayout) (spread : Spread ρ) (i : ℕ) : ℕ :=
  (spread.ranks.map fun rank => numValidChunks layout (rank.getD i [])).sum

/-- `group_all_reduce_sum` over all the ranks: every rank of a tensor-parallel group has the rows of
its data-parallel rank. -/
def globalValidChunks (tpSize : ℕ) (spread : Spread (GoldRow K)) (i : ℕ) : ℕ :=
  tpSize * spread.chunksAt GoldRow.toChunkLayout i

def goldRun (tpSize : ℕ) (spread : Spread (GoldRow K)) : List (List K) :=
  spread.ranks.map fun rank => (List.range spread.microBatches).map fun i =>
    (computeGold exp lossFn (globalValidChunks tpSize spread i) (rank.getD i [])).loss

def chunkTotal (rows : List (GoldRow K)) : K :=
  (rows.map fun row => (row.validChunks.map fun c =>
    klPerChunk exp lossFn row c + l1PerChunk exp lossFn row c).sum).sum

def globalGold (rows : List (GoldRow K)) : K :=
  lossFn.temperature * lossFn.temperature *
    (chunkTotal exp lossFn rows / numValidChunks GoldRow.toChunkLayout rows)

/-- The values add up to the mean over the global batch. -/
def MeanOverBatch (tpSize : ℕ) (spread : Spread (GoldRow K)) : Prop :=
  (goldRun exp lossFn tpSize spread).flatten.sum = globalGold exp lossFn spread.rows

end Loss

variable {K : Type} [Field K] [LinearOrder K]

section MicroBatches

variable {exp : K → K} {lossFn : GoldLossFn K}

/-- No term of the loss is computed. -/
def NoTerms (lossFn : GoldLossFn K) : Prop :=
  lossFn.partition.commonStudent = [] ∧ maxUncommon lossFn ≤ 0

omit [LinearOrder K] in
theorem klPerChunk_of_nil (h : lossFn.partition.commonStudent = []) (row : GoldRow K) :
    klPerChunk exp lossFn row = fun _ => 0 := by
  funext c
  simp [klPerChunk,h]

theorem l1PerChunk_of_le (h : maxUncommon lossFn ≤ 0) (row : GoldRow K) :
    l1PerChunk exp lossFn row = fun _ => 0 := by
  funext c
  simp [l1PerChunk,sortedProbs,Int.toNat_of_nonpos h]

omit [Field K] [LinearOrder K] in
theorem maxUncommon_nil (h : ¬(lossFn.partition.uncommonStudent ≠ [] ∨
    lossFn.partition.uncommonTeacher ≠ [])) : maxUncommon lossFn ≤ 0 := by
  rw [not_or,not_not,not_not] at h
  simp [maxUncommon,h.1,h.2]

omit [Field K] [LinearOrder K] in
theorem validChunks_of_numValidChunks {rows : List (GoldRow K)}
    (h : numValidChunks GoldRow.toChunkLayout rows = 0) {row : GoldRow K} (hrow : row ∈ rows) :
    row.validChunks = [] :=
  List.length_eq_zero_iff.mp (List.sum_eq_zero_iff.mp h _ (List.mem_map_of_mem hrow))

theorem chunkTotal_of_numValidChunks {rows : List (GoldRow K)}
    (h : numValidChunks GoldRow.toChunkLayout rows = 0) : chunkTotal exp lossFn rows = 0 := by
  refine List.sum_eq_zero fun x hx => ?_
  obtain ⟨row,hrow,rfl⟩ := List.mem_map.mp hx
  rw [validChunks_of_numValidChunks h hrow]
  rfl

theorem computeGold_loss {count : ℕ} {rows : List (GoldRow K)}
    (hcount : count = 0 → numValidChunks GoldRow.toChunkLayout rows = 0) :
    (computeGold exp lossFn count rows).loss = chunkTotal exp lossFn rows / max (count : K) 1 *
      (lossFn.temperature * lossFn.temperature) := by
  by_cases hzero : count = 0
  · rw [computeGold,if_pos hzero,chunkTotal_of_numValidChunks (hcount hzero),zero_div,zero_mul]
  · have hsum : chunkTotal exp lossFn rows =
        (rows.map fun row => (row.validChunks.map (klPerChunk exp lossFn row)).sum).sum +
          (rows.map fun row => (row.validChunks.map (l1PerChunk exp lossFn row)).sum).sum := by
      simp only [chunkTotal,List.sum_map_add]
    have hkl : (if lossFn.partition.commonStudent ≠ [] then
        (rows.map fun row => (row.validChunks.map (klPerChunk exp lossFn row)).sum).sum /
          max (count : K) 1 else 0) =
        (rows.map fun row => (row.validChunks.map (klPerChunk exp lossFn row)).sum).sum /
          max (count : K) 1 := by
      split_ifs with hcommon
      · rfl
      · simp [klPerChunk_of_nil (not_not.mp hcommon)]
    have hl1 : (if (lossFn.partition.uncommonStudent ≠ [] ∨ lossFn.partition.uncommonTeacher ≠ []) ∧
        0 < numValidChunks GoldRow.toChunkLayout rows ∧ 0 < maxUncommon lossFn then
        (rows.map fun row => (row.validChunks.map (l1PerChunk exp lossFn row)).sum).sum /
          max (count : K) 1 else 0) =
        (rows.map fun row => (row.validChunks.map (l1PerChunk exp lossFn row)).sum).sum /
          max (count : K) 1 := by
      split_ifs with hactive
      · rfl
      · by_cases hle : maxUncommon lossFn ≤ 0
        · simp [l1PerChunk_of_le hle]
        · have hvalid : numValidChunks GoldRow.toChunkLayout rows = 0 := by
            by_contra hne
            exact hactive ⟨not_not.mp fun h => hle (maxUncommon_nil h),Nat.pos_of_ne_zero hne,
              not_le.mp hle⟩
          have hempty : (rows.map fun row =>
              (row.validChunks.map (l1PerChunk exp lossFn row)).sum).sum = 0 := by
            refine List.sum_eq_zero fun x hx => ?_
            obtain ⟨row,hrow,rfl⟩ := List.mem_map.mp hx
            rw [validChunks_of_numValidChunks hvalid hrow]
            rfl
          rw [hempty,zero_div]
    rw [computeGold,if_neg hzero]
    dsimp only
    rw [hkl,hl1,hsum,add_div]

theorem chunkTotal_append (rows rows' : List (GoldRow K)) :
    chunkTotal exp lossFn (rows ++ rows') =
      chunkTotal exp lossFn rows + chunkTotal exp lossFn rows' := by
  rw [chunkTotal,List.map_append,List.sum_append,chunkTotal,chunkTotal]

theorem chunkTotal_flatten (batches : List (List (GoldRow K))) :
    chunkTotal exp lossFn batches.flatten = (batches.map (chunkTotal exp lossFn)).sum := by
  induction batches with
  | nil => rfl
  | cons rows batches ih => rw [List.flatten_cons,chunkTotal_append,ih,List.map_cons,List.sum_cons]

theorem noTerms_chunkTotal (h : NoTerms lossFn) (rows : List (GoldRow K)) :
    chunkTotal exp lossFn rows = 0 := by
  simp [chunkTotal,klPerChunk_of_nil h.1,l1PerChunk_of_le h.2]

end MicroBatches

section Job

variable {exp : K → K} {lossFn : GoldLossFn K} {tpSize : ℕ} {spread : Spread (GoldRow K)}

theorem numValidChunks_le {ρ : Type} {layout : ρ → ChunkLayout} {spread : Spread ρ}
    {rank : List (List ρ)} (hrank : rank ∈ spread.ranks) (i : ℕ) :
    numValidChunks layout (rank.getD i []) ≤ spread.chunksAt layout i :=
  List.single_le_sum (fun _ _ => Nat.zero_le _) _ (List.mem_map_of_mem hrank)

omit [Field K] [LinearOrder K] in
theorem numValidChunks_map (rows : List (GoldRow K)) :
    numValidChunks GoldRow.toChunkLayout rows =
      numValidChunks id (rows.map GoldRow.toChunkLayout) := by
  rw [numValidChunks,numValidChunks,List.map_map]
  rfl

omit [Field K] [LinearOrder K] in
theorem rows_map : (spread.map GoldRow.toChunkLayout).rows =
    spread.rows.map GoldRow.toChunkLayout := by
  simp only [Spread.rows,Spread.map,List.map_flatten]

omit [Field K] [LinearOrder K] in
theorem chunksAt_map (i : ℕ) : (spread.map GoldRow.toChunkLayout).chunksAt id i =
    spread.chunksAt GoldRow.toChunkLayout i := by
  rw [Spread.chunksAt,Spread.chunksAt,Spread.map,List.map_map]
  refine congrArg List.sum (List.map_congr_left fun rank _ => ?_)
  rw [Function.comp_apply,numValidChunks_map]
  exact congrArg (numValidChunks id) (List.getD_map rank [] (List.map GoldRow.toChunkLayout))

/-- All the values, micro-batch by micro-batch. -/
theorem goldRun_sum (htp : 0 < tpSize) : (goldRun exp lossFn tpSize spread).flatten.sum =
    (spread.ranks.map fun rank => ((List.range spread.microBatches).map fun i =>
      chunkTotal exp lossFn (rank.getD i []) /
        max ((globalValidChunks tpSize spread i : ℕ) : K) 1).sum).sum *
          (lossFn.temperature * lossFn.temperature) := by
  rw [goldRun,List.sum_flatten,List.map_map,← List.sum_map_mul_right]
  refine congrArg List.sum (List.map_congr_left fun rank hrank => ?_)
  rw [Function.comp_apply,← List.sum_map_mul_right]
  refine congrArg List.sum (List.map_congr_left fun i _ => computeGold_loss fun hzero => ?_)
  have hnone : spread.chunksAt GoldRow.toChunkLayout i = 0 :=
    (Nat.mul_eq_zero.mp hzero).resolve_left htp.ne'
  exact Nat.le_zero.mp (hnone ▸ numValidChunks_le hrank i)

/-- The rows are those of all the micro-batches. -/
theorem chunkTotal_rows : chunkTotal exp lossFn spread.rows =
    (spread.ranks.map fun rank => ((List.range spread.microBatches).map fun i =>
      chunkTotal exp lossFn (rank.getD i [])).sum).sum := by
  rw [Spread.rows,chunkTotal_flatten,List.map_flatten,List.sum_flatten,List.map_map]
  refine congrArg List.sum (List.map_congr_left fun rank hrank => congrArg List.sum ?_)
  refine List.ext_getElem ?_ fun i hi _ => ?_
  · rw [List.length_map,List.length_map,List.length_range,spread.length_ranks rank hrank]
  · have hlt : i < rank.length := by simpa using hi
    rw [List.getElem_map,List.getElem_map,List.getElem_range,List.getD_eq_getElem _ _ hlt]

/-- Values that are all divided by the same number. -/
theorem goldRun_of_divisor (htp : 0 < tpSize) {divisor : K}
    (hterm : ∀ rank ∈ spread.ranks, ∀ i < spread.microBatches,
      chunkTotal exp lossFn (rank.getD i []) /
        max ((globalValidChunks tpSize spread i : ℕ) : K) 1 =
      chunkTotal exp lossFn (rank.getD i []) / divisor) :
    (goldRun exp lossFn tpSize spread).flatten.sum =
      lossFn.temperature * lossFn.temperature * (chunkTotal exp lossFn spread.rows / divisor) := by
  rw [goldRun_sum htp,chunkTotal_rows,mul_comm]
  congr 1
  rw [div_eq_mul_inv,← List.sum_map_mul_right]
  refine congrArg List.sum (List.map_congr_left fun rank hrank => ?_)
  rw [← List.sum_map_mul_right]
  refine congrArg List.sum (List.map_congr_left fun i hi => ?_)
  rw [← div_eq_mul_inv]
  exact hterm rank hrank i (List.mem_range.mp hi)

/-- Where every number that is reduced is that of the global batch, the values are a mean. -/
theorem meanOverBatch_of_counts [IsStrictOrderedRing K] (htp : 0 < tpSize)
    (hcounts : ∀ i < spread.microBatches, 0 < spread.chunksAt GoldRow.toChunkLayout i →
      globalValidChunks tpSize spread i = numValidChunks GoldRow.toChunkLayout spread.rows) :
    MeanOverBatch exp lossFn tpSize spread := by
  refine goldRun_of_divisor htp fun rank hrank i hi => ?_
  rcases Nat.eq_zero_or_pos (spread.chunksAt GoldRow.toChunkLayout i) with hnone | hsome
  · have hrows : numValidChunks GoldRow.toChunkLayout (rank.getD i []) = 0 :=
      Nat.le_zero.mp (hnone ▸ numValidChunks_le hrank i)
    rw [chunkTotal_of_numValidChunks hrows,zero_div,zero_div]
  · have hone : 1 ≤ globalValidChunks tpSize spread i := Nat.mul_pos htp hsome
    rw [max_eq_left (by exact_mod_cast hone),hcounts i hi hsome]

/-- A loss that has no terms is the mean of nothing. -/
theorem meanOverBatch_of_noTerms (htp : 0 < tpSize) (h : NoTerms lossFn) :
    MeanOverBatch exp lossFn tpSize spread := by
  refine goldRun_of_divisor htp fun rank _ i _ => ?_
  rw [noTerms_chunkTotal h,zero_div,zero_div]

end Job

end XToken
end DockyardRL
