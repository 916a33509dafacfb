import Mathlib.Analysis.SpecialFunctions.Log.Basic
import DockyardRL.XToken.GoldLoss

/-! Which numbers of chunks the values need. Rows whose tables are constant tell one micro-batch from
the others: only its chunks have a divergence. -/
namespace DockyardRL
namespace XToken

variable {K : Type} [Field K] [LinearOrder K] [IsStrictOrderedRing K]

section Constant

variable {exp : K → K} {lossFn : GoldLossFn K}

/-- A row whose student has the log-probability `0` everywhere, and whose teacher has `shift`. -/
def probeRow (shift : K) (l : ChunkLayout) : GoldRow K :=
  { l with studentLogProbs := fun _ _ => 0, teacherLogProbs := fun _ _ => shift }

def averageWeight (chunkId : List ℤ) (c : ℕ) : K :=
  chunkSize chunkId c / (chunkSize chunkId c + 1 / (10 : ℕ) ^ 10)

def probeShift (lossFn : GoldLossFn K) : K := if lossFn.reverseKl then -1 else 1

omit [LinearOrder K] [IsStrictOrderedRing K] in
theorem sum_ite_eq_count (x : K) (z : ℤ) (chunkId : List ℤ) :
    (chunkId.map fun a => if a = z then x else 0).sum = chunkId.count z * x := by
  induction chunkId with
  | nil => rw [List.map_nil,List.sum_nil,List.count_nil,Nat.cast_zero,zero_mul]
  | cons a chunkId ih =>
    rw [List.map_cons,List.sum_cons,ih]
    by_cases ha : a = z
    · rw [if_pos ha,ha,List.count_cons_self,Nat.cast_succ]
      ring
    · rw [if_neg ha,List.count_cons_of_ne ha,zero_add]

omit [LinearOrder K] [IsStrictOrderedRing K] in
theorem chunkLogProbSum_const (x : K) (chunkId : List ℤ) (c token : ℕ) :
    chunkLogProbSum (fun _ _ => x) chunkId c token = chunkSize chunkId c * x := by
  rw [chunkLogProbSum,chunkSize,← sum_ite_eq_count]
  conv_rhs => rw [← List.zipIdx_map_fst 0 chunkId,List.map_map]
  rfl

omit [LinearOrder K] [IsStrictOrderedRing K] in
theorem chunkAverageLogProb_const (x : K) (chunkId : List ℤ) (c : ℕ) :
    chunkAverageLogProb (fun _ _ => x) chunkId c = fun _ => averageWeight chunkId c * x := by
  funext token
  rw [chunkAverageLogProb,chunkLogProbSum_const,averageWeight,div_mul_eq_mul_div]

theorem averageWeight_pos {chunkId : List ℤ} {c : ℕ} (h : 0 < chunkSize chunkId c) :
    0 < (averageWeight chunkId c : K) := by
  have hsize : (0 : K) < chunkSize chunkId c := by exact_mod_cast h
  exact div_pos hsize (by positivity)

omit [LinearOrder K] [IsStrictOrderedRing K] in
theorem klPerChunk_probe (shift : K) (l : ChunkLayout) (c : ℕ) :
    klPerChunk exp lossFn (probeRow shift l) c = lossFn.partition.commonStudent.length *
      (if lossFn.reverseKl then klDiv exp (averageWeight l.teacherChunkId c * shift) 0
        else klDiv exp 0 (averageWeight l.teacherChunkId c * shift)) := by
  simp only [klPerChunk,probeRow,chunkAverageLogProb_const,List.map_const',List.zipWith_replicate,
    lossFn.partition.length_common,min_self,List.sum_replicate,nsmul_eq_mul,mul_zero]

omit [Field K] [IsStrictOrderedRing K] in
theorem sortedProbs_const (k : ℕ) (tokens : List ℕ) (x : K) :
    sortedProbs exp k tokens (fun _ => x) = List.replicate (min k tokens.length) (exp x) := by
  have hsorted : (List.replicate tokens.length (exp x)).insertionSort (· ≥ ·) =
      List.replicate tokens.length (exp x) :=
    List.perm_replicate.mp (List.perm_insertionSort _ _)
  rw [sortedProbs,List.map_const',hsorted,List.take_replicate]

omit [IsStrictOrderedRing K] in
theorem l1PerChunk_probe (shift : K) (l : ChunkLayout) (c : ℕ) :
    l1PerChunk exp lossFn (probeRow shift l) c = (maxUncommon lossFn).toNat *
      |exp 0 - exp (averageWeight l.teacherChunkId c * shift)| := by
  have hlengths : min (min (maxUncommon lossFn).toNat lossFn.partition.uncommonStudent.length)
      (min (maxUncommon lossFn).toNat lossFn.partition.uncommonTeacher.length) =
        (maxUncommon lossFn).toNat := by
    rw [maxUncommon]
    omega
  simp only [l1PerChunk,probeRow,chunkAverageLogProb_const,sortedProbs_const,List.zipWith_replicate,
    hlengths,List.sum_replicate,nsmul_eq_mul,mul_zero]

theorem chunkTotal_probe_zero (layouts : List ChunkLayout) :
    chunkTotal exp lossFn (layouts.map (probeRow 0)) = 0 := by
  refine List.sum_eq_zero fun x hx => ?_
  obtain ⟨row,hrow,rfl⟩ := List.mem_map.mp hx
  obtain ⟨l,-,rfl⟩ := List.mem_map.mp hrow
  refine List.sum_eq_zero fun y hy => ?_
  obtain ⟨c,-,rfl⟩ := List.mem_map.mp hy
  rw [klPerChunk_probe,l1PerChunk_probe]
  simp [klDiv]

theorem probeShift_ne_zero : probeShift lossFn ≠ 0 := by
  rw [probeShift]
  split_ifs <;> norm_num

theorem term_probe_pos (hexp : ∀ x, 0 < exp x) (hinj : Function.Injective exp)
    (hterms : ¬NoTerms lossFn) {l : ChunkLayout} {c : ℕ} (hvalid : l.validChunk c = true) :
    0 < klPerChunk exp lossFn (probeRow (probeShift lossFn) l) c +
      l1PerChunk exp lossFn (probeRow (probeShift lossFn) l) c := by
  have hweight : (0 : K) < averageWeight l.teacherChunkId c :=
    averageWeight_pos (of_decide_eq_true hvalid).2.1
  have hentry : 0 < (if lossFn.reverseKl then
      klDiv exp (averageWeight l.teacherChunkId c * probeShift lossFn) 0
        else klDiv exp 0 (averageWeight l.teacherChunkId c * probeShift lossFn)) := by
    rw [probeShift]
    split_ifs
    · exact mul_pos (hexp _) (by linarith)
    · exact mul_pos (hexp _) (by linarith)
  have hdistance : 0 < |exp 0 - exp (averageWeight l.teacherChunkId c * probeShift lossFn)| := by
    refine abs_pos.mpr (sub_ne_zero.mpr fun h => ?_)
    exact mul_ne_zero hweight.ne' probeShift_ne_zero (hinj h).symm
  rw [klPerChunk_probe,l1PerChunk_probe]
  by_cases hcommon : lossFn.partition.commonStudent = []
  · have hmax : 0 < (maxUncommon lossFn).toNat := by
      have hpos : 0 < maxUncommon lossFn := not_le.mp fun h => hterms ⟨hcommon,h⟩
      omega
    rw [hcommon,List.length_nil,Nat.cast_zero,zero_mul,zero_add]
    exact mul_pos (by exact_mod_cast hmax) hdistance
  · have hlength : 0 < lossFn.partition.commonStudent.length := List.length_pos_iff.mpr hcommon
    exact add_pos_of_pos_of_nonneg (mul_pos (by exact_mod_cast hlength) hentry)
      (mul_nonneg (Nat.cast_nonneg _) hdistance.le)

theorem rowTotal_probe_nonneg (hexp : ∀ x, 0 < exp x) (hinj : Function.Injective exp)
    (hterms : ¬NoTerms lossFn) (l : ChunkLayout) :
    ∀ x ∈ l.validChunks.map fun c => klPerChunk exp lossFn (probeRow (probeShift lossFn) l) c +
      l1PerChunk exp lossFn (probeRow (probeShift lossFn) l) c, 0 < x := by
  intro x hx
  obtain ⟨c,hc,rfl⟩ := List.mem_map.mp hx
  exact term_probe_pos hexp hinj hterms (List.mem_filter.mp hc).2

theorem chunkTotal_probe_nonneg (hexp : ∀ x, 0 < exp x) (hinj : Function.Injective exp)
    (hterms : ¬NoTerms lossFn) (layouts : List ChunkLayout) :
    0 ≤ chunkTotal exp lossFn (layouts.map (probeRow (probeShift lossFn))) := by
  refine List.sum_nonneg fun x hx => ?_
  obtain ⟨row,hrow,rfl⟩ := List.mem_map.mp hx
  obtain ⟨l,-,rfl⟩ := List.mem_map.mp hrow
  exact List.sum_nonneg fun y hy => (rowTotal_probe_nonneg hexp hinj hterms l y hy).le

theorem chunkTotal_probe_pos (hexp : ∀ x, 0 < exp x) (hinj : Function.Injective exp)
    (hterms : ¬NoTerms lossFn) {layouts : List ChunkLayout} (h : 0 < numValidChunks id layouts) :
    0 < chunkTotal exp lossFn (layouts.map (probeRow (probeShift lossFn))) := by
  induction layouts with
  | nil => exact absurd h (Nat.lt_irrefl 0)
  | cons l layouts ih =>
    rw [List.map_cons,chunkTotal,List.map_cons,List.sum_cons]
    have hrest := chunkTotal_probe_nonneg hexp hinj hterms layouts
    have hfirst := rowTotal_probe_nonneg hexp hinj hterms l
    by_cases hnone : l.validChunks = []
    · have hlater : 0 < numValidChunks id layouts := by
        simpa [numValidChunks,hnone] using h
      exact add_pos_of_nonneg_of_pos (List.sum_nonneg fun y hy => (hfirst y hy).le) (ih hlater)
    · refine add_pos_of_pos_of_nonneg (List.sum_pos _ hfirst fun hnil => ?_) hrest
      exact hnone (List.map_eq_nil_iff.mp hnil)

end Constant

section Probe

variable {exp : K → K} {lossFn : GoldLossFn K} {tpSize : ℕ}

/-- Rows with the layout, of which only those of the micro-batch `k` have a divergence. -/
def probeSpread (lossFn : GoldLossFn K) (layout : Spread ChunkLayout) (k : ℕ) :
    Spread (GoldRow K) :=
  ⟨layout.ranks.map fun rank => rank.mapIdx fun i layouts =>
      layouts.map (probeRow (if i = k then probeShift lossFn else 0)),
    layout.microBatches,fun rank hrank => by
      obtain ⟨r,hr,rfl⟩ := List.mem_map.mp hrank
      rw [List.length_mapIdx,layout.length_ranks r hr]⟩

omit [LinearOrder K] [IsStrictOrderedRing K] in
theorem probeSpread_map (layout : Spread ChunkLayout) (k : ℕ) :
    (probeSpread lossFn layout k).map GoldRow.toChunkLayout = layout := by
  have hrows : ∀ (shift : K) (layouts : List ChunkLayout),
      (layouts.map (probeRow shift)).map GoldRow.toChunkLayout = layouts := by
    intro shift layouts
    rw [List.map_map]
    exact List.map_id layouts
  have hrank : ∀ rank : List (List ChunkLayout), (rank.mapIdx fun i layouts =>
      layouts.map (probeRow (if i = k then probeShift lossFn else 0))).map
        (List.map GoldRow.toChunkLayout) = rank := by
    intro rank
    refine List.ext_getElem (by rw [List.length_map,List.length_mapIdx]) fun i _ _ => ?_
    rw [List.getElem_map,List.getElem_mapIdx,hrows]
  obtain ⟨ranks,microBatches,hlength⟩ := layout
  simp [probeSpread,Spread.map,Function.comp_def,hrank]

omit [LinearOrder K] [IsStrictOrderedRing K] in
theorem getD_mapIdx_probe (rank : List (List ChunkLayout)) (k i : ℕ) :
    (rank.mapIdx fun i layouts =>
      layouts.map (probeRow (if i = k then probeShift lossFn else 0))).getD i [] =
    (rank.getD i []).map (probeRow (if i = k then probeShift lossFn else 0)) := by
  rw [List.getD_eq_getElem?_getD,List.getD_eq_getElem?_getD,List.getElem?_mapIdx]
  cases rank[i]? with
  | none => rfl
  | some layouts => rfl

theorem chunkTotal_probeSpread {layout : Spread ChunkLayout} {k i : ℕ} (hne : i ≠ k)
    {rank : List (List (GoldRow K))} (hrank : rank ∈ (probeSpread lossFn layout k).ranks) :
    chunkTotal exp lossFn (rank.getD i []) = 0 := by
  obtain ⟨r,-,rfl⟩ := List.mem_map.mp hrank
  rw [getD_mapIdx_probe,if_neg hne,chunkTotal_probe_zero]

theorem chunkTotal_probeSpread_nonneg (hexp : ∀ x, 0 < exp x) (hinj : Function.Injective exp)
    (hterms : ¬NoTerms lossFn) {layout : Spread ChunkLayout} {k : ℕ} (i : ℕ)
    {rank : List (List (GoldRow K))} (hrank : rank ∈ (probeSpread lossFn layout k).ranks) :
    0 ≤ chunkTotal exp lossFn (rank.getD i []) := by
  by_cases hi : i = k
  · obtain ⟨r,-,rfl⟩ := List.mem_map.mp hrank
    rw [getD_mapIdx_probe,if_pos hi]
    exact chunkTotal_probe_nonneg hexp hinj hterms _
  · exact (chunkTotal_probeSpread hi hrank).ge

theorem rows_probeSpread_pos (hexp : ∀ x, 0 < exp x) (hinj : Function.Injective exp)
    (hterms : ¬NoTerms lossFn) {layout : Spread ChunkLayout} {k : ℕ} (hk : k < layout.microBatches)
    (hchunks : 0 < layout.chunksAt id k) :
    0 < chunkTotal exp lossFn (probeSpread lossFn layout k).rows := by
  obtain ⟨n,hn,hpos⟩ : ∃ n ∈ layout.ranks.map fun rank => numValidChunks id (rank.getD k []),
      0 < n := by
    by_contra hnone
    push Not at hnone
    exact hchunks.ne' (List.sum_eq_zero fun n hn => Nat.le_zero.mp (hnone n hn))
  obtain ⟨rank,hrank,rfl⟩ := List.mem_map.mp hn
  have hprobe : (rank.mapIdx fun i layouts =>
      layouts.map (probeRow (if i = k then probeShift lossFn else 0))) ∈
        (probeSpread lossFn layout k).ranks :=
    List.mem_map_of_mem hrank
  have hvalue : 0 < chunkTotal exp lossFn ((rank.mapIdx fun i layouts =>
      layouts.map (probeRow (if i = k then probeShift lossFn else 0))).getD k []) := by
    rw [getD_mapIdx_probe,if_pos rfl]
    exact chunkTotal_probe_pos hexp hinj hterms hpos
  have hranks : ∀ x ∈ (probeSpread lossFn layout k).ranks.map fun rank =>
      ((List.range (probeSpread lossFn layout k).microBatches).map fun i =>
        chunkTotal exp lossFn (rank.getD i [])).sum, 0 ≤ x := by
    intro x hx
    obtain ⟨r,hr,rfl⟩ := List.mem_map.mp hx
    refine List.sum_nonneg fun y hy => ?_
    obtain ⟨i,-,rfl⟩ := List.mem_map.mp hy
    exact chunkTotal_probeSpread_nonneg hexp hinj hterms i hr
  rw [chunkTotal_rows]
  refine lt_of_lt_of_le hvalue (le_trans ?_ (List.single_le_sum hranks _
    (List.mem_map_of_mem hprobe)))
  refine List.single_le_sum (fun y hy => ?_) _ (List.mem_map_of_mem (List.mem_range.mpr hk))
  obtain ⟨i,-,rfl⟩ := List.mem_map.mp hy
  exact chunkTotal_probeSpread_nonneg hexp hinj hterms i hprobe

theorem counts_of_probe (hexp : ∀ x, 0 < exp x) (hinj : Function.Injective exp)
    (htp : 0 < tpSize) (htemperature : lossFn.temperature ≠ 0) (hterms : ¬NoTerms lossFn)
    {layout : Spread ChunkLayout} {k : ℕ} (hk : k < layout.microBatches)
    (hchunks : 0 < layout.chunksAt id k)
    (hmean : MeanOverBatch exp lossFn tpSize (probeSpread lossFn layout k)) :
    tpSize * layout.chunksAt id k = numValidChunks id layout.rows := by
  have htotal := rows_probeSpread_pos (K := K) hexp hinj hterms hk hchunks
  have hcount : globalValidChunks tpSize (probeSpread lossFn layout k) k =
      tpSize * layout.chunksAt id k := by
    rw [globalValidChunks,← chunksAt_map,probeSpread_map]
  have hrun : (goldRun exp lossFn tpSize (probeSpread lossFn layout k)).flatten.sum =
      lossFn.temperature * lossFn.temperature * (chunkTotal exp lossFn
        (probeSpread lossFn layout k).rows /
          max ((globalValidChunks tpSize (probeSpread lossFn layout k) k : ℕ) : K) 1) := by
    refine goldRun_of_divisor htp fun rank hrank i _ => ?_
    by_cases hi : i = k
    · rw [hi]
    · rw [chunkTotal_probeSpread hi hrank,zero_div,zero_div]
  rw [hmean,globalGold] at hrun
  have hdivisors := mul_left_cancel₀ (mul_ne_zero htemperature htemperature) hrun
  have hone : 1 ≤ tpSize * layout.chunksAt id k := Nat.mul_pos htp hchunks
  rw [hcount,max_eq_left (by exact_mod_cast hone),div_eq_mul_inv,div_eq_mul_inv] at hdivisors
  have hcounts := inv_injective (mul_left_cancel₀ htotal.ne' hdivisors)
  rw [numValidChunks_map,← rows_map,probeSpread_map] at hcounts
  exact_mod_cast hcounts.symm

/-- Whatever the log-probabilities are, the values of the micro-batches and of the data-parallel
ranks add up to the mean over the global batch: when the loss has terms, exactly if every micro-batch
that has valid chunks reduces, over all the ranks, as many as the global batch has. -/
theorem meanOverBatch_iff (hexp : ∀ x, 0 < exp x) (hinj : Function.Injective exp)
    (htp : 0 < tpSize) (layout : Spread ChunkLayout) :
    (∀ spread : Spread (GoldRow K), spread.map GoldRow.toChunkLayout = layout →
      MeanOverBatch exp lossFn tpSize spread) ↔
    lossFn.temperature = 0 ∨ NoTerms lossFn ∨
      ∀ i < layout.microBatches, 0 < layout.chunksAt id i →
        tpSize * layout.chunksAt id i = numValidChunks id layout.rows := by
  constructor
  · intro hmean
    by_cases htemperature : lossFn.temperature = 0
    · exact .inl htemperature
    · by_cases hterms : NoTerms lossFn
      · exact .inr (.inl hterms)
      · refine .inr (.inr fun i hi hchunks => ?_)
        exact counts_of_probe hexp hinj htp htemperature hterms hi hchunks
          (hmean _ (probeSpread_map layout i))
  · rintro (htemperature | hterms | hcounts) spread rfl
    · rw [MeanOverBatch,goldRun_sum htp,globalGold,htemperature,mul_zero,mul_zero,zero_mul]
    · exact meanOverBatch_of_noTerms htp hterms
    · refine meanOverBatch_of_counts htp fun i hi hchunks => ?_
      rw [globalValidChunks,numValidChunks_map,← rows_map,← chunksAt_map]
      exact hcounts i hi (by rwa [chunksAt_map])

end Probe

def oneChunk : ChunkLayout := ⟨[0],[0],[true],true⟩

/-- The token `0` is common, the token `1` is not. -/
def goldLoss : GoldLossFn ℝ := ⟨1,false,8192,⟨[0],[0],[1],[1],rfl⟩⟩

/-- The student gives `1/2` to both tokens, the teacher `3/4` and `1/4`. -/
noncomputable def goldRow : GoldRow ℝ :=
  { oneChunk with
    studentLogProbs := fun _ _ => Real.log (1 / (2 : ℕ))
    teacherLogProbs := fun _ token =>
      if token = 0 then Real.log ((3 : ℕ) / (4 : ℕ)) else Real.log (1 / (4 : ℕ)) }

noncomputable def oneMicroBatch : Spread (GoldRow ℝ) := ⟨[[[goldRow,goldRow]]],1,by simp⟩

theorem oneMicroBatch_sum : MeanOverBatch Real.exp goldLoss 1 oneMicroBatch :=
  (meanOverBatch_iff Real.exp_pos Real.exp_injective Nat.one_pos
    ⟨[[[oneChunk,oneChunk]]],1,by simp⟩).mpr (.inr (.inr (by decide))) oneMicroBatch rfl

noncomputable def twoMicroBatches : Spread (GoldRow ℝ) := ⟨[[[goldRow],[goldRow]]],2,by simp⟩

theorem klPerChunk_goldRow : 0 < klPerChunk Real.exp goldLoss goldRow 0 := by
  have hvalue : klPerChunk Real.exp goldLoss goldRow 0 =
      Real.exp (Real.log (3 / 4) / (1 + 1 / 10 ^ 10)) *
        (Real.log (3 / 4) / (1 + 1 / 10 ^ 10) - Real.log (1 / 2) / (1 + 1 / 10 ^ 10)) := by
    simp [klPerChunk,goldLoss,goldRow,oneChunk,chunkAverageLogProb,chunkLogProbSum,chunkSize,klDiv]
  have hless : Real.log (1 / 2) / (1 + 1 / 10 ^ 10) < Real.log (3 / 4) / (1 + 1 / 10 ^ 10) :=
    div_lt_div_of_pos_right (Real.log_lt_log (by norm_num) (by norm_num)) (by norm_num)
  rw [hvalue]
  exact mul_pos (Real.exp_pos _) (sub_pos.mpr hless)

theorem chunkTotal_goldRow : 0 < chunkTotal Real.exp goldLoss [goldRow] := by
  have hvalid : goldRow.validChunks = [0] := by decide
  have hdistance : 0 ≤ l1PerChunk Real.exp goldLoss goldRow 0 := by
    rw [l1PerChunk]
    refine List.sum_nonneg fun x hx => ?_
    rw [← List.map_uncurry_zip_eq_zipWith] at hx
    obtain ⟨⟨s,t⟩,-,rfl⟩ := List.mem_map.mp hx
    exact abs_nonneg _
  rw [chunkTotal,List.map_singleton,List.sum_singleton,hvalid,List.map_singleton,List.sum_singleton]
  exact add_pos_of_pos_of_nonneg klPerChunk_goldRow hdistance

/-- Each of the two micro-batches divides by its own chunk. -/
theorem twoMicroBatches_sum : ¬MeanOverBatch Real.exp goldLoss 1 twoMicroBatches := by
  intro hmean
  have hrun : (goldRun Real.exp goldLoss 1 twoMicroBatches).flatten.sum =
      goldLoss.temperature * goldLoss.temperature *
        (chunkTotal Real.exp goldLoss twoMicroBatches.rows / 1) := by
    refine goldRun_of_divisor Nat.one_pos fun rank _ i hi => ?_
    have hcount : globalValidChunks 1 twoMicroBatches i = 1 := by
      rw [globalValidChunks,← chunksAt_map]
      have hlayout : twoMicroBatches.map GoldRow.toChunkLayout =
        ⟨[[[oneChunk],[oneChunk]]],2,by simp⟩ := rfl
      rw [hlayout]
      revert i
      decide
    rw [hcount,Nat.cast_one,max_self]
  have htotal : chunkTotal Real.exp goldLoss twoMicroBatches.rows =
      chunkTotal Real.exp goldLoss [goldRow] + chunkTotal Real.exp goldLoss [goldRow] :=
    chunkTotal_append [goldRow] [goldRow]
  have hchunks : numValidChunks GoldRow.toChunkLayout twoMicroBatches.rows = 2 := by
    rw [numValidChunks_map]
    decide
  rw [hmean,globalGold,hchunks,htotal] at hrun
  have hpos := chunkTotal_goldRow
  have htemperature : goldLoss.temperature = 1 := rfl
  rw [htemperature] at hrun
  push_cast at hrun
  linarith

end XToken
end DockyardRL
