import DockyardRL.Lib.Dict
import Mathlib.Algebra.BigOperators.Group.List.Basic
import Mathlib.Data.List.MinMax
import Mathlib.Data.Rat.Cast.Order

/-! Preference optimisation on candidates of the policy itself: an iteration generates groups, has them
scored, pairs the best candidate of a group with its worst, and takes a step on the pairs. Generation,
judging and training act on a world of which nothing is known. -/
namespace DockyardRL
namespace Training
namespace OnlineDpo

variable {W P T K B : Type}

structure Candidate (T K : Type) where
  promptTokenIds : List ℕ
  responseTokenIds : List ℕ
  promptText : String
  responseText : String
  score : Option K
  trajectory : Option T

/-- `PreferenceDatumSpec`; a message is its role and its token ids. -/
structure PreferenceDatumSpec where
  messageLogChosen : List (String × List ℕ)
  messageLogRejected : List (String × List ℕ)
  lengthChosen : ℕ
  lengthRejected : ℕ
  lossMultiplier : ℕ
  idx : ℕ

/-- `PreferenceJudge`: `chat` is there when the judge is enabled, and the verifiable reward answers
when its status is `ok`. -/
structure PreferenceJudge (W T K : Type) where
  chat : Option (String → W → Option String × W)
  template : String → String → String
  verifiableReward : Option (T → W → Option K × W)
  preferVerifiable : Bool
  parse : Option String → Option K

namespace PreferenceJudge

variable (judge : PreferenceJudge W T K)

def verifiableScore (trajectory : Option T) (w : W) : Option K × W :=
  match judge.verifiableReward,trajectory with
  | some reward,some t => reward t w
  | _,_ => (none,w)

def judgeScore (prompt response : String) (w : W) : Option K × W :=
  match judge.chat with
  | some chat =>
    (judge.parse (chat (judge.template prompt response) w).1,(chat (judge.template prompt response) w).2)
  | none => (none,w)

def score (prompt response : String) (trajectory : Option T) (w : W) : Option K × W :=
  if judge.preferVerifiable then
    match judge.verifiableScore trajectory w with
    | (some v,w) => (some v,w)
    | (none,w) => judge.judgeScore prompt response w
  else
    match judge.judgeScore prompt response w with
    | (some j,w) => (some j,w)
    | (none,w) => judge.verifiableScore trajectory w

end PreferenceJudge

/-- What a loop over a list leaves for every element, and the world behind it. -/
def threaded {α β : Type} (f : α → W → β × W) : List α → W → List β × W
  | [],w => ([],w)
  | a :: as,w => ((f a w).1 :: (threaded f as (f a w).2).1,(threaded f as (f a w).2).2)

def scoreCandidate (judge : PreferenceJudge W T K) (c : Candidate T K) (w : W) : Candidate T K × W :=
  match c.score with
  | some _ => (c,w)
  | none =>
    let scored := judge.score c.promptText c.responseText c.trajectory w
    ({ c with score := scored.1 },scored.2)

section Pairs

variable [Field K] [LinearOrder K]

def scoresOf (group : List (Candidate T K)) : List (Candidate T K × K) :=
  group.filterMap fun c => c.score.map (c,·)

structure Pairing (T K : Type) where
  pairs : List (Candidate T K × Candidate T K)
  numDroppedUnscored : ℕ
  numDroppedMargin : ℕ

/-- One group in `build_preference_pairs`; of equal scores the first is the best, and the worst. -/
def pairGroup (scoreMargin : K) (acc : Pairing T K) (group : List (Candidate T K)) : Pairing T K :=
  let scored := scoresOf group
  if scored.length < 2 then { acc with numDroppedUnscored := acc.numDroppedUnscored + 1 }
  else
    match scored.argmax Prod.snd,scored.argmin Prod.snd with
    | some best,some worst =>
      if best.2 - worst.2 < scoreMargin then { acc with numDroppedMargin := acc.numDroppedMargin + 1 }
      else { acc with pairs := acc.pairs ++ [(best.1,worst.1)] }
    | _,_ => acc

/-- `build_preference_pairs`. -/
def buildPreferencePairs (groups : List (List (Candidate T K))) (scoreMargin : K) : Pairing T K :=
  groups.foldl (pairGroup scoreMargin) ⟨[],0,0⟩

def toDatum (idx : ℕ) (pair : Candidate T K × Candidate T K) : PreferenceDatumSpec where
  messageLogChosen := [("user",pair.1.promptTokenIds),("assistant",pair.1.responseTokenIds)]
  messageLogRejected := [("user",pair.2.promptTokenIds),("assistant",pair.2.responseTokenIds)]
  lengthChosen := pair.1.promptTokenIds.length + pair.1.responseTokenIds.length
  lengthRejected := pair.2.promptTokenIds.length + pair.2.responseTokenIds.length
  lossMultiplier := 1
  idx := idx

/-- `pairs_to_preference_data`. -/
def pairsToPreferenceData (pairs : List (Candidate T K × Candidate T K)) (startIdx : ℕ) :
    List PreferenceDatumSpec :=
  pairs.mapIdx fun i pair => toDatum (startIdx + i) pair

structure JudgeOveroptMonitor (K : Type) where
  klTarget : Option K
  numUpdates : ℕ
  runningMeanScore : K

structure MonitorMetrics (K : Type) where
  judgeScoreMean : Option K
  judgeScoreRunningMean : Option K
  kl : Option K
  klOverTarget : Option Bool

def JudgeOveroptMonitor.update (monitor : JudgeOveroptMonitor K) (meanJudgeScore kl : Option K) :
    MonitorMetrics K × JudgeOveroptMonitor K :=
  let updated := match meanJudgeScore with
    | some mean =>
      { monitor with
        numUpdates := monitor.numUpdates + 1
        runningMeanScore := monitor.runningMeanScore +
          (mean - monitor.runningMeanScore) / (monitor.numUpdates + 1 : ℕ) }
    | none => monitor
  (⟨meanJudgeScore,meanJudgeScore.map fun _ => updated.runningMeanScore,kl,
    kl.bind fun x => monitor.klTarget.map fun target => decide (target < x)⟩,updated)

structure Metrics (K : Type) where
  numGroups : ℕ
  numPairs : ℕ
  numDroppedUnscored : ℕ
  numDroppedMargin : ℕ
  judgeScoreMean : Option K
  trained : Bool
  train : Dict String K
  monitor : Option (MonitorMetrics K)

/-- The callables the launcher injects. -/
structure Callables (W P T K B : Type) where
  generate : List P → W → List (List (Candidate T K)) × W
  buildBatch : List PreferenceDatumSpec → B
  train : B → W → Option (Dict String K) × W

/-- An iteration: the groups with their scores, the data it trains on, its metrics, and what it leaves. -/
structure Iteration (W T K : Type) where
  groups : List (List (Candidate T K))
  data : List PreferenceDatumSpec
  metrics : Metrics K
  monitor : Option (JudgeOveroptMonitor K)
  world : W

def meanScore (groups : List (List (Candidate T K))) : Option K :=
  let scores := groups.flatMap fun group => (scoresOf group).map Prod.snd
  if scores.isEmpty then none else some (scores.sum / scores.length)

variable (calls : Callables W P T K B) (judge : PreferenceJudge W T K) (scoreMargin : K)

/-- `run_online_dpo_iteration`. -/
def runOnlineDpoIteration (monitor : Option (JudgeOveroptMonitor K)) (startIdx : ℕ) (prompts : List P)
    (w : W) : Iteration W T K :=
  let generated := calls.generate prompts w
  let scored := threaded (threaded (scoreCandidate judge)) generated.1 generated.2
  let pairing := buildPreferencePairs scored.1 scoreMargin
  let mean := meanScore scored.1
  if pairing.pairs.isEmpty then
    ⟨scored.1,[],⟨scored.1.length,0,pairing.numDroppedUnscored,pairing.numDroppedMargin,mean,false,.empty,
      none⟩,monitor,scored.2⟩
  else
    let data := pairsToPreferenceData pairing.pairs startIdx
    let trained := calls.train (calls.buildBatch data) scored.2
    let trainMetrics := trained.1.getD .empty
    let updated := monitor.map (·.update mean (trainMetrics.get? "kl"))
    ⟨scored.1,data,⟨scored.1.length,pairing.pairs.length,pairing.numDroppedUnscored,
      pairing.numDroppedMargin,mean,true,trainMetrics,updated.map Prod.fst⟩,updated.map Prod.snd,trained.2⟩

/-- The loop of `online_dpo_train` from a step on. -/
def trainFrom (maxNumSteps : ℤ) : List (List P) → ℕ → Option (JudgeOveroptMonitor K) → ℕ → W →
    List (Iteration W T K)
  | [],_,_,_,_ => []
  | prompts :: batches,step,monitor,consumedPairs,w =>
    if maxNumSteps ≤ step then []
    else
      let it := runOnlineDpoIteration calls judge scoreMargin monitor consumedPairs prompts w
      it :: trainFrom maxNumSteps batches (step + 1) it.monitor (consumedPairs + it.metrics.numPairs) it.world

/-- `online_dpo_train`. -/
def onlineDpoTrain (maxNumSteps : ℤ) (klTarget : Option K) (monitor : Option (JudgeOveroptMonitor K))
    (promptBatches : List (List P)) (w : W) : List (Iteration W T K) :=
  trainFrom calls judge scoreMargin maxNumSteps promptBatches 0
    (monitor.or (klTarget.map fun target => ⟨some target,0,0⟩)) 0 w

omit [Field K] [LinearOrder K] in
theorem mem_scoresOf {group : List (Candidate T K)} {c : Candidate T K} {x : K} :
    (c,x) ∈ scoresOf group ↔ c ∈ group ∧ c.score = some x := by
  rw [scoresOf,List.mem_filterMap]
  constructor
  · rintro ⟨d,hd,heq⟩
    obtain ⟨y,hy,heq⟩ := Option.map_eq_some_iff.mp heq
    obtain ⟨rfl,rfl⟩ := Prod.mk.inj heq
    exact ⟨hd,hy⟩
  · rintro ⟨hc,hx⟩
    exact ⟨c,hc,by rw [hx]; rfl⟩

/-- A pair made of a group: no score of the group is above the one or below the other. -/
structure BestAndWorst (scoreMargin : K) (group : List (Candidate T K))
    (pair : Candidate T K × Candidate T K) : Prop where
  chosen : pair.1 ∈ group
  rejected : pair.2 ∈ group
  scores : ∃ best worst, pair.1.score = some best ∧ pair.2.score = some worst ∧
    scoreMargin ≤ best - worst ∧ ∀ c ∈ group, ∀ x ∈ c.score, worst ≤ x ∧ x ≤ best

/-- Two candidates of the group are scored, and two scores are as far apart as the margin asks. -/
def Spread (scoreMargin : K) (group : List (Candidate T K)) : Prop :=
  2 ≤ (scoresOf group).length ∧
    ∃ a ∈ scoresOf group, ∃ b ∈ scoresOf group, scoreMargin ≤ a.2 - b.2

instance (group : List (Candidate T K)) : Decidable (Spread scoreMargin group) :=
  inferInstanceAs (Decidable (_ ∧ _))

variable [IsStrictOrderedRing K]

theorem pairGroup_cases (acc : Pairing T K) (group : List (Candidate T K)) :
    (¬Spread scoreMargin group ∧ (pairGroup scoreMargin acc group).pairs = acc.pairs ∧
      (pairGroup scoreMargin acc group).numDroppedUnscored + (pairGroup scoreMargin acc group).numDroppedMargin =
        acc.numDroppedUnscored + acc.numDroppedMargin + 1) ∨
    (Spread scoreMargin group ∧ ∃ pair, BestAndWorst scoreMargin group pair ∧
      pairGroup scoreMargin acc group = { acc with pairs := acc.pairs ++ [pair] }) := by
  rw [pairGroup]
  by_cases hfew : (scoresOf group).length < 2
  · rw [if_pos hfew]
    exact .inl ⟨fun h => absurd h.1 (Nat.not_le.mpr hfew),rfl,Nat.add_right_comm ..⟩
  have hne : scoresOf group ≠ [] := fun hnil => hfew (by rw [hnil]; exact Nat.zero_lt_two)
  obtain ⟨best,hbest⟩ := Option.ne_none_iff_exists'.mp (mt (List.argmax_eq_none (f := fun a => a.2)).mp hne)
  obtain ⟨worst,hworst⟩ := Option.ne_none_iff_exists'.mp (mt (List.argmin_eq_none (f := fun a => a.2)).mp hne)
  have hmem := mem_scoresOf.mp (List.argmax_mem hbest)
  have hmem' := mem_scoresOf.mp (List.argmin_mem hworst)
  have hle : ∀ a ∈ scoresOf group, worst.2 ≤ a.2 ∧ a.2 ≤ best.2 := fun a ha =>
    ⟨List.le_of_mem_argmin ha hworst,List.le_of_mem_argmax ha hbest⟩
  simp only [if_neg hfew,hbest,hworst]
  by_cases hmargin : best.2 - worst.2 < scoreMargin
  · rw [if_pos hmargin]
    refine .inl ⟨fun h => ?_,rfl,rfl⟩
    obtain ⟨-,a,ha,b,hb,hab⟩ := h
    have hwithin : a.2 - b.2 ≤ best.2 - worst.2 := sub_le_sub (hle a ha).2 (hle b hb).1
    exact absurd (hab.trans hwithin) (not_le.mpr hmargin)
  · refine .inr ⟨⟨Nat.le_of_not_lt hfew,best,List.argmax_mem hbest,worst,List.argmin_mem hworst,
      not_lt.mp hmargin⟩,(best.1,worst.1),⟨hmem.1,hmem'.1,best.2,worst.2,hmem.2,hmem'.2,not_lt.mp hmargin,
        fun c hc x hx => hle (c,x) (mem_scoresOf.mpr ⟨hc,hx⟩)⟩,if_neg hmargin⟩

theorem foldl_pairGroup (groups : List (List (Candidate T K))) (acc : Pairing T K) :
    ∃ pairs, List.Forall₂ (BestAndWorst scoreMargin)
        (groups.filter fun group => decide (Spread scoreMargin group)) pairs ∧
      (groups.foldl (pairGroup scoreMargin) acc).pairs = acc.pairs ++ pairs ∧
      pairs.length + (groups.foldl (pairGroup scoreMargin) acc).numDroppedUnscored +
          (groups.foldl (pairGroup scoreMargin) acc).numDroppedMargin =
        groups.length + acc.numDroppedUnscored + acc.numDroppedMargin := by
  induction groups generalizing acc with
  | nil => exact ⟨[],.nil,(List.append_nil _).symm,rfl⟩
  | cons group groups ih =>
    rw [List.foldl_cons,List.length_cons]
    obtain ⟨pairs,hpairs,happend,hcount⟩ := ih (pairGroup scoreMargin acc group)
    rcases pairGroup_cases scoreMargin acc group with ⟨hspread,hsame,hdropped⟩ | ⟨hspread,pair,hpair,hstep⟩
    · rw [List.filter_cons_of_neg (by simpa using hspread)]
      exact ⟨pairs,hpairs,hsame ▸ happend,by omega⟩
    · rw [List.filter_cons_of_pos (by simpa using hspread)]
      rw [hstep] at happend hcount ⊢
      refine ⟨pair :: pairs,.cons hpair hpairs,by rw [happend,List.append_assoc]; rfl,?_⟩
      rw [List.length_cons]
      simp only at hcount
      omega

/-- The data of an iteration come from the groups with enough spread, one from each, and its counts
add up to the number of groups. -/
structure Iteration.Paired (it : Iteration W T K) : Prop where
  data : List.Forall₂ (fun group datum => ∃ pair, BestAndWorst scoreMargin group pair ∧
      datum = toDatum datum.idx pair)
    (it.groups.filter fun group => decide (Spread scoreMargin group)) it.data
  trained : it.metrics.trained = true ↔ it.data ≠ []
  numPairs : it.metrics.numPairs = it.data.length
  numGroups : it.metrics.numGroups = it.groups.length
  counted : it.metrics.numPairs + it.metrics.numDroppedUnscored + it.metrics.numDroppedMargin =
    it.metrics.numGroups

omit [Field K] [LinearOrder K] [IsStrictOrderedRing K] in
theorem map_idx_pairsToPreferenceData (pairs : List (Candidate T K × Candidate T K)) (startIdx : ℕ) :
    (pairsToPreferenceData pairs startIdx).map (·.idx) = List.range' startIdx pairs.length := by
  refine List.ext_getElem (by simp [pairsToPreferenceData]) fun i hi hj => ?_
  simp [pairsToPreferenceData,toDatum]

omit [Field K] [LinearOrder K] [IsStrictOrderedRing K] in
theorem forall₂_pairsToPreferenceData {R : List (Candidate T K) → Candidate T K × Candidate T K → Prop}
    {groups : List (List (Candidate T K))} {pairs : List (Candidate T K × Candidate T K)}
    (h : List.Forall₂ R groups pairs) (startIdx : ℕ) :
    List.Forall₂ (fun group datum => ∃ pair, R group pair ∧ datum = toDatum datum.idx pair) groups
      (pairsToPreferenceData pairs startIdx) := by
  induction h generalizing startIdx with
  | nil => exact .nil
  | cons hpair _ ih =>
    rw [pairsToPreferenceData,List.mapIdx_cons]
    refine .cons ⟨_,hpair,rfl⟩ ?_
    have htail := ih (startIdx + 1)
    rw [pairsToPreferenceData] at htail
    simpa only [Nat.add_assoc,Nat.add_comm 1] using htail

theorem paired_iteration (monitor : Option (JudgeOveroptMonitor K)) (startIdx : ℕ) (prompts : List P)
    (w : W) :
    (runOnlineDpoIteration calls judge scoreMargin monitor startIdx prompts w).Paired scoreMargin ∧
      (runOnlineDpoIteration calls judge scoreMargin monitor startIdx prompts w).data.map (·.idx) =
        List.range' startIdx
          (runOnlineDpoIteration calls judge scoreMargin monitor startIdx prompts w).metrics.numPairs := by
  obtain ⟨pairs,hpairs,happend,hcount⟩ := foldl_pairGroup scoreMargin
    (threaded (threaded (scoreCandidate judge)) (calls.generate prompts w).1
      (calls.generate prompts w).2).1 ⟨[],0,0⟩
  rw [List.nil_append] at happend
  rw [runOnlineDpoIteration]
  simp only [buildPreferencePairs,happend]
  simp only [Nat.add_zero] at hcount
  split_ifs with hempty
  · obtain rfl := List.isEmpty_iff.mp hempty
    exact ⟨⟨forall₂_pairsToPreferenceData hpairs 0,by simp,rfl,rfl,by simpa using hcount⟩,rfl⟩
  · have hlength : (pairsToPreferenceData pairs startIdx).length = pairs.length := List.length_mapIdx
    refine ⟨⟨forall₂_pairsToPreferenceData hpairs startIdx,?_,hlength.symm,rfl,hcount⟩,
      map_idx_pairsToPreferenceData pairs startIdx⟩
    rw [← List.length_pos_iff,hlength,List.length_pos_iff]
    simpa using hempty

theorem trainFrom_spec (maxNumSteps : ℤ) (batches : List (List P)) (step : ℕ)
    (monitor : Option (JudgeOveroptMonitor K)) (consumedPairs : ℕ) (w : W) :
    let its := trainFrom calls judge scoreMargin maxNumSteps batches step monitor consumedPairs w
    its.length = min (maxNumSteps - step).toNat batches.length ∧ (∀ it ∈ its, it.Paired scoreMargin) ∧
      (its.flatMap (·.data)).map (·.idx) =
        List.range' consumedPairs (its.flatMap (·.data)).length := by
  induction batches generalizing step monitor consumedPairs w with
  | nil => simp [trainFrom]
  | cons prompts batches ih =>
    rw [trainFrom]
    split_ifs with hstop
    · simp [Int.toNat_of_nonpos (Int.sub_nonpos_of_le hstop)]
    · obtain ⟨hpaired,hidx⟩ := paired_iteration calls judge scoreMargin monitor consumedPairs prompts w
      generalize runOnlineDpoIteration calls judge scoreMargin monitor consumedPairs prompts w = it at *
      obtain ⟨hlength,hall,hrest⟩ := ih (step + 1) it.monitor (consumedPairs + it.metrics.numPairs) it.world
      refine ⟨?_,?_,?_⟩
      · rw [List.length_cons,hlength,List.length_cons]
        omega
      · exact List.forall_mem_cons.mpr ⟨hpaired,hall⟩
      · rw [List.flatMap_cons,List.map_append,hidx,hrest,List.length_append,← hpaired.numPairs,
          List.range'_append_1]

/-- Over a whole loop the data are numbered consecutively, and those of each iteration are made of its
groups with enough spread. -/
theorem onlineDpoTrain_pairs (maxNumSteps : ℤ) (klTarget : Option K)
    (monitor : Option (JudgeOveroptMonitor K)) (promptBatches : List (List P)) (w : W) :
    let its := onlineDpoTrain calls judge scoreMargin maxNumSteps klTarget monitor promptBatches w
    its.length = min maxNumSteps.toNat promptBatches.length ∧ (∀ it ∈ its, it.Paired scoreMargin) ∧
      (its.flatMap (·.data)).map (·.idx) = List.range (its.flatMap (·.data)).length := by
  have hspec := trainFrom_spec calls judge scoreMargin maxNumSteps promptBatches 0
    (monitor.or (klTarget.map fun target => ⟨some target,0,0⟩)) 0 w
  simp only [Nat.cast_zero,sub_zero,← List.range_eq_range'] at hspec
  exact hspec

/-- Every prompt has two candidates, scored apart. -/
def scoredPair : Callables Unit Unit Unit ℚ Unit where
  generate := fun prompts w =>
    (prompts.map fun _ => [⟨[],[],"","",some 1,none⟩,⟨[],[],"","",some 0,none⟩],w)
  buildBatch := fun _ => ()
  train := fun _ w => (none,w)

def silentJudge : PreferenceJudge Unit Unit ℚ := ⟨none,fun _ _ => "",none,true,fun _ => none⟩

theorem onlineDpoTrain_pairs_scoredPair :
    (onlineDpoTrain scoredPair silentJudge 1 3 none none [[()],[()]] ()).length = 2 :=
  (onlineDpoTrain_pairs scoredPair silentJudge 1 3 none none [[()],[()]] ()).1

/-- The mean scores of the iterations that trained. -/
def trainedMeans (its : List (Iteration W T K)) : List K :=
  its.filterMap fun it => if it.metrics.trained then it.metrics.judgeScoreMean else none

theorem meanScore_isSome {groups : List (List (Candidate T K))}
    (h : (buildPreferencePairs groups scoreMargin).pairs ≠ []) : ∃ x, meanScore groups = some x := by
  obtain ⟨pairs,hpairs,happend,-⟩ := foldl_pairGroup scoreMargin groups ⟨[],0,0⟩
  rw [buildPreferencePairs,happend,List.nil_append] at h
  have hne : (groups.filter fun group => decide (Spread scoreMargin group)) ≠ [] := by
    rw [← List.length_pos_iff,hpairs.length_eq,List.length_pos_iff]
    exact h
  obtain ⟨group,hmem⟩ := List.exists_mem_of_ne_nil _ hne
  obtain ⟨hgroup,hspread⟩ := List.mem_filter.mp hmem
  obtain ⟨-,a,ha,-⟩ := of_decide_eq_true hspread
  have hscore : a.2 ∈ groups.flatMap fun group => (scoresOf group).map Prod.snd :=
    List.mem_flatMap.mpr ⟨group,hgroup,List.mem_map_of_mem ha⟩
  rw [meanScore,if_neg fun hempty => absurd (List.isEmpty_iff.mp hempty) (List.ne_nil_of_mem hscore)]
  exact ⟨_,rfl⟩

theorem update_mean (monitor : JudgeOveroptMonitor K) (mean : K)
    (kl : Option K) : (monitor.update (some mean) kl).2.runningMeanScore * (monitor.numUpdates + 1 : ℕ) =
      monitor.runningMeanScore * (monitor.numUpdates : K) + mean := by
  have hne : ((monitor.numUpdates + 1 : ℕ) : K) ≠ 0 := Nat.cast_ne_zero.mpr (Nat.succ_ne_zero _)
  show (monitor.runningMeanScore + (mean - monitor.runningMeanScore) / (monitor.numUpdates + 1 : ℕ)) *
    (monitor.numUpdates + 1 : ℕ) = _
  rw [add_mul,div_mul_cancel₀ _ hne,Nat.cast_succ,mul_add,mul_one,add_assoc,add_sub_cancel]

theorem iteration_monitor (monitor : JudgeOveroptMonitor K) (startIdx : ℕ) (prompts : List P) (w : W) :
    let it := runOnlineDpoIteration calls judge scoreMargin (some monitor) startIdx prompts w
    (it.metrics.trained = false ∧ it.metrics.monitor = none ∧ it.monitor = some monitor) ∨
      ∃ mean kl, it.metrics.trained = true ∧ it.metrics.judgeScoreMean = some mean ∧
        it.metrics.monitor = some (monitor.update (some mean) kl).1 ∧
        it.monitor = some (monitor.update (some mean) kl).2 := by
  rw [runOnlineDpoIteration]
  dsimp only
  split_ifs with hempty
  · exact .inl ⟨rfl,rfl,rfl⟩
  · obtain ⟨mean,hmean⟩ := meanScore_isSome scoreMargin (mt List.isEmpty_iff.mpr hempty)
    rw [hmean]
    exact .inr ⟨mean,_,rfl,rfl,rfl,rfl⟩

omit [Field K] [LinearOrder K] [IsStrictOrderedRing K] in
theorem trainedMeans_cons (it : Iteration W T K) (its : List (Iteration W T K)) :
    trainedMeans (it :: its) = trainedMeans [it] ++ trainedMeans its :=
  List.filterMap_append (l := [it])

theorem trainFrom_runningMeans (maxNumSteps : ℤ) (batches : List (List P)) (step : ℕ)
    (monitor : JudgeOveroptMonitor K) (consumedPairs : ℕ) (w : W) {before behind : List (Iteration W T K)}
    {it : Iteration W T K} (h : trainFrom calls judge scoreMargin maxNumSteps batches step (some monitor)
      consumedPairs w = before ++ it :: behind) :
    it.metrics.monitor.map (·.judgeScoreRunningMean) =
      if it.metrics.trained then
        some (some ((monitor.runningMeanScore * (monitor.numUpdates : K) + (trainedMeans (before ++ [it])).sum) /
          (monitor.numUpdates + (trainedMeans (before ++ [it])).length : ℕ)))
      else none := by
  induction batches generalizing step monitor consumedPairs w before with
  | nil => exact absurd h.symm (List.append_ne_nil_of_right_ne_nil _ (List.cons_ne_nil _ _))
  | cons prompts batches ih =>
    rw [trainFrom] at h
    split_ifs at h with hstop
    · exact absurd h.symm (List.append_ne_nil_of_right_ne_nil _ (List.cons_ne_nil _ _))
    have hcases := iteration_monitor calls judge scoreMargin monitor consumedPairs prompts w
    generalize runOnlineDpoIteration calls judge scoreMargin (some monitor) consumedPairs prompts w =
      first at *
    cases before with
    | nil =>
      obtain ⟨rfl,-⟩ := List.cons.inj h
      rcases hcases with ⟨htrained,hreport,-⟩ | ⟨mean,kl,htrained,hmean,hreport,-⟩
      · rw [htrained,hreport]
        rfl
      · have hne : ((monitor.numUpdates + 1 : ℕ) : K) ≠ 0 := Nat.cast_ne_zero.mpr (Nat.succ_ne_zero _)
        have hmeans : trainedMeans ([] ++ [first]) = [mean] := by
          simp [trainedMeans,htrained,hmean]
        rw [htrained,hreport,if_pos rfl,hmeans,List.sum_singleton,List.length_singleton,
          ← update_mean monitor mean kl,mul_div_cancel_right₀ _ hne]
        rfl
    | cons head before =>
      obtain ⟨rfl,hrest⟩ := List.cons.inj h
      rw [List.cons_append,trainedMeans_cons]
      rcases hcases with ⟨htrained,-,hnext⟩ | ⟨mean,kl,htrained,hmean,-,hnext⟩
      · have hmeans : trainedMeans [first] = [] := by simp [trainedMeans,htrained]
        rw [hnext] at hrest
        rw [hmeans,List.nil_append]
        exact ih _ _ _ _ hrest
      · have hmeans : trainedMeans [first] = [mean] := by simp [trainedMeans,htrained,hmean]
        rw [hnext] at hrest
        rw [hmeans,List.singleton_append,List.sum_cons,List.length_cons,← add_assoc,
          ← update_mean monitor mean kl,Nat.add_comm (trainedMeans (before ++ [it])).length 1,
          ← Nat.add_assoc]
        exact ih _ _ _ _ hrest

/-- An iteration reports just when it trained, and then the average over those that have trained so
far. -/
def ReportsAverages (its : List (Iteration W T K)) : Prop :=
  ∀ before it behind, its = before ++ it :: behind →
    it.metrics.monitor.map (·.judgeScoreRunningMean) =
      if it.metrics.trained then
        some (some ((trainedMeans (before ++ [it])).sum / ((trainedMeans (before ++ [it])).length : K)))
      else none

/-- With the monitor that the loop makes, every iteration that trained reports the average. -/
theorem onlineDpoTrain_runningMeans (maxNumSteps : ℤ) (klTarget : K) (promptBatches : List (List P)) (w : W) :
    ReportsAverages
      (onlineDpoTrain calls judge scoreMargin maxNumSteps (some klTarget) none promptBatches w) := by
  intro before it behind h
  have hmeans := trainFrom_runningMeans calls judge scoreMargin maxNumSteps promptBatches 0
    ⟨some klTarget,0,0⟩ 0 w h
  simp only [Nat.cast_zero,mul_zero,zero_add] at hmeans
  exact hmeans

theorem onlineDpoTrain_runningMeans_scoredPair :
    ReportsAverages (onlineDpoTrain scoredPair silentJudge 1 3 (some 1) none [[()],[()]] ()) :=
  onlineDpoTrain_runningMeans scoredPair _ 1 3 1 [[()],[()]] ()

end Pairs

end OnlineDpo
end Training
end DockyardRL
