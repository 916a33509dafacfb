import DockyardRL.Grpo.Advantage
import DockyardRL.Loss.ClippedPG

/-! The effort term: every generated token of a correct response costs something, the more so the
more often the group of the prompt is correct. -/
namespace DockyardRL
namespace Grpo
namespace EffortReward

open Loss (clamp)

variable {P K : Type}

/-- A message of a log; only assistant turns that carry tokens are counted. -/
structure Message where
  role : Option String
  tokenIds : Option (List ℕ)

structure EffortRewardConfig (K : Type) where
  enabled : Option Bool
  coefficient : Option K
  difficultyExponent : Option ℤ
  difficultyFloor : Option K
  maxResponseTokens : Option ℤ

/-- What is refused, with what was found. -/
inductive EffortError (K : Type)
  /-- A key of the configuration under the path that leads to it. -/
  | coefficient (path : String) (got : K)
  | maxResponseTokens (path : String) (got : ℤ)
  | difficultyExponent (path : String) (got : ℤ)
  | difficultyFloor (path : String) (got : K)
  | estimator (path : String) (estimatorName : String)
  | trainer (path : String) (trainer : String)
  /-- The minimum of an empty tensor. -/
  | emptyBatch
  | correctness (low high : K)
  | messageLogLength (messageLogs rewards : ℕ)
  | normalizer (got : ℤ)

/-- The columns of a batch of `b` rows. -/
structure EffortBatch (b : ℕ) (K : Type) where
  totalReward : Fin b → K
  unshapedTotalReward : Option (Fin b → K)
  messageLog : List (List Message)
  effortCost : Option (Fin b → K)
  effortPassRate : Option (Fin b → K)

variable [Field K] [LinearOrder K] {b : ℕ}

/-- `not cfg or not _cfg(cfg, "enabled", False)`, negated. -/
def isEnabled (cfg : Option (EffortRewardConfig K)) : Bool :=
  (cfg.bind EffortRewardConfig.enabled).getD false

/-- `_cfg(cfg, "coefficient", 0.0)`, and the other keys with their defaults. -/
def EffortRewardConfig.lam (cfg : EffortRewardConfig K) : K := cfg.coefficient.getD 0

def EffortRewardConfig.exponent (cfg : EffortRewardConfig K) : ℤ := cfg.difficultyExponent.getD 1

def EffortRewardConfig.floor (cfg : EffortRewardConfig K) : K := cfg.difficultyFloor.getD 0

def EffortRewardConfig.maxTokens (cfg : EffortRewardConfig K) : ℤ := cfg.maxResponseTokens.getD 0

def supportedEstimators : List String := ["grpo"]

def supportedTrainers : List String := ["sync"]

def validateEffortRewardConfig (cfg : Option (EffortRewardConfig K)) (estimatorName trainer : String)
    (context : String) : Except (EffortError K) Unit :=
  match cfg with
  | none => .ok ()
  | some cfg =>
    if isEnabled (some cfg) = false then .ok ()
    else if ¬(0 ≤ cfg.lam ∧ cfg.lam < 1) then .error (.coefficient (context ++ ".coefficient") cfg.lam)
    else if cfg.maxTokens ≤ 0 then
      .error (.maxResponseTokens (context ++ ".max_response_tokens") cfg.maxTokens)
    else if cfg.exponent < 0 then
      .error (.difficultyExponent (context ++ ".difficulty_exponent") cfg.exponent)
    else if ¬(0 ≤ cfg.floor ∧ cfg.floor ≤ 1) then
      .error (.difficultyFloor (context ++ ".difficulty_floor") cfg.floor)
    else if estimatorName ∉ supportedEstimators then
      .error (.estimator (context ++ ".enabled") estimatorName)
    else if trainer ∉ supportedTrainers then .error (.trainer (context ++ ".enabled") trainer)
    else .ok ()

/-- `response_token_counts` of a log: the tokens of all its assistant turns. -/
def responseTokenCount (log : List Message) : ℕ :=
  ((log.filter fun message => message.role = some "assistant").map fun message =>
    (message.tokenIds.map List.length).getD 0).sum

/-- `normalize_effort_cost` of a count, behind its check. -/
def effortCost (maxResponseTokens : ℤ) (tokenCount : ℕ) : K :=
  clamp 0 1 ((tokenCount : K) / maxResponseTokens)

def groupPassRate [LinearOrder P] (A : Arithmetic K) (promptIds : Fin b → P) (correctness : Fin b → K) :
    Fin b → K :=
  baseline A false promptIds correctness

def effectiveCoefficient (cfg : EffortRewardConfig K) (passRate : K) : K :=
  cfg.lam * clamp cfg.floor 1 passRate ^ cfg.exponent

/-- `batch[CORRECTNESS_KEY]`, which is made of the rewards when it is not there. -/
def EffortBatch.correctness (batch : EffortBatch b K) : Fin b → K :=
  batch.unshapedTotalReward.getD batch.totalReward

def checkCorrectness (correctness : Fin b → K) : Except (EffortError K) Unit :=
  match (List.ofFn correctness).min?, (List.ofFn correctness).max? with
  | some low, some high => if low < 0 ∨ 1 < high then .error (.correctness low high) else .ok ()
  | _, _ => .error .emptyBatch

def effortCosts (cfg : EffortRewardConfig K) (messageLog : List (List Message)) :
    Except (EffortError K) (Fin b → K) :=
  if hlen : messageLog.length = b then
    if cfg.maxTokens ≤ 0 then .error (.normalizer cfg.maxTokens)
    else .ok fun i =>
      effortCost cfg.maxTokens (responseTokenCount (messageLog.get (i.cast hlen.symm)))
  else .error (.messageLogLength messageLog.length b)

def applyEffortReward [LinearOrder P] (A : Arithmetic K) (batch : EffortBatch b K)
    (cfg : Option (EffortRewardConfig K)) (promptIds : Fin b → P) :
    Except (EffortError K) (EffortBatch b K) :=
  match cfg with
  | none => .ok batch
  | some cfg =>
    if isEnabled (some cfg) = false then .ok batch
    else do
      let correctness := batch.correctness
      checkCorrectness correctness
      let cost ← effortCosts cfg batch.messageLog
      let passRate := groupPassRate A promptIds correctness
      return { batch with
        unshapedTotalReward := some correctness
        effortCost := some cost
        effortPassRate := some passRate
        totalReward := fun i => batch.totalReward i -
          correctness i * effectiveCoefficient cfg (passRate i) * cost i }

def EffortBatch.tokens (batch : EffortBatch b K) (i : Fin b) : ℕ :=
  responseTokenCount (batch.messageLog.getD i [])

def groupMean [DecidableEq P] (promptIds : Fin b → P) (correctness : Fin b → K) (i : Fin b) : K :=
  Variance.mean (((List.finRange b).filter fun j => promptIds j = promptIds i).map correctness)

/-- What a row of a given correctness and length pays in a group with a given pass rate. -/
def penalty (cfg : Option (EffortRewardConfig K)) (correctness passRate : K) (tokens : ℕ) : K :=
  match cfg with
  | none => 0
  | some cfg => if isEnabled (some cfg) then
      correctness * effectiveCoefficient cfg passRate * effortCost cfg.maxTokens tokens else 0

/-- What is checked of a configuration that is not inert. -/
structure EffortRewardConfig.Checked (cfg : EffortRewardConfig K) : Prop where
  lam_nonneg : 0 ≤ cfg.lam
  lam_lt : cfg.lam < 1
  maxTokens_pos : 0 < cfg.maxTokens
  exponent_nonneg : 0 ≤ cfg.exponent
  floor_nonneg : 0 ≤ cfg.floor
  floor_le : cfg.floor ≤ 1

theorem checked_of_validate {cfg : EffortRewardConfig K} {estimatorName trainer context : String}
    (h : validateEffortRewardConfig (some cfg) estimatorName trainer context = .ok ())
    (henabled : isEnabled (some cfg) = true) : cfg.Checked := by
  rw [validateEffortRewardConfig,henabled] at h
  simp only [Bool.true_eq_false,if_false] at h
  split_ifs at h with hlam htokens hexponent hfloor
  exact ⟨hlam.1,hlam.2,not_le.mp htokens,not_lt.mp hexponent,hfloor.1,hfloor.2⟩

section Bounds

omit [Field K] in
theorem clamp_mem {lo hi : K} (h : lo ≤ hi) (x : K) : lo ≤ clamp lo hi x ∧ clamp lo hi x ≤ hi :=
  ⟨le_min (le_max_right x lo) h,min_le_right _ _⟩

omit [Field K] in
theorem clamp_mono (lo hi : K) {x y : K} (h : x ≤ y) : clamp lo hi x ≤ clamp lo hi y :=
  min_le_min_right hi (max_le_max_right lo h)

variable [IsStrictOrderedRing K]

theorem effortCost_mem (maxResponseTokens : ℤ) (tokens : ℕ) :
    0 ≤ effortCost (K := K) maxResponseTokens tokens ∧ effortCost (K := K) maxResponseTokens tokens ≤ 1 :=
  clamp_mem zero_le_one _

theorem effortCost_mono {maxResponseTokens : ℤ} (h : 0 < maxResponseTokens) {m n : ℕ} (hmn : m ≤ n) :
    effortCost (K := K) maxResponseTokens m ≤ effortCost maxResponseTokens n := by
  have hpos : (0 : K) ≤ maxResponseTokens := by exact_mod_cast h.le
  exact clamp_mono 0 1 (div_le_div_of_nonneg_right (Nat.cast_le.mpr hmn) hpos)

variable {cfg : EffortRewardConfig K} (hcfg : cfg.Checked)

include hcfg

theorem effectiveCoefficient_mem (passRate : K) :
    0 ≤ effectiveCoefficient cfg passRate ∧ effectiveCoefficient cfg passRate < 1 := by
  obtain ⟨hlow,hhigh⟩ := clamp_mem hcfg.floor_le passRate
  have hgate : 0 ≤ clamp cfg.floor 1 passRate := hcfg.floor_nonneg.trans hlow
  obtain ⟨n,hn⟩ := Int.eq_ofNat_of_zero_le hcfg.exponent_nonneg
  rw [effectiveCoefficient,hn,zpow_natCast]
  refine ⟨mul_nonneg hcfg.lam_nonneg (pow_nonneg hgate n),?_⟩
  exact (mul_le_of_le_one_right hcfg.lam_nonneg (pow_le_one₀ hgate hhigh)).trans_lt hcfg.lam_lt

theorem effectiveCoefficient_mono {p q : K} (hpq : p ≤ q) :
    effectiveCoefficient cfg p ≤ effectiveCoefficient cfg q := by
  have hgate : 0 ≤ clamp cfg.floor 1 p := hcfg.floor_nonneg.trans (clamp_mem hcfg.floor_le p).1
  obtain ⟨n,hn⟩ := Int.eq_ofNat_of_zero_le hcfg.exponent_nonneg
  rw [effectiveCoefficient,effectiveCoefficient,hn,zpow_natCast,zpow_natCast]
  exact mul_le_mul_of_nonneg_left (pow_le_pow_left₀ hgate (clamp_mono _ _ hpq) n) hcfg.lam_nonneg

end Bounds

section Penalty

variable [IsStrictOrderedRing K]

/-- The accepted configurations. -/
def Accepted (cfg : Option (EffortRewardConfig K)) : Prop :=
  ∀ c ∈ cfg, isEnabled (some c) = true → c.Checked

omit [IsStrictOrderedRing K] in
theorem accepted_of_validate {cfg : Option (EffortRewardConfig K)}
    {estimatorName trainer context : String}
    (h : validateEffortRewardConfig cfg estimatorName trainer context = .ok ()) : Accepted cfg := by
  rintro c rfl henabled
  exact checked_of_validate h henabled

variable {cfg : Option (EffortRewardConfig K)} (hcfg : Accepted cfg)

omit [IsStrictOrderedRing K] in
theorem penalty_zero (passRate : K) (tokens : ℕ) : penalty cfg 0 passRate tokens = 0 := by
  unfold penalty
  split
  · rfl
  · rw [zero_mul,zero_mul,ite_self]

include hcfg

theorem penalty_lt {c : K} (hc : 0 < c) (passRate : K) (tokens : ℕ) :
    penalty cfg c passRate tokens < c := by
  unfold penalty
  split
  · exact hc
  · rename_i cfg
    split_ifs with henabled
    · obtain ⟨hlam,hlt⟩ := effectiveCoefficient_mem (hcfg cfg rfl henabled) passRate
      have hcost := (effortCost_mem (K := K) cfg.maxTokens tokens).2
      calc c * effectiveCoefficient cfg passRate * effortCost cfg.maxTokens tokens
          ≤ c * effectiveCoefficient cfg passRate :=
            mul_le_of_le_one_right (mul_nonneg hc.le hlam) hcost
        _ < c := mul_lt_of_lt_one_right hc hlt
    · exact hc

theorem penalty_mono_tokens {c : K} (hc : 0 ≤ c) (passRate : K) {m n : ℕ} (hmn : m ≤ n) :
    penalty cfg c passRate m ≤ penalty cfg c passRate n := by
  unfold penalty
  split
  · exact le_rfl
  · rename_i cfg
    split_ifs with henabled
    · have hchecked := hcfg cfg rfl henabled
      exact mul_le_mul_of_nonneg_left (effortCost_mono hchecked.maxTokens_pos hmn)
        (mul_nonneg hc (effectiveCoefficient_mem hchecked passRate).1)
    · exact le_rfl

theorem penalty_mono_passRate {c : K} (hc : 0 ≤ c) {p q : K} (hpq : p ≤ q) (tokens : ℕ) :
    penalty cfg c p tokens ≤ penalty cfg c q tokens := by
  unfold penalty
  split
  · exact le_rfl
  · rename_i cfg
    split_ifs with henabled
    · exact mul_le_mul_of_nonneg_right (mul_le_mul_of_nonneg_left
        (effectiveCoefficient_mono (hcfg cfg rfl henabled) hpq) hc) (effortCost_mem _ _).1
    · exact le_rfl

theorem sub_penalty_mono {c d : K} (hcd : d < c) (passRate : K) (tokens : ℕ) :
    d - penalty cfg d passRate tokens < c - penalty cfg c passRate tokens := by
  unfold penalty
  split
  · simpa using hcd
  · rename_i cfg
    split_ifs with henabled
    · obtain ⟨hlam,hlt⟩ := effectiveCoefficient_mem (hcfg cfg rfl henabled) passRate
      obtain ⟨hcost,hle⟩ := effortCost_mem (K := K) cfg.maxTokens tokens
      have hfactor : 0 < 1 - effectiveCoefficient cfg passRate * effortCost cfg.maxTokens tokens :=
        sub_pos.mpr ((mul_le_of_le_one_right hlam hle).trans_lt hlt)
      have hmul := mul_lt_mul_of_pos_right hcd hfactor
      calc d - d * effectiveCoefficient cfg passRate * effortCost cfg.maxTokens tokens
          = d * (1 - effectiveCoefficient cfg passRate * effortCost cfg.maxTokens tokens) := by ring
        _ < c * (1 - effectiveCoefficient cfg passRate * effortCost cfg.maxTokens tokens) := hmul
        _ = c - c * effectiveCoefficient cfg passRate * effortCost cfg.maxTokens tokens := by ring
    · simpa using hcd

end Penalty

section Batch

variable [IsStrictOrderedRing K] [LinearOrder P] (A : Arithmetic K) {promptIds : Fin b → P}

theorem groupPassRate_eq (correctness : Fin b → K) (i : Fin b) :
    groupPassRate A promptIds correctness i = groupMean promptIds correctness i := by
  have hcolumn : columnStats A false promptIds correctness =
      calculateBaselineAndStdPerPrompt A ((List.finRange b).map promptIds)
        ((List.finRange b).map correctness) (List.replicate (List.finRange b).length true) false none := by
    rw [columnStats,List.ofFn_eq_map,List.ofFn_eq_map,List.length_map]
  have hstats := calculate_baseline A false (List.finRange b) promptIds correctness
    (fun s hs => absurd hs (Option.not_mem_none s))
  rw [← hcolumn,columnStats_eq,← List.ofFn_eq_map] at hstats
  have hbaseline := congrFun (List.ofFn_injective hstats) i
  refine hbaseline.trans ?_
  have hmem : i ∈ (List.finRange b).filter fun j => promptIds j = promptIds i :=
    List.mem_filter.mpr ⟨List.mem_finRange i,decide_eq_true rfl⟩
  rw [groupMean,baselineOf,List.length_map]
  simp only [Bool.false_eq_true,if_false,sub_zero]
  split_ifs with hfew
  · obtain ⟨j,hj⟩ := List.length_eq_one_iff.mp
      (Nat.le_antisymm hfew (List.length_pos_of_mem hmem))
    rw [hj] at hmem ⊢
    obtain rfl := List.mem_singleton.mp hmem
    simp [Variance.mean]
  · simp [Variance.mean]

omit [IsStrictOrderedRing K] in
theorem range_of_check {correctness : Fin b → K} (h : checkCorrectness correctness = .ok ()) (i : Fin b) :
    0 ≤ correctness i ∧ correctness i ≤ 1 := by
  have hmem : correctness i ∈ List.ofFn correctness := List.mem_ofFn.mpr ⟨i,rfl⟩
  rw [checkCorrectness] at h
  split at h
  · rename_i low high hlow hhigh
    split_ifs at h with hrange
    obtain ⟨hge,hle⟩ := not_or.mp hrange
    exact ⟨(not_lt.mp hge).trans ((List.min?_eq_some_iff.mp hlow).2 _ hmem),
      ((List.max?_eq_some_iff.mp hhigh).2 _ hmem).trans (not_lt.mp hle)⟩
  · cases h

omit [IsStrictOrderedRing K] in
theorem cost_of_effortCosts {cfg : EffortRewardConfig K} {messageLog : List (List Message)}
    {cost : Fin b → K} (h : effortCosts cfg messageLog = .ok cost) (i : Fin b) :
    cost i = effortCost cfg.maxTokens (responseTokenCount (messageLog.getD i [])) := by
  rw [effortCosts] at h
  split_ifs at h with hlen htokens
  obtain rfl := Except.ok.inj h
  rw [List.getD_eq_getElem _ _ (by simp [hlen])]
  rfl

theorem apply_cases {cfg : Option (EffortRewardConfig K)} {batch out : EffortBatch b K}
    (h : applyEffortReward A batch cfg promptIds = .ok out) :
    (∀ i, out.totalReward i = batch.totalReward i - penalty cfg (batch.correctness i)
      (groupMean promptIds batch.correctness i) (batch.tokens i)) ∧
    ((∀ i, 0 ≤ batch.correctness i ∧ batch.correctness i ≤ 1) ∨
      ∀ c passRate tokens, penalty cfg c passRate tokens = 0) := by
  cases cfg with
  | none =>
    obtain rfl := Except.ok.inj h
    exact ⟨fun i => (sub_zero _).symm,.inr fun _ _ _ => rfl⟩
  | some cfg =>
    rw [applyEffortReward] at h
    by_cases henabled : isEnabled (some cfg) = false
    · rw [if_pos henabled] at h
      obtain rfl := Except.ok.inj h
      exact ⟨fun i => by simp [penalty,henabled],.inr fun _ _ _ => by simp [penalty,henabled]⟩
    · have htrue : isEnabled (some cfg) = true := Bool.eq_true_of_not_eq_false henabled
      rw [if_neg henabled] at h
      obtain ⟨⟨⟩,hcheck,h⟩ := Fallible.bind_eq_ok.mp h
      obtain ⟨cost,hcost,h⟩ := Fallible.bind_eq_ok.mp h
      obtain rfl := Except.ok.inj h
      refine ⟨fun i => ?_,.inl (range_of_check hcheck)⟩
      simp only [penalty,htrue,if_true,groupPassRate_eq,EffortBatch.tokens,cost_of_effortCosts hcost]

omit [IsStrictOrderedRing K] in
theorem apply_ok {cfg : EffortRewardConfig K} {batch : EffortBatch b K} {cost : Fin b → K}
    (henabled : isEnabled (some cfg) = true) (hcheck : checkCorrectness batch.correctness = .ok ())
    (hcost : effortCosts cfg batch.messageLog = .ok cost) :
    ∃ out, applyEffortReward A batch (some cfg) promptIds = .ok out := by
  rw [applyEffortReward,if_neg (by rw [henabled]; exact Bool.noConfusion)]
  exact ⟨_,Fallible.bind_eq_ok.mpr ⟨(),hcheck,Fallible.bind_eq_ok.mpr ⟨cost,hcost,rfl⟩⟩⟩

omit [IsStrictOrderedRing K] in
theorem apply_correctness {cfg : Option (EffortRewardConfig K)} {batch out : EffortBatch b K}
    (h : applyEffortReward A batch cfg promptIds = .ok out) : ∃ out',
      applyEffortReward A { batch with
        totalReward := batch.correctness, unshapedTotalReward := some batch.correctness } cfg promptIds =
          .ok out' := by
  cases cfg with
  | none => exact ⟨_,rfl⟩
  | some cfg =>
    rw [applyEffortReward] at h ⊢
    by_cases henabled : isEnabled (some cfg) = false
    · rw [if_pos henabled]
      exact ⟨_,rfl⟩
    · rw [if_neg henabled] at h ⊢
      obtain ⟨⟨⟩,hcheck,h⟩ := Fallible.bind_eq_ok.mp h
      obtain ⟨cost,hcost,-⟩ := Fallible.bind_eq_ok.mp h
      exact ⟨_,Fallible.bind_eq_ok.mpr ⟨(),hcheck,Fallible.bind_eq_ok.mpr ⟨cost,hcost,rfl⟩⟩⟩

/-- What holds of a batch behind the term, and of another one: within the group of a prompt a success
stays above every failure. -/
structure RankingKept [DecidableEq P] (cfg : Option (EffortRewardConfig K)) (promptIds : Fin b → P)
    (batch out : EffortBatch b K) : Prop where
  order_iff : ∀ i j, promptIds i = promptIds j → batch.correctness j < batch.correctness i →
    (out.totalReward j < out.totalReward i ↔
      penalty cfg (batch.correctness i) (groupMean promptIds batch.correctness i) (batch.tokens i) -
        penalty cfg (batch.correctness j) (groupMean promptIds batch.correctness i) (batch.tokens j) <
          batch.correctness i - batch.correctness j)
  success : ∀ i j, promptIds i = promptIds j → batch.correctness j = 0 → 0 < batch.correctness i →
    out.totalReward j < out.totalReward i
  shorter : ∀ i j, promptIds i = promptIds j → batch.correctness j < batch.correctness i →
    batch.tokens i ≤ batch.tokens j → out.totalReward j < out.totalReward i
  longer : ∀ i j, promptIds i = promptIds j → batch.correctness i = batch.correctness j →
    batch.tokens i ≤ batch.tokens j → out.totalReward j ≤ out.totalReward i
  failure : ∀ i, batch.correctness i = 0 → out.totalReward i = 0

theorem rankingKept {cfg : Option (EffortRewardConfig K)} (hcfg : Accepted cfg)
    {batch out : EffortBatch b K} (h : applyEffortReward A batch cfg promptIds = .ok out)
    (hentering : batch.totalReward = batch.correctness) : RankingKept cfg promptIds batch out := by
  obtain ⟨hout,hrange⟩ := apply_cases A h
  have hgroup : ∀ {i j}, promptIds i = promptIds j →
      groupMean promptIds batch.correctness j = groupMean promptIds batch.correctness i := by
    intro i j hij
    rw [groupMean,groupMean,hij]
  refine ⟨fun i j hij _ => ?_,fun i j hij hj hi => ?_,fun i j hij hlt htokens => ?_,
    fun i j hij heq htokens => ?_,fun i hi => ?_⟩
  · rw [hout i,hout j,hgroup hij,hentering]
    exact ⟨fun h => by linarith,fun h => by linarith⟩
  · rw [hout i,hout j,hentering,hj,penalty_zero,sub_zero]
    exact sub_pos.mpr (penalty_lt hcfg hi _ _)
  · rw [hout i,hout j,hgroup hij,hentering]
    have hless : penalty cfg (batch.correctness i) (groupMean promptIds batch.correctness i)
        (batch.tokens i) ≤ penalty cfg (batch.correctness i)
          (groupMean promptIds batch.correctness i) (batch.tokens j) := by
      rcases hrange with hrange | hinert
      · exact penalty_mono_tokens hcfg (hrange i).1 _ htokens
      · rw [hinert,hinert]
    exact (sub_penalty_mono hcfg hlt _ _).trans_le (sub_le_sub_left hless _)
  · rw [hout i,hout j,hgroup hij,hentering,heq]
    refine sub_le_sub_left ?_ _
    rcases hrange with hrange | hinert
    · exact penalty_mono_tokens hcfg (hrange j).1 _ htokens
    · rw [hinert,hinert]
  · rw [hout i,hentering,hi,penalty_zero,sub_zero]

/-- What the term does to the ranking of the rewards, how the penalty grows with the pass rate, and
that what happened to a reward before is kept. -/
theorem effort_ranking {cfg : Option (EffortRewardConfig K)} {estimatorName trainer context : String}
    (hcfg : validateEffortRewardConfig cfg estimatorName trainer context = .ok ())
    {batch out : EffortBatch b K} (h : applyEffortReward A batch cfg promptIds = .ok out) :
    (batch.totalReward = batch.correctness → RankingKept cfg promptIds batch out) ∧
    (∀ (b' : ℕ) (promptIds' : Fin b' → P) (batch' out' : EffortBatch b' K),
      applyEffortReward A batch' cfg promptIds' = .ok out' →
        ∀ i i', batch.correctness i = batch'.correctness i' → batch.tokens i = batch'.tokens i' →
          groupMean promptIds batch.correctness i ≤ groupMean promptIds' batch'.correctness i' →
            batch.totalReward i - out.totalReward i ≤ batch'.totalReward i' - out'.totalReward i') ∧
    ∃ out', applyEffortReward A { batch with
        totalReward := batch.correctness, unshapedTotalReward := some batch.correctness } cfg promptIds =
          .ok out' ∧
      ∀ i, out.totalReward i - out'.totalReward i = batch.totalReward i - batch.correctness i := by
  have haccepted := accepted_of_validate hcfg
  obtain ⟨hout,hrange⟩ := apply_cases A h
  refine ⟨rankingKept A haccepted h,fun b' promptIds' batch' out' h' i i' hc htokens hmean => ?_,?_⟩
  · obtain ⟨hout',-⟩ := apply_cases A h'
    rw [hout i,hout' i',sub_sub_cancel,sub_sub_cancel,← hc,← htokens]
    rcases hrange with hrange | hinert
    · exact penalty_mono_passRate haccepted (hrange i).1 hmean _
    · rw [hinert,hinert]
  · obtain ⟨out',hout'⟩ := apply_correctness A h
    refine ⟨out',hout',fun i => ?_⟩
    have hsame := (apply_cases A hout').1 i
    refine (congrArg₂ (· - ·) (hout i) hsame).trans ?_
    exact sub_sub_sub_cancel_right _ _ _

end Batch

def twoRowsCfg (coefficient : ℚ) : EffortRewardConfig ℚ :=
  ⟨some true,some coefficient,none,none,some 1⟩

/-- A correct response of one token, and an empty one that is correct to a degree. -/
def twoRows (correctness : ℚ) : EffortBatch 2 ℚ where
  totalReward i := if i = 0 then 1 else correctness
  unshapedTotalReward := none
  messageLog := [[⟨some "assistant",some [7]⟩],[⟨some "user",some [7]⟩]]
  effortCost := none
  effortPassRate := none

def rationals : Arithmetic ℚ := ⟨id,fun x _ => x,0⟩

theorem validate_twoRows : validateEffortRewardConfig (some (twoRowsCfg (9 / 10))) "grpo" "sync"
    "grpo.effort_reward" = .ok () := by
  simp [validateEffortRewardConfig,isEnabled,twoRowsCfg,EffortRewardConfig.lam,
    EffortRewardConfig.maxTokens,EffortRewardConfig.exponent,EffortRewardConfig.floor,
    supportedEstimators,supportedTrainers]
  norm_num

theorem apply_twoRows : ∃ out, applyEffortReward rationals (twoRows (1 / 2))
    (some (twoRowsCfg (9 / 10))) (fun _ => 0) = .ok out := by
  refine apply_ok _ rfl ?_ (dif_pos rfl)
  rw [checkCorrectness]
  simp [EffortBatch.correctness,twoRows]
  norm_num

theorem effort_ranking_twoRows : ∃ out, applyEffortReward rationals (twoRows (1 / 2))
    (some (twoRowsCfg (9 / 10))) (fun _ => 0) = .ok out ∧
      RankingKept (some (twoRowsCfg (9 / 10))) (fun _ => 0) (twoRows (1 / 2)) out := by
  obtain ⟨out,hout⟩ := apply_twoRows
  exact ⟨out,hout,(effort_ranking rationals validate_twoRows hout).1 rfl⟩

/-- The response that is half correct ends above the one that is wholly correct. -/
theorem effort_inverts : (twoRows (1 / 2)).totalReward = (twoRows (1 / 2)).correctness ∧
    (twoRows (1 / 2)).correctness 1 < (twoRows (1 / 2)).correctness 0 ∧
    validateEffortRewardConfig (some (twoRowsCfg (9 / 10))) "grpo" "sync" "grpo.effort_reward" = .ok () ∧
    ∃ out, applyEffortReward rationals (twoRows (1 / 2)) (some (twoRowsCfg (9 / 10))) (fun _ => 0) =
      .ok out ∧ out.totalReward 0 < out.totalReward 1 := by
  obtain ⟨out,hout⟩ := apply_twoRows
  refine ⟨rfl,by decide +kernel,validate_twoRows,out,hout,?_⟩
  rw [(apply_cases rationals hout).1,(apply_cases rationals hout).1]
  decide +kernel

end EffortReward
end Grpo
end DockyardRL
