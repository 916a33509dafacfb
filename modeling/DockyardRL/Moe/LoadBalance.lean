import DockyardRL.Lib.Numerals
import Mathlib

/-! Load balancing without an auxiliary loss: every forward counts the tokens that it routes, and an
optimizer step moves the bias of the experts by the signs of what was counted on all ranks. -/
namespace DockyardRL
namespace Moe
namespace LoadBalance

open Finset Numerals

variable {ranks blocks experts : ℕ} {K : Type}

/-- The buffers of a load-balanced block; the counter is not persistent. -/
structure MoEBlock (experts : ℕ) (K : Type) where
  expertBias : Fin experts → K
  tokensPerExpert : Fin experts → ℕ

abbrev Worker (blocks experts : ℕ) (K : Type) : Type := Fin blocks → MoEBlock experts K

abbrev State (ranks blocks experts : ℕ) (K : Type) : Type := Fin ranks → Worker blocks experts K

abbrev Counts (blocks experts : ℕ) : Type := Fin blocks → Fin experts → ℕ

/-- What is configured: the size of a step of every block, the bias of the reference model, and whether
the backward pass of a block runs its forward again. -/
structure Config (blocks experts : ℕ) (K : Type) where
  loadBalanceCoeff : Fin blocks → K
  referenceBias : Fin blocks → Fin experts → K
  activationCheckpointing : Bool

inductive Pass
  | train
  | logprob
  | evaluation
  deriving DecidableEq, Repr

/-- A micro-batch of a rank, a reference pass of a rank with its micro-batches, or an optimizer step of
all ranks. -/
inductive Event (ranks blocks experts : ℕ)
  | forward (rank : Fin ranks) (pass : Pass) (counts : Counts blocks experts)
  | reference (rank : Fin ranks) (microBatches : List (Counts blocks experts))
  | optimizerStep

/-- `MoEBlock.forward` of all blocks. -/
def forward (worker : Worker blocks experts K) (counts : Counts blocks experts) :
    Worker blocks experts K :=
  fun b => { worker b with tokensPerExpert := fun e => (worker b).tokensPerExpert e + counts b e }

variable (config : Config blocks experts K)

def microBatch (worker : Worker blocks experts K) (pass : Pass) (counts : Counts blocks experts) :
    Worker blocks experts K :=
  if pass = .train ∧ config.activationCheckpointing then forward (forward worker counts) counts
  else forward worker counts

/-- The forwards under `use_reference_model`, which saves the state dict, copies that of the reference
model into it and copies what was saved back. -/
def referencePass (worker : Worker blocks experts K) (microBatches : List (Counts blocks experts)) :
    Worker blocks experts K :=
  let swapped : Worker blocks experts K := fun b => { worker b with expertBias := config.referenceBias b }
  let after := microBatches.foldl forward swapped
  fun b => { after b with expertBias := (worker b).expertBias }

section Step

variable [Field K] [LinearOrder K]

def mean (f : Fin experts → K) : K := (∑ e, f e) / experts

def computeExpertBiasDelta (tokensPerExpert : Fin experts → K) (loadBalanceCoeff : K) :
    Fin experts → K :=
  let delta : Fin experts → K := fun e =>
    loadBalanceCoeff * (SignType.sign (mean tokensPerExpert - tokensPerExpert e) : K)
  fun e => delta e - mean delta

/-- `_reduce_tokens_per_expert`: the sum over all ranks. -/
def reduceTokensPerExpert (s : State ranks blocks experts K) (b : Fin blocks) (e : Fin experts) : ℕ :=
  ∑ r, (s r b).tokensPerExpert e

/-- `update_expert_biases`, which every rank runs before its optimizer steps. -/
def updateExpertBiases (s : State ranks blocks experts K) : State ranks blocks experts K :=
  fun r b => {
    expertBias := fun e => (s r b).expertBias e +
      computeExpertBiasDelta (fun e => (reduceTokensPerExpert s b e : K)) (config.loadBalanceCoeff b) e
    tokensPerExpert := fun _ => 0 }

def step (s : State ranks blocks experts K) : Event ranks blocks experts → State ranks blocks experts K
  | .forward rank pass counts => Function.update s rank (microBatch config (s rank) pass counts)
  | .reference rank microBatches => Function.update s rank (referencePass config (s rank) microBatches)
  | .optimizerStep => updateExpertBiases config s

def run (s : State ranks blocks experts K) (events : List (Event ranks blocks experts)) :
    State ranks blocks experts K := events.foldl (step config) s

end Step

/-- The tokens of the training micro-batches of all ranks since the last optimizer step. -/
def trainingLoad (events : List (Event ranks blocks experts)) : Counts blocks experts :=
  events.foldl (fun load event => match event with
    | .forward _ .train counts => fun b e => load b e + counts b e
    | .forward _ _ _ => load
    | .reference _ _ => load
    | .optimizerStep => fun _ _ => 0) fun _ _ => 0

def otherLoad (events : List (Event ranks blocks experts)) : Counts blocks experts :=
  events.foldl (fun load event => match event with
    | .forward _ .train _ => load
    | .forward _ _ counts => fun b e => load b e + counts b e
    | .reference _ microBatches => fun b e => load b e + (microBatches.map fun counts => counts b e).sum
    | .optimizerStep => fun _ _ => 0) fun _ _ => 0

/-- How often a training micro-batch is counted. -/
def Config.recounts (config : Config blocks experts K) : ℕ :=
  if config.activationCheckpointing then 2 else 1

/-- All ranks have one bias, and nothing has been counted. -/
structure Initial (s : State ranks blocks experts K) : Prop where
  agree : ∀ r r' b, (s r b).expertBias = (s r' b).expertBias
  zero : ∀ r b e, (s r b).tokensPerExpert e = 0

section Passes

variable {config} (worker : Worker blocks experts K)

theorem expertBias_microBatch (pass : Pass) (counts : Counts blocks experts) (b : Fin blocks) :
    (microBatch config worker pass counts b).expertBias = (worker b).expertBias := by
  unfold microBatch
  split <;> rfl

theorem tokens_microBatch (pass : Pass) (counts : Counts blocks experts) (b : Fin blocks)
    (e : Fin experts) : (microBatch config worker pass counts b).tokensPerExpert e =
      (worker b).tokensPerExpert e + (if pass = .train then config.recounts else 1) * counts b e := by
  unfold microBatch Config.recounts
  by_cases hpass : pass = .train
  · by_cases hcheckpoint : config.activationCheckpointing = true
    · rw [if_pos ⟨hpass,hcheckpoint⟩,if_pos hpass,if_pos hcheckpoint]
      simp only [forward]
      ring
    · rw [if_neg fun h => hcheckpoint h.2,if_pos hpass,if_neg hcheckpoint,Nat.one_mul]
      rfl
  · rw [if_neg fun h => hpass h.1,if_neg hpass,Nat.one_mul]
    rfl

theorem expertBias_referencePass (microBatches : List (Counts blocks experts)) (b : Fin blocks) :
    (referencePass config worker microBatches b).expertBias = (worker b).expertBias := rfl

theorem tokens_forwards (microBatches : List (Counts blocks experts)) (b : Fin blocks)
    (e : Fin experts) : (microBatches.foldl forward worker b).tokensPerExpert e =
      (worker b).tokensPerExpert e + (microBatches.map fun counts => counts b e).sum := by
  induction microBatches generalizing worker with
  | nil => rfl
  | cons counts rest ih =>
    rw [List.foldl_cons,ih,List.map_cons,List.sum_cons,← Nat.add_assoc]
    rfl

theorem tokens_referencePass (microBatches : List (Counts blocks experts)) (b : Fin blocks)
    (e : Fin experts) : (referencePass config worker microBatches b).tokensPerExpert e =
      (worker b).tokensPerExpert e + (microBatches.map fun counts => counts b e).sum :=
  tokens_forwards _ microBatches b e

end Passes

section Runs

variable [Field K] [LinearOrder K] {config} {s : State ranks blocks experts K}

theorem expertBias_step {event : Event ranks blocks experts} (h : event ≠ .optimizerStep) (r : Fin ranks)
    (b : Fin blocks) : (step config s event r b).expertBias = (s r b).expertBias := by
  cases event with
  | forward rank pass counts =>
    rcases eq_or_ne r rank with rfl | hne
    · rw [step,Function.update_self,expertBias_microBatch]
    · rw [step,Function.update_of_ne hne]
  | reference rank microBatches =>
    rcases eq_or_ne r rank with rfl | hne
    · rw [step,Function.update_self,expertBias_referencePass]
    · rw [step,Function.update_of_ne hne]
  | optimizerStep => exact absurd rfl h

omit [Field K] [LinearOrder K] in
theorem reduce_update {rank : Fin ranks} {worker : Worker blocks experts K} {b : Fin blocks}
    {e : Fin experts} {n : ℕ}
    (h : (worker b).tokensPerExpert e = (s rank b).tokensPerExpert e + n) :
    reduceTokensPerExpert (Function.update s rank worker) b e = reduceTokensPerExpert s b e + n := by
  have hrest : ∑ r ∈ univ.erase rank, (Function.update s rank worker r b).tokensPerExpert e =
      ∑ r ∈ univ.erase rank, (s r b).tokensPerExpert e :=
    sum_congr rfl fun r hr => by rw [Function.update_of_ne (ne_of_mem_erase hr)]
  rw [reduceTokensPerExpert,reduceTokensPerExpert,← add_sum_erase _ _ (mem_univ rank),
    ← add_sum_erase univ (fun r => (s r b).tokensPerExpert e) (mem_univ rank),hrest,
    Function.update_self,h]
  omega

theorem reduce_run (hs : Initial s) (events : List (Event ranks blocks experts)) (b : Fin blocks)
    (e : Fin experts) : reduceTokensPerExpert (run config s events) b e =
      config.recounts * trainingLoad events b e + otherLoad events b e := by
  induction events using List.reverseRecOn with
  | nil =>
    show ∑ r, (s r b).tokensPerExpert e = config.recounts * 0 + 0
    exact sum_eq_zero fun r _ => hs.zero r b e
  | append_singleton events event ih =>
    rw [run,List.foldl_append,trainingLoad,List.foldl_append,otherLoad,List.foldl_append]
    rw [run,trainingLoad,otherLoad] at ih
    simp only [List.foldl_cons,List.foldl_nil]
    cases event with
    | forward rank pass counts =>
      rw [step,reduce_update (tokens_microBatch _ pass counts b e),ih]
      cases pass with
      | train =>
        simp only [if_true]
        ring
      | logprob =>
        simp only [reduceCtorEq,if_false]
        ring
      | evaluation =>
        simp only [reduceCtorEq,if_false]
        ring
    | reference rank microBatches =>
      rw [step,reduce_update (tokens_referencePass _ microBatches b e),ih,Nat.add_assoc]
    | optimizerStep => exact sum_eq_zero fun r _ => rfl

variable [IsStrictOrderedRing K]

omit [LinearOrder K] [IsStrictOrderedRing K] in
theorem sum_sub_mean [CharZero K] (f : Fin experts → K) : ∑ e, (f e - mean f) = 0 := by
  rcases Nat.eq_zero_or_pos experts with rfl | hpos
  · exact Fin.sum_univ_zero _
  · have hne : (experts : K) ≠ 0 := Nat.cast_ne_zero.mpr hpos.ne'
    rw [sum_sub_distrib,sum_const,card_univ,Fintype.card_fin,nsmul_eq_mul,mean,mul_div_cancel₀ _ hne,
      sub_self]

theorem delta_mul {n : ℕ} (hn : 0 < n) (load : Fin experts → ℕ) (coeff : K) :
    computeExpertBiasDelta (fun e => ((n * load e : ℕ) : K)) coeff =
      computeExpertBiasDelta (fun e => (load e : K)) coeff := by
  have hpos : (0 : K) < n := Nat.cast_pos.mpr hn
  have hsign : ∀ e, SignType.sign (mean (fun e => ((n * load e : ℕ) : K)) - ((n * load e : ℕ) : K)) =
      SignType.sign (mean (fun e => (load e : K)) - (load e : K)) := by
    intro e
    have hfactor : mean (fun e => ((n * load e : ℕ) : K)) - ((n * load e : ℕ) : K) =
        n * (mean (fun e => (load e : K)) - (load e : K)) := by
      simp only [mean,Nat.cast_mul,← mul_sum]
      ring
    rw [hfactor,sign_mul,sign_pos hpos,one_mul]
  simp only [computeExpertBiasDelta,hsign]

omit [IsStrictOrderedRing K] in
theorem delta_eq (tokens : Fin experts → K) (coeff : K) (e : Fin experts) :
    computeExpertBiasDelta tokens coeff e =
      coeff * ((SignType.sign (mean tokens - tokens e) : K) -
        mean fun f => (SignType.sign (mean tokens - tokens f) : K)) := by
  simp only [computeExpertBiasDelta]
  rw [mul_sub,mean,mean,← mul_sum,mul_div_assoc]
  rfl

theorem run_invariant (hs : Initial s) (events : List (Event ranks blocks experts)) :
    (∀ r r' b, (run config s events r b).expertBias = (run config s events r' b).expertBias) ∧
    ∀ r b, ∑ e, (run config s events r b).expertBias e = ∑ e, (s r b).expertBias e := by
  induction events using List.reverseRecOn with
  | nil => exact ⟨hs.agree,fun _ _ => rfl⟩
  | append_singleton events event ih =>
    obtain ⟨hagree,hsum⟩ := ih
    have hstep : run config s (events ++ [event]) = step config (run config s events) event := by
      rw [run,List.foldl_append]
      rfl
    rw [hstep]
    by_cases hevent : event = .optimizerStep
    · subst hevent
      refine ⟨fun r r' b => ?_,fun r b => ?_⟩
      · simp only [step,updateExpertBiases,hagree r r' b]
      · rw [← hsum r b]
        simp only [step,updateExpertBiases,sum_add_distrib]
        rw [computeExpertBiasDelta,sum_sub_mean,add_zero]
    · refine ⟨fun r r' b => ?_,fun r b => ?_⟩
      · rw [expertBias_step hevent,expertBias_step hevent,hagree r r' b]
      · rw [expertBias_step hevent,hsum r b]

/-- After any run the bias is one on all ranks, sums to what it did at the start and is moved by no
pass; and where no other pass than training ones has routed a token since the last optimizer step, the
next one moves it by the signs of the training load. -/
theorem bias_steps_on_training_load (hs : Initial s) (events : List (Event ranks blocks experts)) :
    (∀ r r' b, (run config s events r b).expertBias = (run config s events r' b).expertBias) ∧
    (∀ r b, ∑ e, (run config s events r b).expertBias e = ∑ e, (s r b).expertBias e) ∧
    (∀ event ≠ Event.optimizerStep, ∀ r b, (step config (run config s events) event r b).expertBias =
      (run config s events r b).expertBias) ∧
    ((∀ b e, otherLoad events b e = 0) → ∀ r b e,
      (step config (run config s events) .optimizerStep r b).expertBias e =
        (run config s events r b).expertBias e + config.loadBalanceCoeff b *
          ((SignType.sign (mean (fun f => (trainingLoad events b f : K)) - trainingLoad events b e) : K) -
            mean fun f => (SignType.sign
              (mean (fun f => (trainingLoad events b f : K)) - trainingLoad events b f) : K))) := by
  obtain ⟨hagree,hsum⟩ := run_invariant hs events
  refine ⟨hagree,hsum,fun event hevent r b => expertBias_step hevent r b,fun hother r b e => ?_⟩
  have hrecounts : 0 < config.recounts := by
    unfold Config.recounts
    split <;> decide
  have hreduced : (fun f => (reduceTokensPerExpert (run config s events) b f : K)) =
      fun f => ((config.recounts * trainingLoad events b f : ℕ) : K) := by
    funext f
    rw [reduce_run hs,hother,Nat.add_zero]
  show (run config s events r b).expertBias e + computeExpertBiasDelta
    (fun f => (reduceTokensPerExpert (run config s events) b f : K)) (config.loadBalanceCoeff b) e = _
  rw [hreduced,delta_mul hrecounts,delta_eq]

end Runs

def unitConfig : Config 1 2 ℚ := ⟨fun _ => 1,fun _ _ => 0,false⟩

def unitState : State 1 1 2 ℚ := fun _ _ => ⟨fun _ => 0,fun _ => 0⟩

theorem initial_unitState : Initial unitState := ⟨fun _ _ _ => rfl,fun _ _ _ => rfl⟩

def evenBatch : Event 1 1 2 := .forward 0 .train fun _ _ => 1

/-- Three of four tokens go to the first expert. -/
def unevenBatch : Event 1 1 2 := .forward 0 .train fun _ e => if e = 0 then 3 else 1

theorem bias_steps_unevenBatch :
    (step unitConfig (run unitConfig unitState [unevenBatch]) .optimizerStep 0 0).expertBias 0 = -1 ∧
      (step unitConfig (run unitConfig unitState [unevenBatch]) .optimizerStep 0 0).expertBias 1 = 1 := by
  have hsteps : ∀ e, (step unitConfig (run unitConfig unitState [unevenBatch]) .optimizerStep 0 0).expertBias e =
      _ := (bias_steps_on_training_load initial_unitState [unevenBatch]).2.2.2 (by decide) 0 0
  exact ⟨(hsteps 0).trans (by decide +kernel),(hsteps 1).trans (by decide +kernel)⟩

/-- The log-probabilities before the training step route two tokens to the first expert. -/
def unevenRun : List (Event 1 1 2) := [.forward 0 .logprob fun _ e => if e = 0 then 2 else 0,evenBatch]

/-- The bias moves although the training load is even. -/
theorem bias_moves_unevenRun :
    (step unitConfig (run unitConfig unitState unevenRun) .optimizerStep 0 0).expertBias 0 ≠
      (run unitConfig unitState unevenRun 0 0).expertBias 0 + 1 *
        ((SignType.sign (mean (fun f => (trainingLoad unevenRun 0 f : ℚ)) -
          trainingLoad unevenRun 0 0) : ℚ) - mean fun f => (SignType.sign
            (mean (fun f => (trainingLoad unevenRun 0 f : ℚ)) - trainingLoad unevenRun 0 f) : ℚ)) := by
  decide +kernel

end LoadBalance
end Moe
end DockyardRL
