import Mathlib.Algebra.BigOperators.Fin
import Mathlib.Algebra.Order.Field.Basic

/-! Columns of a batch of token sequences, and what both implementations of the policy-gradient loss
compute with them.

The clipped policy-gradient loss as the trainer on PyTorch computes it. -/
namespace DockyardRL
namespace Loss

/-- `[B, S]`. -/
abbrev Column (b s : ℕ) (K : Type) : Type := Fin b → Fin s → K

/-- `[:, 1:]`. -/
def Column.tail {b s : ℕ} {K : Type} (x : Column b (s + 1) K) : Column b s K := fun i j => x i j.succ

/-- The elementwise functions, of which nothing is assumed. -/
structure Functions (K : Type) where
  exp : K → K
  log : K → K
  nanToNum : K → K
  stopGradient : K → K

/-- What a call raises. -/
inductive PyError
  | valueError (message : String)
  | assertionError (message : String)
  | typeError
  deriving DecidableEq, Repr

abbrev Py := Except PyError

/-- `if condition: raise ValueError(message)`. -/
def raiseIf (condition : Bool) (message : String) : Py Unit :=
  if condition then .error (.valueError message) else .ok ()

/-- `{x!r}` of a plain string or of `None`. -/
def pyRepr : Option String → String
  | none => "None"
  | some x => "'" ++ x ++ "'"

section Field

variable {K : Type} [Field K] [LinearOrder K] {b s : ℕ}

/-- `clamp(lo, hi)`; where `hi < lo` the result is `hi`. -/
def clamp (lo hi x : K) : K := min (max x lo) hi

/-- `sum()`. -/
def Column.sum (x : Column b s K) : K := ∑ i, ∑ j, x i j

/-- `token_mask * sample_mask.unsqueeze(-1)`. -/
def lossMask (tokenMask : Column b s K) (sampleMask : Fin b → K) : Column b s K :=
  fun i j => tokenMask i j * sampleMask i

/-- Importance weights of shape `[B, 1]` or `[B, S]`. -/
inductive Weights (b s : ℕ) (K : Type)
  | sequences (w : Fin b → K)
  | tokens (w : Column b s K)

namespace Weights

/-- Broadcast to `[B, S]`. -/
def expand : Weights b s K → Column b s K
  | .sequences w => fun i _ => w i
  | .tokens w => w

def map (f : K → K) : Weights b s K → Weights b s K
  | .sequences w => .sequences fun i => f (w i)
  | .tokens w => .tokens fun i j => f (w i j)

/-- The product with a column of shape `[B, 1]`. -/
def mulRows (v : Fin b → K) : Weights b s K → Weights b s K
  | .sequences w => .sequences fun i => w i * v i
  | .tokens w => .tokens fun i j => w i j * v i

end Weights

/-- The columns of the batch. -/
structure LossData (b s : ℕ) (K : Type) where
  tokenMask : Column b (s + 1) K
  sampleMask : Fin b → K
  advantages : Column b (s + 1) K
  prevLogprobs : Column b (s + 1) K
  generationLogprobs : Column b (s + 1) K
  referencePolicyLogprobs : Column b (s + 1) K
  currLogprobsUnfiltered : Option (Column b s K)

/-- The metrics that both implementations report. -/
@[ext] structure Metrics (K : Type) where
  loss : K
  probsRatio : K
  probsRatioClamped : K
  klPenalty : K
  tokenMultProbError : K
  genKlError : K
  policyKlError : K
  jsDivergenceError : K
  samplingImportanceRatio : K
  numValidSamples : K
  approxEntropy : K

end Field

structure ClippedPGLossConfig (K : Type) where
  disablePpoRatio : Bool
  tokenLevelLoss : Bool
  sequenceLevelImportanceRatios : Bool
  ratioClipMin : K
  ratioClipMax : K
  ratioClipC : Option K
  referencePolicyKlPenalty : K
  referencePolicyKlType : String
  klInputClampValue : Option K
  klOutputClampValue : Option K
  useImportanceSamplingCorrection : Bool
  truncatedImportanceSamplingType : Option String
  truncatedImportanceSamplingRatio : Option K
  truncatedImportanceSamplingRatioMin : Option K
  useOnPolicyKlApproximation : Bool
  forceOnPolicyRatio : Bool
  useCispo : Bool

inductive LossType
  | tokenLevel
  | sequenceLevel
  deriving DecidableEq, Repr

/-- The attributes of a `ClippedPGLossFn`. -/
structure ClippedPGLossFn (K : Type) where
  disablePpoRatio : Bool
  ratioClipMin : K
  ratioClipMax : K
  ratioClipC : Option K
  referencePolicyKlPenalty : K
  referencePolicyKlType : String
  klInputClampValue : Option K
  klOutputClampValue : Option K
  useImportanceSamplingCorrection : Bool
  truncatedImportanceSamplingType : Option String
  truncatedImportanceSamplingRatio : Option K
  truncatedImportanceSamplingRatioMin : Option K
  useOnPolicyKlApproximation : Bool
  forceOnPolicyRatio : Bool
  sequenceLevelImportanceRatios : Bool
  lossType : LossType
  useCispo : Bool

namespace ClippedPGLossFn

variable {K : Type} [Field K] [LinearOrder K] {b s : ℕ}

/-- The attributes as they are set before anything is checked. -/
def ofConfig (cfg : ClippedPGLossConfig K) : ClippedPGLossFn K where
  disablePpoRatio := cfg.disablePpoRatio
  ratioClipMin := cfg.ratioClipMin
  ratioClipMax := cfg.ratioClipMax
  ratioClipC := cfg.ratioClipC
  referencePolicyKlPenalty := cfg.referencePolicyKlPenalty
  referencePolicyKlType := cfg.referencePolicyKlType
  klInputClampValue := cfg.klInputClampValue
  klOutputClampValue := cfg.klOutputClampValue
  useImportanceSamplingCorrection := cfg.useImportanceSamplingCorrection
  truncatedImportanceSamplingType := cfg.truncatedImportanceSamplingType
  truncatedImportanceSamplingRatio := cfg.truncatedImportanceSamplingRatio
  truncatedImportanceSamplingRatioMin := cfg.truncatedImportanceSamplingRatioMin
  useOnPolicyKlApproximation := cfg.useOnPolicyKlApproximation
  forceOnPolicyRatio := cfg.forceOnPolicyRatio
  sequenceLevelImportanceRatios := cfg.sequenceLevelImportanceRatios
  lossType := if cfg.tokenLevelLoss then .tokenLevel else .sequenceLevel
  useCispo := cfg.useCispo

def notPositive : Option K → Bool
  | none => true
  | some ratio => ratio ≤ 0

def exceeds : Option K → Option K → Bool
  | some ratioMin,some ratio => ratio < ratioMin
  | _,_ => false

/-- The checks of `__init__`, on the attributes. -/
def check (self : ClippedPGLossFn K) : Py Unit := do
  raiseIf (self.useCispo && self.disablePpoRatio)
    "use_cispo is incompatible with disable_ppo_ratio; CISPO needs the pi_theta/pi_theta_old ratio that disable_ppo_ratio removes"
  raiseIf (self.useCispo && self.forceOnPolicyRatio)
    "use_cispo is incompatible with force_on_policy_ratio; forcing ratio=1 removes the clipped IS-weight CISPO optimizes"
  raiseIf (self.useCispo && self.sequenceLevelImportanceRatios)
    "use_cispo is incompatible with sequence_level_importance_ratios; CISPO uses token-level importance weights"
  raiseIf (self.useCispo && self.ratioClipC.isSome)
    "use_cispo is incompatible with dual clipping (ratio_clip_c); the dual-clip block runs after CISPO loss assembly and would overwrite it"
  raiseIf (self.useCispo && self.lossType != .tokenLevel)
    "use_cispo requires token_level_loss=True (LossType.TOKEN_LEVEL)"
  raiseIf (self.sequenceLevelImportanceRatios && self.lossType != .sequenceLevel)
    "sequence_level_importance_ratios is mutually exclusive with token_level_loss"
  match self.truncatedImportanceSamplingType with
  | none => .ok ()
  | some tisType => do
    raiseIf (!self.useImportanceSamplingCorrection)
      "truncated IS requires use_importance_sampling_correction=True"
    raiseIf (tisType != "tis" && tisType != "icepop" && tisType != "seq-mask-tis")
      ("Invalid truncated IS type: " ++ pyRepr (some tisType))
    raiseIf (notPositive self.truncatedImportanceSamplingRatio)
      "truncated_importance_sampling_ratio must be positive"
    raiseIf (exceeds self.truncatedImportanceSamplingRatioMin self.truncatedImportanceSamplingRatio)
      "truncated_importance_sampling_ratio_min must be <= truncated_importance_sampling_ratio"
    raiseIf ((tisType == "icepop" || tisType == "seq-mask-tis") &&
        self.truncatedImportanceSamplingRatioMin.isNone)
      "truncated_importance_sampling_ratio_min required for icepop / seq-mask-tis"
    raiseIf (tisType == "seq-mask-tis" && self.sequenceLevelImportanceRatios)
      "seq-mask-tis is incompatible with sequence_level_importance_ratios=True"

def init (cfg : ClippedPGLossConfig K) : Py (ClippedPGLossFn K) := do
  (ofConfig cfg).check
  .ok (ofConfig cfg)

end ClippedPGLossFn

section Utilities

variable {K : Type} [Field K] [LinearOrder K] {b s : ℕ}

/-- `masked_mean` with a global normalization factor. -/
def maskedMean (tensor mask : Column b s K) (globalNormalizationFactor : K) : K :=
  (Column.sum fun i j => tensor i j * mask i j) / max globalNormalizationFactor 1

/-- `masked_mean` of a vector with a global normalization factor. -/
def maskedMeanVector (tensor mask : Fin b → K) (globalNormalizationFactor : K) : K :=
  (∑ i, tensor i * mask i) / max globalNormalizationFactor 1

/-- `masked_mean` with `dim=-1`. -/
def maskedMeanRows (tensor mask : Column b s K) : Fin b → K :=
  fun i => (∑ j, tensor i j * mask i j) / max (∑ j, mask i j) 1

def calculateKl (fns : Functions K) (logprobs logprobsReference : Column b s K) (klType : String)
    (inputClampValue outputClampValue : Option K)
    (importanceSamplingWeights : Option (Column b s K)) : Py (Column b s K) := do
  let logRatio : Column b s K := fun i j => logprobs i j - logprobsReference i j
  let logRatioClamped : Column b s K := match inputClampValue with
    | none => logRatio
    | some v => fun i j => clamp (-v) v (logRatio i j)
  let weights : Option (Column b s K) := match inputClampValue with
    | none => importanceSamplingWeights
    | some _ => importanceSamplingWeights.map fun w i j =>
      if logRatio i j = logRatioClamped i j then w i j else fns.stopGradient (w i j)
  let kl : Column b s K ←
    if klType = "k1" then .ok logRatioClamped
    else if klType = "k2" then .ok fun i j => 1 / (2 : ℕ) * logRatioClamped i j ^ 2
    else if klType = "k3" then
      .ok fun i j => fns.exp (logRatioClamped i j) - logRatioClamped i j - 1
    else .error (.valueError ("Unknown kl_type " ++ pyRepr (some klType) ++
      ". Valid options: 'k1', 'k2', 'k3'."))
  let weighted : Column b s K := match weights with
    | none => kl
    | some w => fun i j => w i j * kl i j
  .ok (match outputClampValue with
    | none => weighted
    | some v => fun i j => clamp (-v) v (weighted i j))

end Utilities

namespace ClippedPGLossFn

variable {K : Type} [Field K] [LinearOrder K] {b s : ℕ}
  (fns : Functions K) (self : ClippedPGLossFn K)

def prevLogprobs (currLogprobs : Column b s K) (data : LossData b s K) : Column b s K :=
  if self.forceOnPolicyRatio then fun i j => fns.stopGradient (currLogprobs i j)
  else data.prevLogprobs.tail

/-- The metrics of staleness: `mult_prob_error`, `gen_kl_error`, `policy_kl_error` and
`js_divergence_error`. -/
def staleness (prev gen mask : Column b s K) (globalValidToks : K) : Py (K × K × K × K) := do
  let multProbError := maskedMean (fun i j => fns.exp (|gen i j - prev i j| * mask i j)) mask
    globalValidToks
  let genKl ← calculateKl fns gen prev self.referencePolicyKlType none none none
  let policyKl ← calculateKl fns prev gen self.referencePolicyKlType none none none
  let logMixture : Column b s K := fun i j =>
    fns.log (1 / (2 : ℕ) * fns.exp (prev i j) + 1 / (2 : ℕ) * fns.exp (gen i j))
  let klPrevToMixture : Column b s K := fun i j =>
    fns.exp (prev i j - logMixture i j) - (prev i j - logMixture i j) - 1
  let klGenToMixture : Column b s K := fun i j =>
    fns.exp (gen i j - logMixture i j) - (gen i j - logMixture i j) - 1
  .ok (multProbError,maskedMean genKl mask globalValidToks,maskedMean policyKl mask globalValidToks,
    maskedMean (fun i j => 1 / (2 : ℕ) * klPrevToMixture i j + 1 / (2 : ℕ) * klGenToMixture i j) mask
      globalValidToks)

def levelMean (x tokenMask mask : Column b s K) (sampleMask : Fin b → K)
    (globalValidSeqs globalValidToks : K) : K :=
  match self.lossType with
  | .tokenLevel => maskedMean x mask globalValidToks
  | .sequenceLevel => maskedMeanVector (maskedMeanRows x tokenMask) sampleMask globalValidSeqs

def klImportanceWeights (unfiltered gen : Column b s K) : Column b s K := fun i j =>
  fns.nanToNum (fns.exp
    (if self.useOnPolicyKlApproximation then unfiltered i j - gen i j
      else unfiltered i j - fns.stopGradient (unfiltered i j)))

/-- The regularisation by the reference policy. -/
def klTerm (curr gen reference tokenMask mask : Column b s K) (sampleMask : Fin b → K)
    (currLogprobsUnfiltered : Option (Column b s K)) (globalValidSeqs globalValidToks : K) : Py K :=
  if self.referencePolicyKlPenalty ≠ 0 then do
    let unfiltered := currLogprobsUnfiltered.getD curr
    let kl ← calculateKl fns unfiltered reference self.referencePolicyKlType self.klInputClampValue
      self.klOutputClampValue (some (self.klImportanceWeights fns unfiltered gen))
    .ok (self.levelMean (fun i j => self.referencePolicyKlPenalty * kl i j) tokenMask mask sampleMask
      globalValidSeqs globalValidToks)
  else .ok 0

/-- `ratios` and `ratios_clamped`. -/
def ratios (curr prev tokenMask : Column b s K) : Column b s K × Column b s K :=
  if self.forceOnPolicyRatio then
    let ratios : Column b s K := fun i j => fns.exp (curr i j - fns.stopGradient (curr i j))
    (ratios,ratios)
  else if !self.disablePpoRatio then
    let logRatios : Column b s K := fun i j => curr i j - prev i j
    let ratios : Column b s K :=
      if self.sequenceLevelImportanceRatios then
        fun i _ => fns.exp (maskedMeanRows logRatios tokenMask i)
      else fun i j => fns.exp (logRatios i j)
    (ratios,fun i j => clamp (1 - self.ratioClipMin) (1 + self.ratioClipMax) (ratios i j))
  else (curr,curr)

def clipLoss (curr advantages ratios ratiosClamped : Column b s K) : Py (Column b s K) :=
  let clipLoss : Column b s K :=
    if self.useCispo then
      fun i j => -advantages i j * fns.stopGradient (ratiosClamped i j) * curr i j
    else fun i j => max (-advantages i j * ratios i j) (-advantages i j * ratiosClamped i j)
  match self.ratioClipC with
  | none => .ok clipLoss
  | some c =>
    if 1 < c then
      .ok fun i j => if advantages i j < 0 then min (clipLoss i j) (-advantages i j * c)
        else clipLoss i j
    else .error (.assertionError "ratio_clip_c must exceed 1")

def actorImportanceWeights (prev gen mask : Column b s K) : Weights b s K :=
  if self.sequenceLevelImportanceRatios then
    .sequences fun i =>
      fns.nanToNum (fns.stopGradient (fns.exp (∑ j, (prev i j - gen i j) * mask i j)))
  else .tokens fun i j => fns.nanToNum (fns.exp (prev i j - gen i j))

/-- Truncated importance sampling: the weights, and `is_oob_ratio` where it is reported. -/
def truncate (prev gen tokenMask mask : Column b s K) (sampleMask : Fin b → K)
    (globalValidSeqs globalValidToks : K) (weights : Weights b s K) :
    Py (Weights b s K × Option K) :=
  match self.truncatedImportanceSamplingRatio with
  | none => .ok (weights,none)
  | some ratio =>
    if self.truncatedImportanceSamplingType = some "tis" then
      let tisMin := self.truncatedImportanceSamplingRatioMin.getD 0
      let tokenInBounds := weights.map fun x => if x ≤ ratio ∧ tisMin ≤ x then 1 else 0
      .ok (weights.map (clamp tisMin ratio),
        some (1 - maskedMean tokenInBounds.expand mask globalValidToks))
    else if self.truncatedImportanceSamplingType = some "icepop" then
      match self.truncatedImportanceSamplingRatioMin with
      | none => .error (.assertionError "")
      | some ratioMin =>
        let tokenKept := weights.map fun x => if ratioMin ≤ x ∧ x ≤ ratio then 1 else 0
        .ok (weights.map fun x => if ratioMin ≤ x ∧ x ≤ ratio then x else 0,
          some (1 - maskedMean tokenKept.expand mask globalValidToks))
    else if self.truncatedImportanceSamplingType = some "seq-mask-tis" then
      match self.truncatedImportanceSamplingRatioMin with
      | none => .error (.assertionError "")
      | some ratioMin =>
        let logIsRatio : Column b s K := fun i j => fns.nanToNum (prev i j - gen i j)
        let geomean : Fin b → K := fun i =>
          fns.stopGradient (fns.exp (maskedMeanRows logIsRatio tokenMask i))
        let seqKept : Fin b → K := fun i => if ratioMin ≤ geomean i ∧ geomean i ≤ ratio then 1 else 0
        .ok (weights.mulRows seqKept,some (1 - maskedMeanVector seqKept sampleMask globalValidSeqs))
    else .error (.valueError
      ("Invalid truncated IS type: " ++ pyRepr self.truncatedImportanceSamplingType))

def actorLoss (clipLoss tokenMask mask : Column b s K) (sampleMask : Fin b → K)
    (globalValidSeqs globalValidToks : K) (weights : Weights b s K) : K :=
  self.levelMean (fun i j =>
    (if self.useImportanceSamplingCorrection then weights.expand i j else 1) * clipLoss i j)
    tokenMask mask sampleMask globalValidSeqs globalValidToks

def sampleImportanceRatio (mask : Column b s K) (sampleMask : Fin b → K)
    (globalValidSeqs globalValidToks : K) : Weights b s K → K
  | .sequences w => maskedMeanVector w sampleMask globalValidSeqs
  | .tokens w => maskedMean w mask globalValidToks

def maskedValues (x mask : Column b s K) : List K :=
  (List.finRange b).flatMap fun i =>
    ((List.finRange s).filter fun j => mask i j ≠ 0).map fun j => x i j

/-- What is returned beside the loss; where no position is kept, the extrema are infinite. -/
structure Report (K : Type) where
  metrics : Metrics K
  probsRatioMin : Option K
  probsRatioMax : Option K
  probsRatioClampedMin : Option K
  probsRatioClampedMax : Option K
  isOobRatio : Option K

def call (currLogprobs : Column b s K) (data : LossData b s K)
    (globalValidSeqs globalValidToks : K) : Py (K × Report K) := do
  let tokenMask := data.tokenMask.tail
  let advantages := data.advantages.tail
  let gen := data.generationLogprobs.tail
  let mask := lossMask tokenMask data.sampleMask
  let prev := self.prevLogprobs fns currLogprobs data
  let stale ← self.staleness fns prev gen mask globalValidToks
  let kl ← self.klTerm fns currLogprobs gen data.referencePolicyLogprobs.tail tokenMask mask
    data.sampleMask data.currLogprobsUnfiltered globalValidSeqs globalValidToks
  let r := self.ratios fns currLogprobs prev tokenMask
  let clip ← self.clipLoss fns currLogprobs advantages r.1 r.2
  let truncated ← self.truncate fns prev gen tokenMask mask data.sampleMask globalValidSeqs
    globalValidToks (self.actorImportanceWeights fns prev gen mask)
  let actorLoss := self.actorLoss clip tokenMask mask data.sampleMask globalValidSeqs
    globalValidToks truncated.1
  let entropy := -maskedMean (fun i j => fns.exp (currLogprobs i j - gen i j) * currLogprobs i j)
    mask globalValidToks
  let loss := actorLoss + kl
  let detached : Column b s K := fun i j => fns.stopGradient (r.1 i j)
  let detachedClamped : Column b s K := fun i j => fns.stopGradient (r.2 i j)
  .ok (loss,{
    metrics := {
      loss := loss
      probsRatio := maskedMean detached mask globalValidToks
      probsRatioClamped := maskedMean detachedClamped mask globalValidToks
      klPenalty := if kl ≠ 0 then kl / self.referencePolicyKlPenalty else 0
      tokenMultProbError := stale.1
      genKlError := stale.2.1
      policyKlError := stale.2.2.1
      jsDivergenceError := stale.2.2.2
      samplingImportanceRatio := sampleImportanceRatio mask data.sampleMask globalValidSeqs
        globalValidToks truncated.1
      numValidSamples := ∑ i, data.sampleMask i
      approxEntropy := entropy }
    probsRatioMin := (maskedValues detached mask).min?
    probsRatioMax := (maskedValues detached mask).max?
    probsRatioClampedMin := (maskedValues detachedClamped mask).min?
    probsRatioClampedMax := (maskedValues detachedClamped mask).max?
    isOobRatio := truncated.2 })

end ClippedPGLossFn

end Loss
end DockyardRL
