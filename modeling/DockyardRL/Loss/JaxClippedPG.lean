import DockyardRL.Loss.ClippedPG

/-! The clipped policy-gradient loss as the trainer on JAX computes it, and the configuration that it
derives from the loss function it is given. -/
namespace DockyardRL
namespace Loss
namespace Jax

/-- `_DuckLossCfg` with the attributes `_LOSS_CFG_FIELDS` names; `use_cispo` is not one of them. -/
structure DuckLossCfg (K : Type) where
  ratioClipMin : K
  ratioClipMax : K
  ratioClipC : Option K
  referencePolicyKlPenalty : K
  referencePolicyKlType : String
  klInputClampValue : Option K
  klOutputClampValue : Option K
  useImportanceSamplingCorrection : Bool
  truncatedImportanceSamplingType : Option String
  truncatedImportanceSamplingRatio : Option K
  truncatedImportanceSamplingRatioMin : Option K
  useOnPolicyKlApproximation : Bool
  sequenceLevelImportanceRatios : Bool
  forceOnPolicyRatio : Bool
  disablePpoRatio : Bool
  tokenLevelLoss : Bool

def cfgFromLossFn {K : Type} (lossFn : ClippedPGLossFn K) : DuckLossCfg K where
  ratioClipMin := lossFn.ratioClipMin
  ratioClipMax := lossFn.ratioClipMax
  ratioClipC := lossFn.ratioClipC
  referencePolicyKlPenalty := lossFn.referencePolicyKlPenalty
  referencePolicyKlType := lossFn.referencePolicyKlType
  klInputClampValue := lossFn.klInputClampValue
  klOutputClampValue := lossFn.klOutputClampValue
  useImportanceSamplingCorrection := lossFn.useImportanceSamplingCorrection
  truncatedImportanceSamplingType := lossFn.truncatedImportanceSamplingType
  truncatedImportanceSamplingRatio := lossFn.truncatedImportanceSamplingRatio
  truncatedImportanceSamplingRatioMin := lossFn.truncatedImportanceSamplingRatioMin
  useOnPolicyKlApproximation := lossFn.useOnPolicyKlApproximation
  sequenceLevelImportanceRatios := lossFn.sequenceLevelImportanceRatios
  forceOnPolicyRatio := lossFn.forceOnPolicyRatio
  disablePpoRatio := lossFn.disablePpoRatio
  tokenLevelLoss := lossFn.lossType == .tokenLevel

/-- What `_get` reads of a configuration. -/
structure PgCfg (K : Type) extends DuckLossCfg K where
  useCispo : Bool

/-- `_get` falls back on the default of an attribute that is not there. -/
def DuckLossCfg.read {K : Type} (cfg : DuckLossCfg K) : PgCfg K := { cfg with useCispo := false }

section Utilities

variable {K : Type} [Field K] [LinearOrder K] {b s : ℕ}

/-- `masked_mean` with a global normalization factor. -/
def maskedMean (tensor mask : Column b s K) (globalNormalizationFactor : K) : K :=
  (Column.sum fun i j => tensor i j * mask i j) / max globalNormalizationFactor 1

/-- `masked_mean` of a vector with a global normalization factor. -/
def maskedMeanVector (tensor mask : Fin b → K) (globalNormalizationFactor : K) : K :=
  (∑ i, tensor i * mask i) / max globalNormalizationFactor 1

/-- `masked_mean` with `dim=-1`. -/
def maskedMeanRows (tensor mask : Column b s K) : Fin b → K :=
  fun i => (∑ j, tensor i j * mask i j) / max (∑ j, mask i j) 1

def calculateKl (fns : Functions K) (logprobs logprobsReference : Column b s K) (klType : String)
    (inputClampValue outputClampValue : Option K)
    (importanceSamplingWeights : Option (Column b s K)) : Py (Column b s K) := do
  let logRatio : Column b s K := fun i j => logprobs i j - logprobsReference i j
  let logRatioClamped : Column b s K := match inputClampValue with
    | none => logRatio
    | some v => fun i j => clamp (-v) v (logRatio i j)
  let weights : Option (Column b s K) := match inputClampValue with
    | none => importanceSamplingWeights
    | some _ => importanceSamplingWeights.map fun w i j =>
      if logRatio i j = logRatioClamped i j then w i j else fns.stopGradient (w i j)
  let kl : Column b s K ←
    if klType = "k1" then .ok logRatioClamped
    else if klType = "k2" then .ok fun i j => 1 / (2 : ℕ) * logRatioClamped i j ^ 2
    else if klType = "k3" then
      .ok fun i j => fns.exp (logRatioClamped i j) - logRatioClamped i j - 1
    else .error (.valueError ("Unknown kl_type " ++ pyRepr (some klType) ++
      ". Valid: 'k1','k2','k3'."))
  let weighted : Column b s K := match weights with
    | none => kl
    | some w => fun i j => w i j * kl i j
  .ok (match outputClampValue with
    | none => weighted
    | some v => fun i j => clamp (-v) v (weighted i j))

end Utilities

namespace PgCfg

variable {K : Type} [Field K] [LinearOrder K] {b s : ℕ} (fns : Functions K) (cfg : PgCfg K)

/-- `_validate_cfg`. -/
def validate : Py Unit := do
  raiseIf (cfg.sequenceLevelImportanceRatios && cfg.tokenLevelLoss)
    "sequence_level_importance_ratios is mutually exclusive with token_level_loss"
  match cfg.truncatedImportanceSamplingType with
  | none => .ok ()
  | some tisType => do
    raiseIf (!cfg.useImportanceSamplingCorrection)
      "truncated IS requires use_importance_sampling_correction=True"
    raiseIf (tisType != "tis" && tisType != "icepop" && tisType != "seq-mask-tis")
      ("Invalid truncated IS type: " ++ pyRepr (some tisType))
    raiseIf (ClippedPGLossFn.notPositive cfg.truncatedImportanceSamplingRatio)
      "truncated_importance_sampling_ratio must be positive"
    raiseIf (ClippedPGLossFn.exceeds cfg.truncatedImportanceSamplingRatioMin
        cfg.truncatedImportanceSamplingRatio)
      "truncated_importance_sampling_ratio_min must be <= truncated_importance_sampling_ratio"
    raiseIf ((tisType == "icepop" || tisType == "seq-mask-tis") &&
        cfg.truncatedImportanceSamplingRatioMin.isNone)
      "truncated_importance_sampling_ratio_min required for icepop / seq-mask-tis"
    raiseIf (tisType == "seq-mask-tis" && cfg.sequenceLevelImportanceRatios)
      "seq-mask-tis is incompatible with sequence_level_importance_ratios=True"
  raiseIf (cfg.useCispo && cfg.disablePpoRatio)
    "use_cispo is incompatible with disable_ppo_ratio"
  raiseIf (cfg.useCispo && cfg.forceOnPolicyRatio)
    "use_cispo is incompatible with force_on_policy_ratio"
  raiseIf (cfg.useCispo && cfg.sequenceLevelImportanceRatios)
    "use_cispo is incompatible with sequence_level_importance_ratios"
  raiseIf (cfg.useCispo && cfg.ratioClipC.isSome)
    "use_cispo is incompatible with dual clipping (ratio_clip_c)"
  raiseIf (cfg.useCispo && !cfg.tokenLevelLoss)
    "use_cispo requires token_level_loss=True (LossType.TOKEN_LEVEL)"

def prevLogprobs (currLogprobs : Column b s K) (data : LossData b s K) : Column b s K :=
  if cfg.forceOnPolicyRatio then fun i j => fns.stopGradient (currLogprobs i j)
  else data.prevLogprobs.tail

/-- The diagnostic metrics: `mult_prob_error`, `gen_kl_error`, `policy_kl_error` and
`js_divergence_error`. -/
def staleness (prev gen mask : Column b s K) (globalValidToks : K) : Py (K × K × K × K) := do
  let multProbError := maskedMean (fun i j => fns.exp (|gen i j - prev i j| * mask i j)) mask
    globalValidToks
  let genKl ← calculateKl fns gen prev cfg.referencePolicyKlType none none none
  let policyKl ← calculateKl fns prev gen cfg.referencePolicyKlType none none none
  let logMixture : Column b s K := fun i j =>
    fns.log (1 / (2 : ℕ) * fns.exp (prev i j) + 1 / (2 : ℕ) * fns.exp (gen i j))
  let klPrevToMix : Column b s K := fun i j =>
    fns.exp (prev i j - logMixture i j) - (prev i j - logMixture i j) - 1
  let klGenToMix : Column b s K := fun i j =>
    fns.exp (gen i j - logMixture i j) - (gen i j - logMixture i j) - 1
  .ok (multProbError,maskedMean genKl mask globalValidToks,maskedMean policyKl mask globalValidToks,
    maskedMean (fun i j => 1 / (2 : ℕ) * klPrevToMix i j + 1 / (2 : ℕ) * klGenToMix i j) mask globalValidToks)

def levelMean (x tokenMask mask : Column b s K) (sampleMask : Fin b → K)
    (globalValidSeqs globalValidToks : K) : K :=
  if cfg.tokenLevelLoss then maskedMean x mask globalValidToks
  else maskedMeanVector (maskedMeanRows x tokenMask) sampleMask globalValidSeqs

def klIw (unfiltered gen : Column b s K) : Column b s K := fun i j =>
  fns.nanToNum (fns.exp
    (if cfg.useOnPolicyKlApproximation then unfiltered i j - gen i j
      else unfiltered i j - fns.stopGradient (unfiltered i j)))

/-- The regularisation by the reference policy. -/
def klTerm (curr gen reference tokenMask mask : Column b s K) (sampleMask : Fin b → K)
    (currLogprobsUnfiltered : Option (Column b s K)) (globalValidSeqs globalValidToks : K) : Py K :=
  if cfg.referencePolicyKlPenalty ≠ 0 then do
    let unfiltered := currLogprobsUnfiltered.getD curr
    let kl ← calculateKl fns unfiltered reference cfg.referencePolicyKlType cfg.klInputClampValue
      cfg.klOutputClampValue (some (cfg.klIw fns unfiltered gen))
    .ok (cfg.levelMean (fun i j => cfg.referencePolicyKlPenalty * kl i j) tokenMask mask sampleMask
      globalValidSeqs globalValidToks)
  else .ok 0

/-- `ratios` and `ratios_clamped`. -/
def ratios (curr prev tokenMask : Column b s K) : Column b s K × Column b s K :=
  if cfg.forceOnPolicyRatio then
    let ratios : Column b s K := fun i j => fns.exp (curr i j - fns.stopGradient (curr i j))
    (ratios,ratios)
  else if !cfg.disablePpoRatio then
    let logRatios : Column b s K := fun i j => curr i j - prev i j
    let ratios : Column b s K :=
      if cfg.sequenceLevelImportanceRatios then
        fun i _ => fns.exp (maskedMeanRows logRatios tokenMask i)
      else fun i j => fns.exp (logRatios i j)
    (ratios,fun i j => clamp (1 - cfg.ratioClipMin) (1 + cfg.ratioClipMax) (ratios i j))
  else (curr,curr)

def clipLoss (curr advantages ratios ratiosClamped : Column b s K) : Py (Column b s K) :=
  let clipLoss : Column b s K :=
    if cfg.useCispo then
      fun i j => -advantages i j * fns.stopGradient (ratiosClamped i j) * curr i j
    else fun i j => max (-advantages i j * ratios i j) (-advantages i j * ratiosClamped i j)
  match cfg.ratioClipC with
  | none => .ok clipLoss
  | some c =>
    if 1 < c then
      .ok fun i j => if advantages i j < 0 then min (clipLoss i j) (-advantages i j * c)
        else clipLoss i j
    else .error (.valueError "ratio_clip_c must exceed 1")

/-- `actor_iw`, before it is truncated. -/
def actorIw (prev gen mask : Column b s K) : Weights b s K :=
  if cfg.sequenceLevelImportanceRatios then
    .sequences fun i =>
      fns.nanToNum (fns.stopGradient (fns.exp (∑ j, (prev i j - gen i j) * mask i j)))
  else .tokens fun i j => fns.nanToNum (fns.exp (prev i j - gen i j))

/-- Truncated importance sampling: `actor_iw` and `is_oob_ratio`. -/
def truncate (prev gen tokenMask mask : Column b s K) (sampleMask : Fin b → K)
    (globalValidSeqs globalValidToks : K) (actorIw : Weights b s K) : Py (Weights b s K × K) :=
  match cfg.truncatedImportanceSamplingRatio with
  | none => .ok (actorIw,0)
  | some ratio =>
    if cfg.truncatedImportanceSamplingType = some "tis" then
      let tisMin := cfg.truncatedImportanceSamplingRatioMin.getD 0
      let tokenInBounds := actorIw.map fun x => if x ≤ ratio ∧ tisMin ≤ x then 1 else 0
      .ok (actorIw.map (clamp tisMin ratio),
        1 - maskedMean tokenInBounds.expand mask globalValidToks)
    else if cfg.truncatedImportanceSamplingType = some "icepop" then
      match cfg.truncatedImportanceSamplingRatioMin with
      | none => .error .typeError
      | some ratioMin =>
        let tokenKept := actorIw.map fun x => if ratioMin ≤ x ∧ x ≤ ratio then 1 else 0
        .ok (actorIw.map fun x => if ratioMin ≤ x ∧ x ≤ ratio then x else 0,
          1 - maskedMean tokenKept.expand mask globalValidToks)
    else if cfg.truncatedImportanceSamplingType = some "seq-mask-tis" then
      match cfg.truncatedImportanceSamplingRatioMin with
      | none => .error .typeError
      | some ratioMin =>
        let logIsRatio : Column b s K := fun i j => fns.nanToNum (prev i j - gen i j)
        let geomean : Fin b → K := fun i =>
          fns.stopGradient (fns.exp (maskedMeanRows logIsRatio tokenMask i))
        let seqKept : Fin b → K := fun i => if ratioMin ≤ geomean i ∧ geomean i ≤ ratio then 1 else 0
        .ok (actorIw.mulRows seqKept,1 - maskedMeanVector seqKept sampleMask globalValidSeqs)
    else .ok (actorIw,0)

def actorLoss (clipLoss tokenMask mask : Column b s K) (sampleMask : Fin b → K)
    (globalValidSeqs globalValidToks : K) (actorIw : Weights b s K) : K :=
  cfg.levelMean (fun i j =>
    (if cfg.useImportanceSamplingCorrection then actorIw.expand i j else 1) * clipLoss i j)
    tokenMask mask sampleMask globalValidSeqs globalValidToks

def sampleImportanceRatio (mask : Column b s K) (sampleMask : Fin b → K)
    (globalValidSeqs globalValidToks : K) : Weights b s K → K
  | .sequences w => maskedMeanVector w sampleMask globalValidSeqs
  | .tokens w => maskedMean w mask globalValidToks

/-- What is returned beside the loss. -/
structure Report (K : Type) where
  metrics : Metrics K
  isOobRatio : K

def clippedPgLoss (currLogprobs : Column b s K) (data : LossData b s K)
    (globalValidSeqs globalValidToks : K) : Py (K × Report K) := do
  cfg.validate
  let tokenMask := data.tokenMask.tail
  let advantages := data.advantages.tail
  let gen := data.generationLogprobs.tail
  let prev := cfg.prevLogprobs fns currLogprobs data
  let mask := lossMask tokenMask data.sampleMask
  let stale ← cfg.staleness fns prev gen mask globalValidToks
  let kl ← cfg.klTerm fns currLogprobs gen data.referencePolicyLogprobs.tail tokenMask mask
    data.sampleMask data.currLogprobsUnfiltered globalValidSeqs globalValidToks
  let r := cfg.ratios fns currLogprobs prev tokenMask
  let clip ← cfg.clipLoss fns currLogprobs advantages r.1 r.2
  let truncated ← cfg.truncate fns prev gen tokenMask mask data.sampleMask globalValidSeqs
    globalValidToks (cfg.actorIw fns prev gen mask)
  let actorLoss := cfg.actorLoss clip tokenMask mask data.sampleMask globalValidSeqs
    globalValidToks truncated.1
  let entropy := -maskedMean (fun i j => fns.exp (currLogprobs i j - gen i j) * currLogprobs i j)
    mask globalValidToks
  let loss := actorLoss + kl
  .ok (loss,{
    metrics := {
      loss := fns.stopGradient loss
      probsRatio := maskedMean (fun i j => fns.stopGradient (r.1 i j)) mask globalValidToks
      probsRatioClamped := maskedMean (fun i j => fns.stopGradient (r.2 i j)) mask globalValidToks
      klPenalty := if cfg.referencePolicyKlPenalty ≠ 0 then kl / cfg.referencePolicyKlPenalty else 0
      tokenMultProbError := stale.1
      genKlError := stale.2.1
      policyKlError := stale.2.2.1
      jsDivergenceError := stale.2.2.2
      samplingImportanceRatio := sampleImportanceRatio mask data.sampleMask globalValidSeqs
        globalValidToks truncated.1
      numValidSamples := ∑ i, data.sampleMask i
      approxEntropy := entropy }
    isOobRatio := truncated.2 })

end PgCfg

end Jax
end Loss
end DockyardRL
