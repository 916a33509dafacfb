import Mathlib.Algebra.Order.Ring.Rat
import Mathlib.Data.Rat.Cast.Defs
import DockyardRL.Lib.Fallible
import DockyardRL.Loss.JaxClippedPG

/-! When the two trainers optimise the same loss. The stages of the two computations are compared
one by one, under the configuration that is derived from the loss function. -/
namespace DockyardRL
namespace Loss

open Jax

variable {K : Type} [Field K] [LinearOrder K] {b s : ℕ}

/-- Both raise, or both return the same loss; the gradient is stopped in the same places, whatever
`stopGradient` is, and where it is the identity the metrics that both report agree. -/
def Same (fns : Functions K) :
    Py (K × ClippedPGLossFn.Report K) → Py (K × PgCfg.Report K) → Prop
  | .error _,.error _ => True
  | .ok x,.ok y => x.1 = y.1 ∧ (fns.stopGradient = id →
      x.2.metrics = y.2.metrics ∧ ∀ r, x.2.isOobRatio = some r → y.2.isOobRatio = r)
  | _,_ => False

/-- The trainer on JAX computes what the loss function does, on every batch. -/
def ComputesConfigured (lossFn : ClippedPGLossFn K) : Prop :=
  ∀ (fns : Functions K) (b s : ℕ) (currLogprobs : Column b s K) (data : LossData b s K)
    (globalValidSeqs globalValidToks : K),
    Same fns (lossFn.call fns currLogprobs data globalValidSeqs globalValidToks)
      ((cfgFromLossFn lossFn).read.clippedPgLoss fns currLogprobs data globalValidSeqs
        globalValidToks)

section Same

variable {fns : Functions K} {x : Py (K × ClippedPGLossFn.Report K)} {y : Py (K × PgCfg.Report K)}

omit [Field K] [LinearOrder K] in
theorem Same.loss (h : Same fns x y) {l l' : K} (hx : x.map Prod.fst = .ok l)
    (hy : y.map Prod.fst = .ok l') : l = l' := by
  cases x with
  | error e => cases hx
  | ok x => cases y with
    | error e => cases hy
    | ok y =>
      cases hx
      cases hy
      exact h.1

omit [Field K] [LinearOrder K] in
theorem Same.raises (h : Same fns x y) {e : PyError} (hx : x.map Prod.fst = .error e) :
    ∃ e', y.map Prod.fst = .error e' := by
  cases x with
  | ok x => cases hx
  | error e => cases y with
    | error e' => exact ⟨e',rfl⟩
    | ok y => exact h.elim

omit [Field K] [LinearOrder K] in
theorem same_of_errors {e e' : PyError} (hx : x.map Prod.fst = .error e)
    (hy : y.map Prod.fst = .error e') : Same fns x y := by
  cases x with
  | ok x => cases hx
  | error e => cases y with
    | error e' => trivial
    | ok y => cases hy

end Same

def ValidKlType (klType : String) : Prop := klType = "k1" ∨ klType = "k2" ∨ klType = "k3"

theorem raiseIf_bind {α : Type} {condition : Bool} {message : String} {f : Unit → Py α} {x : α} :
    (raiseIf condition message >>= f) = .ok x ↔ condition = false ∧ f () = .ok x := by
  cases condition with
  | true => simp [raiseIf,bind,Except.bind]
  | false => simp [raiseIf,bind,Except.bind]

theorem raiseIf_ok {condition : Bool} {message : String} :
    raiseIf condition message = .ok () ↔ condition = false := by
  cases condition <;> simp [raiseIf]

theorem init_eq_ok {cfg : ClippedPGLossConfig K} {lossFn : ClippedPGLossFn K}
    (h : ClippedPGLossFn.init cfg = .ok lossFn) : lossFn.check = .ok () := by
  obtain ⟨_,hcheck,hsame⟩ := Fallible.bind_eq_ok.mp h
  cases hsame
  exact hcheck

/-- What was checked for truncated importance sampling. -/
structure TruncationChecked (lossFn : ClippedPGLossFn K) (tisType : String) : Prop where
  correction : lossFn.useImportanceSamplingCorrection = true
  known : tisType = "tis" ∨ tisType = "icepop" ∨ tisType = "seq-mask-tis"
  positive : ClippedPGLossFn.notPositive lossFn.truncatedImportanceSamplingRatio = false
  ordered : ClippedPGLossFn.exceeds lossFn.truncatedImportanceSamplingRatioMin
    lossFn.truncatedImportanceSamplingRatio = false
  bounded : tisType = "icepop" ∨ tisType = "seq-mask-tis" →
    lossFn.truncatedImportanceSamplingRatioMin.isSome = true
  tokens : tisType = "seq-mask-tis" → lossFn.sequenceLevelImportanceRatios = false

/-- What the constructor has checked, all together. -/
structure Checked (lossFn : ClippedPGLossFn K) : Prop where
  cispo : lossFn.useCispo = true → lossFn.disablePpoRatio = false ∧
    lossFn.forceOnPolicyRatio = false ∧ lossFn.sequenceLevelImportanceRatios = false ∧
      lossFn.ratioClipC = none ∧ lossFn.lossType = .tokenLevel
  sequences : lossFn.sequenceLevelImportanceRatios = true → lossFn.lossType = .sequenceLevel
  truncation : ∀ tisType, lossFn.truncatedImportanceSamplingType = some tisType →
    TruncationChecked lossFn tisType

theorem checked {lossFn : ClippedPGLossFn K} (h : lossFn.check = .ok ()) : Checked lossFn := by
  simp only [ClippedPGLossFn.check,raiseIf_bind] at h
  obtain ⟨hdisable,hforce,hsequence,hdual,htoken,hlevel,htruncation⟩ := h
  refine ⟨fun hcispo => ?_,fun hsequences => ?_,fun tisType htype => ?_⟩
  · simp_all
  · simp_all
  · rw [htype] at htruncation
    simp only [raiseIf_bind,raiseIf_ok] at htruncation
    obtain ⟨hcorrection,hknown,hpositive,hordered,hbounded,htokens⟩ := htruncation
    refine ⟨by simpa using hcorrection,?_,hpositive,hordered,?_,?_⟩
    · by_contra hnone
      rw [not_or,not_or] at hnone
      simp [hnone] at hknown
    · rintro (rfl | rfl) <;> simpa using hbounded
    · rintro rfl
      simpa using htokens

theorem validate_ok {lossFn : ClippedPGLossFn K} (h : Checked lossFn) :
    (cfgFromLossFn lossFn).read.validate = .ok () := by
  simp only [PgCfg.validate,raiseIf_bind,cfgFromLossFn,DuckLossCfg.read]
  refine ⟨?_,?_⟩
  · cases hsequences : lossFn.sequenceLevelImportanceRatios with
    | false => rfl
    | true => rw [h.sequences hsequences]; rfl
  · cases htype : lossFn.truncatedImportanceSamplingType with
    | none => rfl
    | some tisType =>
      obtain ⟨hcorrection,hknown,hpositive,hordered,hbounded,htokens⟩ := h.truncation tisType htype
      simp only [raiseIf_bind]
      refine ⟨by simp [hcorrection],?_,hpositive,hordered,?_,?_,rfl,rfl,rfl,rfl,rfl⟩
      · rcases hknown with rfl | rfl | rfl <;> rfl
      · cases hmin : lossFn.truncatedImportanceSamplingRatioMin with
        | some ratioMin => simp
        | none =>
          rw [hmin] at hbounded
          have hneither := mt hbounded Bool.false_ne_true
          rw [not_or] at hneither
          simp [hneither]
      · by_cases hmask : tisType = "seq-mask-tis"
        · simp [htokens hmask]
        · simp [hmask]

section Stages

variable (fns : Functions K) {lossFn : ClippedPGLossFn K}

theorem calculateKl_valid {klType : String} (h : ValidKlType klType)
    (logprobs reference : Column b s K) (inputClamp outputClamp : Option K)
    (weights : Option (Column b s K)) :
    Jax.calculateKl fns logprobs reference klType inputClamp outputClamp weights =
      Loss.calculateKl fns logprobs reference klType inputClamp outputClamp weights ∧
    ∃ kl, Loss.calculateKl fns logprobs reference klType inputClamp outputClamp weights =
      .ok kl := by
  rcases h with rfl | rfl | rfl
  · exact ⟨rfl,_,rfl⟩
  · exact ⟨rfl,_,rfl⟩
  · exact ⟨rfl,_,rfl⟩

theorem calculateKl_invalid {klType : String} (h : ¬ValidKlType klType)
    (logprobs reference : Column b s K) (inputClamp outputClamp : Option K)
    (weights : Option (Column b s K)) :
    (∃ e, Loss.calculateKl fns logprobs reference klType inputClamp outputClamp weights = .error e) ∧
      ∃ e, Jax.calculateKl fns logprobs reference klType inputClamp outputClamp weights =
        .error e := by
  rw [ValidKlType,not_or,not_or] at h
  obtain ⟨h1,h2,h3⟩ := h
  constructor
  · delta Loss.calculateKl
    simp only [if_neg h1,if_neg h2,if_neg h3]
    exact ⟨_,rfl⟩
  · delta Jax.calculateKl
    simp only [if_neg h1,if_neg h2,if_neg h3]
    exact ⟨_,rfl⟩

theorem staleness_valid (h : ValidKlType lossFn.referencePolicyKlType)
    (prev gen mask : Column b s K) (globalValidToks : K) :
    (cfgFromLossFn lossFn).read.staleness fns prev gen mask globalValidToks =
      lossFn.staleness fns prev gen mask globalValidToks ∧
    ∃ stale, lossFn.staleness fns prev gen mask globalValidToks = .ok stale := by
  obtain ⟨hgen,genKl,hgenKl⟩ := calculateKl_valid fns h gen prev none none none
  obtain ⟨hpolicy,policyKl,hpolicyKl⟩ := calculateKl_valid fns h prev gen none none none
  refine ⟨?_,?_⟩
  · simp only [PgCfg.staleness,ClippedPGLossFn.staleness,cfgFromLossFn,DuckLossCfg.read,hgen,hpolicy]
    rfl
  · simp only [ClippedPGLossFn.staleness,hgenKl,hpolicyKl]
    exact ⟨_,rfl⟩

theorem staleness_invalid (h : ¬ValidKlType lossFn.referencePolicyKlType)
    (prev gen mask : Column b s K) (globalValidToks : K) :
    (∃ e, lossFn.staleness fns prev gen mask globalValidToks = .error e) ∧
      ∃ e, (cfgFromLossFn lossFn).read.staleness fns prev gen mask globalValidToks = .error e := by
  obtain ⟨⟨e,he⟩,⟨e',he'⟩⟩ := calculateKl_invalid fns h gen prev none none none
  refine ⟨⟨e,?_⟩,⟨e',?_⟩⟩
  · simp only [ClippedPGLossFn.staleness,he]
    rfl
  · simp only [PgCfg.staleness,cfgFromLossFn,DuckLossCfg.read,he']
    rfl

theorem levelMean_eq (x tokenMask mask : Column b s K) (sampleMask : Fin b → K)
    (globalValidSeqs globalValidToks : K) :
    (cfgFromLossFn lossFn).read.levelMean x tokenMask mask sampleMask globalValidSeqs
      globalValidToks =
    lossFn.levelMean x tokenMask mask sampleMask globalValidSeqs globalValidToks := by
  rw [PgCfg.levelMean,ClippedPGLossFn.levelMean,cfgFromLossFn,DuckLossCfg.read]
  cases lossFn.lossType <;> rfl

theorem klTerm_valid (h : ValidKlType lossFn.referencePolicyKlType)
    (curr gen reference tokenMask mask : Column b s K) (sampleMask : Fin b → K)
    (unfiltered : Option (Column b s K)) (globalValidSeqs globalValidToks : K) :
    (cfgFromLossFn lossFn).read.klTerm fns curr gen reference tokenMask mask sampleMask unfiltered
        globalValidSeqs globalValidToks =
      lossFn.klTerm fns curr gen reference tokenMask mask sampleMask unfiltered globalValidSeqs
        globalValidToks ∧
    ∃ kl, lossFn.klTerm fns curr gen reference tokenMask mask sampleMask unfiltered globalValidSeqs
      globalValidToks = .ok kl := by
  by_cases hpenalty : lossFn.referencePolicyKlPenalty = 0
  · simp [ClippedPGLossFn.klTerm,PgCfg.klTerm,cfgFromLossFn,DuckLossCfg.read,hpenalty]
  · obtain ⟨hsame,kl,hkl⟩ := calculateKl_valid fns h (unfiltered.getD curr) reference
      lossFn.klInputClampValue lossFn.klOutputClampValue
      (some (lossFn.klImportanceWeights fns (unfiltered.getD curr) gen))
    rw [ClippedPGLossFn.klTerm,PgCfg.klTerm,if_pos hpenalty,if_pos (by exact hpenalty)]
    change (Jax.calculateKl fns (unfiltered.getD curr) reference lossFn.referencePolicyKlType
      lossFn.klInputClampValue lossFn.klOutputClampValue
        (some (lossFn.klImportanceWeights fns (unfiltered.getD curr) gen)) >>= _) =
      (Loss.calculateKl fns (unfiltered.getD curr) reference lossFn.referencePolicyKlType
        lossFn.klInputClampValue lossFn.klOutputClampValue _ >>= _) ∧ _
    rw [hsame,hkl]
    refine ⟨congrArg Except.ok (levelMean_eq _ _ _ _ _ _),
      lossFn.levelMean (fun i j => lossFn.referencePolicyKlPenalty * kl i j) tokenMask mask sampleMask
        globalValidSeqs globalValidToks,?_⟩
    change (Loss.calculateKl fns (unfiltered.getD curr) reference lossFn.referencePolicyKlType
      lossFn.klInputClampValue lossFn.klOutputClampValue _ >>= _) = _
    rw [hkl]
    rfl

/-- The bound of dual clipping is one that both accept. -/
def ValidClip (lossFn : ClippedPGLossFn K) : Prop := ∀ c, lossFn.ratioClipC = some c → 1 < c

theorem clipLoss_ok (h : ValidClip lossFn) (curr advantages ratios ratiosClamped : Column b s K) :
    (∃ clip, lossFn.clipLoss fns curr advantages ratios ratiosClamped = .ok clip) ∧
      ∃ clip, (cfgFromLossFn lossFn).read.clipLoss fns curr advantages ratios ratiosClamped =
        .ok clip := by
  cases hc : lossFn.ratioClipC with
  | none => simp [ClippedPGLossFn.clipLoss,PgCfg.clipLoss,cfgFromLossFn,DuckLossCfg.read,hc]
  | some c =>
    simp [ClippedPGLossFn.clipLoss,PgCfg.clipLoss,cfgFromLossFn,DuckLossCfg.read,hc,h c hc]

theorem clipLoss_valid (h : ValidClip lossFn) (hcispo : lossFn.useCispo = false)
    (curr advantages ratios ratiosClamped : Column b s K) :
    (cfgFromLossFn lossFn).read.clipLoss fns curr advantages ratios ratiosClamped =
      lossFn.clipLoss fns curr advantages ratios ratiosClamped ∧
    ∃ clip, lossFn.clipLoss fns curr advantages ratios ratiosClamped = .ok clip := by
  cases hc : lossFn.ratioClipC with
  | none =>
    simp [ClippedPGLossFn.clipLoss,PgCfg.clipLoss,cfgFromLossFn,DuckLossCfg.read,hc,hcispo]
  | some c =>
    simp [ClippedPGLossFn.clipLoss,PgCfg.clipLoss,cfgFromLossFn,DuckLossCfg.read,hc,hcispo,h c hc]

theorem clipLoss_invalid (h : ¬ValidClip lossFn) (curr advantages ratios ratiosClamped : Column b s K) :
    (∃ e, lossFn.clipLoss fns curr advantages ratios ratiosClamped = .error e) ∧
      ∃ e, (cfgFromLossFn lossFn).read.clipLoss fns curr advantages ratios ratiosClamped =
        .error e := by
  rw [ValidClip] at h
  push Not at h
  obtain ⟨c,hc,hle⟩ := h
  simp [ClippedPGLossFn.clipLoss,PgCfg.clipLoss,cfgFromLossFn,DuckLossCfg.read,hc,hle.not_gt]

/-- A type is given for the ratio that truncates. -/
def ValidTruncation (lossFn : ClippedPGLossFn K) : Prop :=
  lossFn.truncatedImportanceSamplingRatio = none ∨ lossFn.truncatedImportanceSamplingType ≠ none

theorem truncate_valid (hchecked : Checked lossFn) (h : ValidTruncation lossFn)
    (prev gen tokenMask mask : Column b s K) (sampleMask : Fin b → K)
    (globalValidSeqs globalValidToks : K) (weights : Weights b s K) :
    (cfgFromLossFn lossFn).read.truncate fns prev gen tokenMask mask sampleMask globalValidSeqs
        globalValidToks weights =
      (lossFn.truncate fns prev gen tokenMask mask sampleMask globalValidSeqs globalValidToks
        weights).map (fun x => (x.1,x.2.getD 0)) ∧
    ∃ x, lossFn.truncate fns prev gen tokenMask mask sampleMask globalValidSeqs globalValidToks
      weights = .ok x := by
  rcases hratio : lossFn.truncatedImportanceSamplingRatio with _ | ratio
  · simp only [ClippedPGLossFn.truncate,PgCfg.truncate,cfgFromLossFn,DuckLossCfg.read,hratio]
    exact ⟨rfl,_,rfl⟩
  · have htype := h.resolve_left (by rw [hratio]; exact Option.some_ne_none _)
    obtain ⟨tisType,htype⟩ := Option.ne_none_iff_exists'.mp htype
    obtain ⟨-,hknown,-,-,hbounded,-⟩ := hchecked.truncation tisType htype
    rcases hknown with rfl | rfl | rfl
    · simp only [ClippedPGLossFn.truncate,PgCfg.truncate,cfgFromLossFn,DuckLossCfg.read,hratio,htype]
      exact ⟨rfl,_,rfl⟩
    · obtain ⟨ratioMin,hmin⟩ := Option.isSome_iff_exists.mp (hbounded (.inl rfl))
      simp only [ClippedPGLossFn.truncate,PgCfg.truncate,cfgFromLossFn,DuckLossCfg.read,hratio,htype,
        hmin]
      exact ⟨rfl,_,rfl⟩
    · obtain ⟨ratioMin,hmin⟩ := Option.isSome_iff_exists.mp (hbounded (.inr rfl))
      simp only [ClippedPGLossFn.truncate,PgCfg.truncate,cfgFromLossFn,DuckLossCfg.read,hratio,htype,
        hmin]
      exact ⟨rfl,_,rfl⟩

theorem truncate_invalid (h : ¬ValidTruncation lossFn)
    (prev gen tokenMask mask : Column b s K) (sampleMask : Fin b → K)
    (globalValidSeqs globalValidToks : K) (weights : Weights b s K) :
    (∃ e, lossFn.truncate fns prev gen tokenMask mask sampleMask globalValidSeqs globalValidToks
      weights = .error e) ∧
    ∃ x, (cfgFromLossFn lossFn).read.truncate fns prev gen tokenMask mask sampleMask globalValidSeqs
      globalValidToks weights = .ok x := by
  rw [ValidTruncation,not_or,not_not] at h
  obtain ⟨hratio,htype⟩ := h
  obtain ⟨ratio,hratio⟩ := Option.ne_none_iff_exists'.mp hratio
  simp [ClippedPGLossFn.truncate,PgCfg.truncate,cfgFromLossFn,DuckLossCfg.read,hratio,htype]

theorem actorLoss_eq (clip tokenMask mask : Column b s K) (sampleMask : Fin b → K)
    (globalValidSeqs globalValidToks : K) (weights : Weights b s K) :
    (cfgFromLossFn lossFn).read.actorLoss clip tokenMask mask sampleMask globalValidSeqs
      globalValidToks weights =
    lossFn.actorLoss clip tokenMask mask sampleMask globalValidSeqs globalValidToks weights :=
  levelMean_eq _ _ _ _ _ _

theorem klTerm_zero (h : lossFn.referencePolicyKlPenalty = 0)
    {curr gen reference tokenMask mask : Column b s K} {sampleMask : Fin b → K}
    {unfiltered : Option (Column b s K)} {globalValidSeqs globalValidToks kl : K}
    (hkl : lossFn.klTerm fns curr gen reference tokenMask mask sampleMask unfiltered globalValidSeqs
      globalValidToks = .ok kl) : kl = 0 := by
  rw [ClippedPGLossFn.klTerm,if_neg (not_not.mpr h)] at hkl
  exact (Except.ok.inj hkl).symm

omit [LinearOrder K] in
theorem klPenalty_eq [DecidableEq K] {kl penalty : K} (h : penalty = 0 → kl = 0) :
    (if kl ≠ 0 then kl / penalty else 0) = if penalty ≠ 0 then kl / penalty else 0 := by
  by_cases hkl : kl = 0
  · simp [hkl]
  · have hpenalty : penalty ≠ 0 := fun hzero => hkl (h hzero)
    rw [if_pos hkl,if_pos hpenalty]

end Stages

section Calls

variable {fns : Functions K} {lossFn : ClippedPGLossFn K}

theorem ok_bind {α β : Type} (a : α) (f : α → Py β) : ((Except.ok a : Py α) >>= f) = f a := rfl

theorem map_bind_eq {α β γ : Type} (x : Py α) (f : α → Py β) (g : β → γ) :
    (x >>= f).map g = x >>= fun a => (f a).map g := by
  cases x <;> rfl

theorem error_bind {α β : Type} (e : PyError) (f : α → Py β) :
    ((Except.error e : Py α) >>= f) = .error e := rfl

variable (fns) in
theorem loss_stages (hchecked : Checked lossFn) (hkl : ValidKlType lossFn.referencePolicyKlType)
    (curr : Column b s K) (data : LossData b s K) (globalValidSeqs globalValidToks : K) : ∃ kl,
    (lossFn.call fns curr data globalValidSeqs globalValidToks).map Prod.fst = (do
      let r := lossFn.ratios fns curr (lossFn.prevLogprobs fns curr data) data.tokenMask.tail
      let clip ← lossFn.clipLoss fns curr data.advantages.tail r.1 r.2
      let truncated ← lossFn.truncate fns (lossFn.prevLogprobs fns curr data)
        data.generationLogprobs.tail data.tokenMask.tail
        (lossMask data.tokenMask.tail data.sampleMask) data.sampleMask globalValidSeqs
        globalValidToks (lossFn.actorImportanceWeights fns (lossFn.prevLogprobs fns curr data)
          data.generationLogprobs.tail (lossMask data.tokenMask.tail data.sampleMask))
      .ok (lossFn.actorLoss clip data.tokenMask.tail
        (lossMask data.tokenMask.tail data.sampleMask) data.sampleMask globalValidSeqs
        globalValidToks truncated.1 + kl)) ∧
    ((cfgFromLossFn lossFn).read.clippedPgLoss fns curr data globalValidSeqs
        globalValidToks).map Prod.fst = (do
      let r := lossFn.ratios fns curr (lossFn.prevLogprobs fns curr data) data.tokenMask.tail
      let clip ← (cfgFromLossFn lossFn).read.clipLoss fns curr data.advantages.tail r.1 r.2
      let truncated ← (cfgFromLossFn lossFn).read.truncate fns (lossFn.prevLogprobs fns curr data)
        data.generationLogprobs.tail data.tokenMask.tail
        (lossMask data.tokenMask.tail data.sampleMask) data.sampleMask globalValidSeqs
        globalValidToks (lossFn.actorImportanceWeights fns (lossFn.prevLogprobs fns curr data)
          data.generationLogprobs.tail (lossMask data.tokenMask.tail data.sampleMask))
      .ok (lossFn.actorLoss clip data.tokenMask.tail
        (lossMask data.tokenMask.tail data.sampleMask) data.sampleMask globalValidSeqs
        globalValidToks truncated.1 + kl)) := by
  have hprev : (cfgFromLossFn lossFn).read.prevLogprobs fns curr data =
      lossFn.prevLogprobs fns curr data := rfl
  have hratios : (cfgFromLossFn lossFn).read.ratios fns curr (lossFn.prevLogprobs fns curr data)
      data.tokenMask.tail = lossFn.ratios fns curr (lossFn.prevLogprobs fns curr data)
        data.tokenMask.tail := rfl
  have hiw : (cfgFromLossFn lossFn).read.actorIw fns (lossFn.prevLogprobs fns curr data)
      data.generationLogprobs.tail (lossMask data.tokenMask.tail data.sampleMask) =
      lossFn.actorImportanceWeights fns (lossFn.prevLogprobs fns curr data)
        data.generationLogprobs.tail (lossMask data.tokenMask.tail data.sampleMask) := rfl
  obtain ⟨hstaleJax,stale,hstale⟩ := staleness_valid fns hkl
    (lossFn.prevLogprobs fns curr data) data.generationLogprobs.tail
    (lossMask data.tokenMask.tail data.sampleMask) globalValidToks
  obtain ⟨hkltJax,kl,hklt⟩ := klTerm_valid fns hkl curr data.generationLogprobs.tail
    data.referencePolicyLogprobs.tail data.tokenMask.tail
    (lossMask data.tokenMask.tail data.sampleMask) data.sampleMask data.currLogprobsUnfiltered
    globalValidSeqs globalValidToks
  rw [hstale] at hstaleJax
  rw [hklt] at hkltJax
  refine ⟨kl,?_,?_⟩
  · simp only [ClippedPGLossFn.call,hstale,hklt,ok_bind,map_bind_eq]
    rfl
  · simp only [PgCfg.clippedPgLoss,validate_ok hchecked,hprev,hratios,hiw,hstaleJax,hkltJax,ok_bind,
      map_bind_eq,actorLoss_eq]
    rfl

theorem same_of_valid (hchecked : Checked lossFn) (hkl : ValidKlType lossFn.referencePolicyKlType)
    (hclip : ValidClip lossFn) (hcispo : lossFn.useCispo = false) (htruncation : ValidTruncation lossFn)
    (curr : Column b s K) (data : LossData b s K) (globalValidSeqs globalValidToks : K) :
    Same fns (lossFn.call fns curr data globalValidSeqs globalValidToks)
      ((cfgFromLossFn lossFn).read.clippedPgLoss fns curr data globalValidSeqs globalValidToks) := by
  have hprev : (cfgFromLossFn lossFn).read.prevLogprobs fns curr data =
      lossFn.prevLogprobs fns curr data := rfl
  have hratios : (cfgFromLossFn lossFn).read.ratios fns curr (lossFn.prevLogprobs fns curr data)
      data.tokenMask.tail = lossFn.ratios fns curr (lossFn.prevLogprobs fns curr data)
        data.tokenMask.tail := rfl
  have hiw : (cfgFromLossFn lossFn).read.actorIw fns (lossFn.prevLogprobs fns curr data)
      data.generationLogprobs.tail (lossMask data.tokenMask.tail data.sampleMask) =
      lossFn.actorImportanceWeights fns (lossFn.prevLogprobs fns curr data)
        data.generationLogprobs.tail (lossMask data.tokenMask.tail data.sampleMask) := rfl
  obtain ⟨hstaleJax,stale,hstale⟩ := staleness_valid fns hkl
    (lossFn.prevLogprobs fns curr data) data.generationLogprobs.tail
    (lossMask data.tokenMask.tail data.sampleMask) globalValidToks
  obtain ⟨hkltJax,kl,hklt⟩ := klTerm_valid fns hkl curr data.generationLogprobs.tail
    data.referencePolicyLogprobs.tail data.tokenMask.tail
    (lossMask data.tokenMask.tail data.sampleMask) data.sampleMask data.currLogprobsUnfiltered
    globalValidSeqs globalValidToks
  obtain ⟨hlossJax,clip,hloss⟩ := clipLoss_valid fns hclip hcispo curr data.advantages.tail
    (lossFn.ratios fns curr (lossFn.prevLogprobs fns curr data) data.tokenMask.tail).1
    (lossFn.ratios fns curr (lossFn.prevLogprobs fns curr data) data.tokenMask.tail).2
  obtain ⟨htruncJax,⟨weights,oob⟩,htrunc⟩ := truncate_valid fns hchecked htruncation
    (lossFn.prevLogprobs fns curr data) data.generationLogprobs.tail data.tokenMask.tail
    (lossMask data.tokenMask.tail data.sampleMask) data.sampleMask globalValidSeqs globalValidToks
    (lossFn.actorImportanceWeights fns (lossFn.prevLogprobs fns curr data)
      data.generationLogprobs.tail (lossMask data.tokenMask.tail data.sampleMask))
  rw [hstale] at hstaleJax
  rw [hklt] at hkltJax
  rw [hloss] at hlossJax
  rw [htrunc] at htruncJax
  simp only [ClippedPGLossFn.call,PgCfg.clippedPgLoss,validate_ok hchecked,hprev,hratios,hiw,hstale,
    hstaleJax,hklt,hkltJax,hloss,hlossJax,htrunc,htruncJax,Except.map,ok_bind,Same,actorLoss_eq]
  refine ⟨trivial,fun hid => ⟨Metrics.ext ?_ rfl rfl ?_ rfl rfl rfl rfl ?_ rfl rfl,?_⟩⟩
  · rw [hid]
    rfl
  · exact klPenalty_eq fun hpenalty => klTerm_zero fns hpenalty hklt
  · cases weights <;> rfl
  · rintro r rfl
    rfl

theorem same_of_klType (hchecked : Checked lossFn)
    (hkl : ¬ValidKlType lossFn.referencePolicyKlType) (curr : Column b s K) (data : LossData b s K)
    (globalValidSeqs globalValidToks : K) :
    Same fns (lossFn.call fns curr data globalValidSeqs globalValidToks)
      ((cfgFromLossFn lossFn).read.clippedPgLoss fns curr data globalValidSeqs globalValidToks) := by
  have hprev : (cfgFromLossFn lossFn).read.prevLogprobs fns curr data =
      lossFn.prevLogprobs fns curr data := rfl
  obtain ⟨⟨e,he⟩,⟨e',he'⟩⟩ := staleness_invalid fns hkl
    (lossFn.prevLogprobs fns curr data) data.generationLogprobs.tail
    (lossMask data.tokenMask.tail data.sampleMask) globalValidToks
  simp only [ClippedPGLossFn.call,PgCfg.clippedPgLoss,validate_ok hchecked,hprev,he,he',ok_bind,
    error_bind,Same]

theorem same_of_clip (hchecked : Checked lossFn) (hkl : ValidKlType lossFn.referencePolicyKlType)
    (hclip : ¬ValidClip lossFn) (curr : Column b s K) (data : LossData b s K)
    (globalValidSeqs globalValidToks : K) :
    Same fns (lossFn.call fns curr data globalValidSeqs globalValidToks)
      ((cfgFromLossFn lossFn).read.clippedPgLoss fns curr data globalValidSeqs globalValidToks) := by
  obtain ⟨kl,hloss,hlossJax⟩ := loss_stages fns hchecked hkl curr data globalValidSeqs
    globalValidToks
  obtain ⟨⟨e,he⟩,⟨e',he'⟩⟩ := clipLoss_invalid fns hclip curr data.advantages.tail
    (lossFn.ratios fns curr (lossFn.prevLogprobs fns curr data) data.tokenMask.tail).1
    (lossFn.ratios fns curr (lossFn.prevLogprobs fns curr data) data.tokenMask.tail).2
  simp only [he,error_bind] at hloss
  simp only [he',error_bind] at hlossJax
  exact same_of_errors hloss hlossJax

end Calls

section Probe

variable [IsStrictOrderedRing K] {lossFn : ClippedPGLossFn K}

/-- Every exponential is `c`. -/
def probeFunctions (c : K) : Functions K := ⟨fun _ => c,fun _ => 0,id,id⟩

/-- One token of advantage `-1`. -/
def probeData : LossData 1 1 K :=
  ⟨fun _ _ => 1,fun _ => 1,fun _ _ => -1,fun _ _ => 0,fun _ _ => 0,fun _ _ => 0,none⟩

def probeCurr : Column 1 1 K := fun _ _ => 0

omit [IsStrictOrderedRing K] in
theorem truncation_of_computes (hchecked : Checked lossFn)
    (hkl : ValidKlType lossFn.referencePolicyKlType) (hclip : ValidClip lossFn)
    (h : ComputesConfigured lossFn) : ValidTruncation lossFn := by
  by_contra hnot
  obtain ⟨kl,hloss,hlossJax⟩ := loss_stages (probeFunctions 1) hchecked hkl probeCurr
    probeData 1 1
  obtain ⟨⟨clip,hclipped⟩,⟨clip',hclipped'⟩⟩ := clipLoss_ok (probeFunctions 1) hclip probeCurr
    probeData.advantages.tail
    (lossFn.ratios (probeFunctions 1) probeCurr
      (lossFn.prevLogprobs (probeFunctions 1) probeCurr probeData) probeData.tokenMask.tail).1
    (lossFn.ratios (probeFunctions 1) probeCurr
      (lossFn.prevLogprobs (probeFunctions 1) probeCurr probeData) probeData.tokenMask.tail).2
  obtain ⟨⟨e,he⟩,⟨x,hx⟩⟩ := truncate_invalid (probeFunctions 1) hnot
    (lossFn.prevLogprobs (probeFunctions 1) probeCurr probeData) probeData.generationLogprobs.tail
    probeData.tokenMask.tail (lossMask probeData.tokenMask.tail probeData.sampleMask)
    probeData.sampleMask 1 1 (lossFn.actorImportanceWeights (probeFunctions 1)
      (lossFn.prevLogprobs (probeFunctions 1) probeCurr probeData)
      probeData.generationLogprobs.tail (lossMask probeData.tokenMask.tail probeData.sampleMask))
  simp only [hclipped,ok_bind,he,error_bind] at hloss
  simp only [hclipped',ok_bind,hx] at hlossJax
  obtain ⟨e',he'⟩ := (h (probeFunctions 1) 1 1 probeCurr probeData 1 1).raises hloss
  rw [hlossJax] at he'
  cases he'

theorem probe_weights (hchecked : Checked lossFn) (htruncation : ValidTruncation lossFn)
    (hsequences : lossFn.sequenceLevelImportanceRatios = false) {c : K}
    (hc : c = lossFn.truncatedImportanceSamplingRatio.getD 1)
    (prev gen tokenMask mask : Column 1 1 K) (sampleMask : Fin 1 → K)
    (globalValidSeqs globalValidToks : K) : ∃ weights oob,
      lossFn.truncate (probeFunctions c) prev gen tokenMask mask sampleMask globalValidSeqs
        globalValidToks (lossFn.actorImportanceWeights (probeFunctions c) prev gen mask) =
          .ok (weights,oob) ∧ weights.expand 0 0 = c ∧ 0 < c := by
  have hweights : lossFn.actorImportanceWeights (probeFunctions c) prev gen mask =
      .tokens fun _ _ => c := by
    simp [ClippedPGLossFn.actorImportanceWeights,hsequences,probeFunctions]
  rw [hweights]
  rcases hratio : lossFn.truncatedImportanceSamplingRatio with _ | ratio
  · rw [hratio,Option.getD_none] at hc
    simp [ClippedPGLossFn.truncate,hratio,Weights.expand,hc]
  · rw [hratio,Option.getD_some] at hc
    subst hc
    obtain ⟨tisType,htype⟩ := Option.ne_none_iff_exists'.mp
      (htruncation.resolve_left (by rw [hratio]; exact Option.some_ne_none _))
    obtain ⟨-,hknown,hpositive,hordered,hbounded,-⟩ := hchecked.truncation tisType htype
    rw [hratio] at hpositive hordered
    have hpos : 0 < c := by simpa [ClippedPGLossFn.notPositive] using hpositive
    rcases hknown with rfl | rfl | rfl
    · have hmin : lossFn.truncatedImportanceSamplingRatioMin.getD 0 ≤ c := by
        cases hmin : lossFn.truncatedImportanceSamplingRatioMin with
        | none => exact hpos.le
        | some ratioMin => simpa [hmin,ClippedPGLossFn.exceeds] using hordered
      simp [ClippedPGLossFn.truncate,hratio,htype,Weights.expand,Weights.map,clamp,hmin,hpos]
    · obtain ⟨ratioMin,hmin⟩ := Option.isSome_iff_exists.mp (hbounded (.inl rfl))
      have hle : ratioMin ≤ c := by simpa [hmin,ClippedPGLossFn.exceeds] using hordered
      simp [ClippedPGLossFn.truncate,hratio,htype,hmin,Weights.expand,Weights.map,hle,hpos]
    · obtain ⟨ratioMin,hmin⟩ := Option.isSome_iff_exists.mp (hbounded (.inr rfl))
      have hle : ratioMin ≤ c := by simpa [hmin,ClippedPGLossFn.exceeds] using hordered
      simp [ClippedPGLossFn.truncate,hratio,htype,hmin,Weights.expand,Weights.mulRows,probeFunctions,
        hle,hpos]

theorem cispo_differs (hchecked : Checked lossFn)
    (hkl : ValidKlType lossFn.referencePolicyKlType) (htruncation : ValidTruncation lossFn)
    (hcispo : lossFn.useCispo = true) {c : K}
    (hc : c = lossFn.truncatedImportanceSamplingRatio.getD 1) :
    ¬Same (probeFunctions c) (lossFn.call (probeFunctions c) probeCurr probeData 1 1)
      ((cfgFromLossFn lossFn).read.clippedPgLoss (probeFunctions c) probeCurr probeData 1 1) := by
  intro hsame
  obtain ⟨hdisable,hforce,hsequences,hdual,hlevel⟩ := hchecked.cispo hcispo
  obtain ⟨kl,hloss,hlossJax⟩ := loss_stages (probeFunctions c) hchecked hkl probeCurr
    probeData 1 1
  obtain ⟨weights,oob,htruncated,hweight,hpos⟩ := probe_weights hchecked htruncation hsequences hc
    (lossFn.prevLogprobs (probeFunctions c) probeCurr probeData) probeData.generationLogprobs.tail
    probeData.tokenMask.tail (lossMask probeData.tokenMask.tail probeData.sampleMask)
    probeData.sampleMask 1 1
  obtain ⟨htruncJax,-⟩ := truncate_valid (probeFunctions c) hchecked htruncation
    (lossFn.prevLogprobs (probeFunctions c) probeCurr probeData) probeData.generationLogprobs.tail
    probeData.tokenMask.tail (lossMask probeData.tokenMask.tail probeData.sampleMask)
    probeData.sampleMask 1 1 (lossFn.actorImportanceWeights (probeFunctions c)
      (lossFn.prevLogprobs (probeFunctions c) probeCurr probeData)
      probeData.generationLogprobs.tail (lossMask probeData.tokenMask.tail probeData.sampleMask))
  rw [htruncated] at htruncJax
  have hratios : lossFn.ratios (probeFunctions c) probeCurr
      (lossFn.prevLogprobs (probeFunctions c) probeCurr probeData) probeData.tokenMask.tail =
      ((fun _ _ => c),fun _ _ => clamp (1 - lossFn.ratioClipMin) (1 + lossFn.ratioClipMax) c) := by
    simp [ClippedPGLossFn.ratios,hforce,hdisable,hsequences,probeFunctions]
  have hclip : lossFn.clipLoss (probeFunctions c) probeCurr probeData.advantages.tail (fun _ _ => c)
      (fun _ _ => clamp (1 - lossFn.ratioClipMin) (1 + lossFn.ratioClipMax) c) =
        .ok fun _ _ => 0 := by
    simp [ClippedPGLossFn.clipLoss,hcispo,hdual,probeCurr]
  have hclipJax : (cfgFromLossFn lossFn).read.clipLoss (probeFunctions c) probeCurr
      probeData.advantages.tail (fun _ _ => c)
      (fun _ _ => clamp (1 - lossFn.ratioClipMin) (1 + lossFn.ratioClipMax) c) =
        .ok fun _ _ => max c (clamp (1 - lossFn.ratioClipMin) (1 + lossFn.ratioClipMax) c) := by
    simp [PgCfg.clipLoss,cfgFromLossFn,DuckLossCfg.read,hdual,probeData,Column.tail]
  simp only [hratios,hclip,ok_bind,htruncated] at hloss
  simp only [hratios,hclipJax,ok_bind,htruncJax,Except.map] at hlossJax
  have hequal := hsame.loss hloss hlossJax
  have hactor : ∀ x : K, lossFn.actorLoss (fun _ _ => x) probeData.tokenMask.tail
      (lossMask probeData.tokenMask.tail probeData.sampleMask) probeData.sampleMask 1 1 weights =
        (if lossFn.useImportanceSamplingCorrection then c else 1) * x := by
    intro x
    simp [ClippedPGLossFn.actorLoss,ClippedPGLossFn.levelMean,hlevel,Loss.maskedMean,Column.sum,
      lossMask,probeData,Column.tail,hweight]
  have hfactor : 0 < if lossFn.useImportanceSamplingCorrection then c else 1 := by
    split_ifs
    · exact hpos
    · exact one_pos
  have hmax : 0 < max c (clamp (1 - lossFn.ratioClipMin) (1 + lossFn.ratioClipMax) c) :=
    lt_max_of_lt_left hpos
  rw [hactor,hactor,mul_zero] at hequal
  exact (mul_pos hfactor hmax).ne (add_right_cancel hequal)

theorem cispo_of_computes (hchecked : Checked lossFn)
    (hkl : ValidKlType lossFn.referencePolicyKlType) (htruncation : ValidTruncation lossFn)
    (h : ComputesConfigured lossFn) : lossFn.useCispo = false := by
  by_contra hcispo
  rw [Bool.not_eq_false] at hcispo
  exact cispo_differs hchecked hkl htruncation hcispo rfl (h _ 1 1 probeCurr probeData 1 1)

end Probe

/-- For every loss function that the constructor accepts: the trainer on JAX computes it exactly when
both always raise, or it is not CISPO and a ratio that truncates comes with a type. -/
theorem computesConfigured_iff [IsStrictOrderedRing K] {cfg : ClippedPGLossConfig K} {lossFn : ClippedPGLossFn K}
    (h : ClippedPGLossFn.init cfg = .ok lossFn) : ComputesConfigured lossFn ↔
      ¬ValidKlType lossFn.referencePolicyKlType ∨ ¬ValidClip lossFn ∨
        (lossFn.useCispo = false ∧ ValidTruncation lossFn) := by
  have hchecked := checked (init_eq_ok h)
  constructor
  · intro hcomputes
    by_cases hkl : ValidKlType lossFn.referencePolicyKlType
    · by_cases hclip : ValidClip lossFn
      · have htruncation := truncation_of_computes hchecked hkl hclip hcomputes
        exact .inr (.inr ⟨cispo_of_computes hchecked hkl htruncation hcomputes,htruncation⟩)
      · exact .inr (.inl hclip)
    · exact .inl hkl
  · rintro hcases fns b s curr data globalValidSeqs globalValidToks
    by_cases hkl : ValidKlType lossFn.referencePolicyKlType
    · by_cases hclip : ValidClip lossFn
      · obtain ⟨hcispo,htruncation⟩ :=
          (hcases.resolve_left (not_not.mpr hkl)).resolve_left (not_not.mpr hclip)
        exact same_of_valid hchecked hkl hclip hcispo htruncation _ _ _ _
      · exact same_of_clip hchecked hkl hclip _ _ _ _
    · exact same_of_klType hchecked hkl _ _ _ _

def defaultConfig : ClippedPGLossConfig ℚ where
  disablePpoRatio := false
  tokenLevelLoss := true
  sequenceLevelImportanceRatios := false
  ratioClipMin := 1 / 5
  ratioClipMax := 1 / 5
  ratioClipC := none
  referencePolicyKlPenalty := 1 / 100
  referencePolicyKlType := "k3"
  klInputClampValue := some 20
  klOutputClampValue := some 10
  useImportanceSamplingCorrection := false
  truncatedImportanceSamplingType := none
  truncatedImportanceSamplingRatio := none
  truncatedImportanceSamplingRatioMin := none
  useOnPolicyKlApproximation := false
  forceOnPolicyRatio := false
  useCispo := false

theorem init_default : ClippedPGLossFn.init defaultConfig = .ok (.ofConfig defaultConfig) := rfl

theorem computesConfigured_default : ComputesConfigured (.ofConfig defaultConfig) :=
  (computesConfigured_iff init_default).mpr (.inr (.inr ⟨rfl,.inl rfl⟩))

def cispoConfig : ClippedPGLossConfig ℚ := { defaultConfig with useCispo := true }

theorem init_cispo : ClippedPGLossFn.init cispoConfig = .ok (.ofConfig cispoConfig) := rfl

/-- All log-probabilities are `0`, where the exponential is `1` and the logarithm of it `0`. -/
theorem cispo_loss : ClippedPGLossFn.init cispoConfig = .ok (.ofConfig cispoConfig) ∧
    ¬Same (probeFunctions 1)
      ((ClippedPGLossFn.ofConfig cispoConfig).call (probeFunctions 1) probeCurr probeData 1 1)
      ((cfgFromLossFn (.ofConfig cispoConfig)).read.clippedPgLoss (probeFunctions 1) probeCurr
        probeData 1 1) :=
  ⟨init_cispo,cispo_differs (checked (init_eq_ok init_cispo)) (.inr (.inr rfl)) (.inl rfl) rfl rfl⟩

end Loss
end DockyardRL
