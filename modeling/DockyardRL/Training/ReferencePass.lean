import DockyardRL.Lib.ControlFlow
import Mathlib

/-! A reference pass of a policy worker: the weights of the reference model are copied into the model,
its log-probabilities are computed, and what was saved is copied back behind the yield of a generator. -/
namespace DockyardRL
namespace Training
namespace ReferencePass

open Managed

variable {Key V R K : Type} {blocks experts : ℕ}

structure TrainingSamplingParams (K : Type) where
  topK : Option ℕ
  topP : K
  temperature : K
  deriving DecidableEq

/-- What a forward was run with. -/
structure Forward (Key V K : Type) where
  modelState : Key → V
  samplingParams : Option (TrainingSamplingParams K)

/-- A worker: what the state dict of its model holds, the counters of the MoE blocks, which it does not
hold, the routes that are bound to the blocks, and the forwards so far. -/
structure Worker (Key V R K : Type) (blocks experts : ℕ) where
  modelState : Key → V
  tokensPerExpert : Fin blocks → Fin experts → ℕ
  samplingParams : Option (TrainingSamplingParams K)
  replayRoute : Fin blocks → Option R
  unsharded : Bool
  forwards : List (Forward Key V K)

/-- What a worker is set up with. -/
structure Config (Key V : Type) where
  stateKeys : List Key
  referenceModelStateDict : Key → Option V
  routerReplayEnabled : Bool
  enableSeqPacking : Bool
  contextParallel : Bool

/-- Recorded routes, with the slice of every MoE layer. -/
structure RoutedExperts (R : Type) where
  dim : ℕ
  layers : ℕ
  slice : ℕ → R

/-- A micro-batch: its routes, the tokens that its forward routes before it ends, and whether an
exception is raised before the forward, in it or after it. -/
structure MicroBatch (R : Type) (blocks experts : ℕ) where
  routedExperts : Option (RoutedExperts R)
  counts : Fin blocks → Fin experts → ℕ
  inputsFail : Bool
  forwardFails : Bool
  afterFails : Bool

/-- What a call is given, and where else it raises: while the state dict is saved, or in the check of
the columns. `rows` outputs are to be scattered into `order`. -/
structure Batch (R : Type) (blocks experts : ℕ) where
  saveFails : Bool
  checkFails : Bool
  microBatches : List (MicroBatch R blocks experts)
  rows : ℕ
  order : List ℕ

inductive PassError (Key : Type)
  | save
  /-- A tensor that the reference model does not have. -/
  | missing (key : Key)
  | sequenceDim
  | noMoEBlock
  | routesDim (dim : ℕ)
  | layerCount (recorded blocks : ℕ)
  | replayLayout
  | inputs
  | forward
  | afterForward
  | emptyCat
  | rowOrder (rows packed : ℕ)
  deriving DecidableEq

abbrev Program (Key V R K : Type) (blocks experts : ℕ) (α : Type) : Type :=
  Run (Worker Key V R K blocks experts) (PassError Key) α

/-- What `bind_router_replay` refuses. -/
def bindError (blocks : ℕ) (routes : RoutedExperts R) : Option (PassError Key) :=
  if blocks = 0 then some .noMoEBlock
  else if routes.dim ≠ 4 then some (.routesDim routes.dim)
  else if routes.layers ≠ blocks then some (.layerCount routes.layers blocks)
  else none

def bindRouterReplay {α : Type} (routes : RoutedExperts R) (body : Program Key V R K blocks experts α) :
    Program Key V R K blocks experts α :=
  andThen (check (bindError blocks routes)) fun _ =>
    tryFinally
      (andThen (modify fun w => { w with replayRoute := fun b => some (routes.slice b) }) fun _ => body)
      fun w => { w with replayRoute := fun _ => none }

variable (config : Config Key V)

def routerReplayContext {α : Type} (routedExperts : Option (RoutedExperts R))
    (body : Program Key V R K blocks experts α) : Program Key V R K blocks experts α :=
  match routedExperts with
  | none => body
  | some routes =>
    if config.routerReplayEnabled = false then body
    else if config.enableSeqPacking ∨ config.contextParallel then
      andThen (check (some .replayLayout)) fun _ => body
    else bindRouterReplay routes body

/-- `self.model(**model_args)`. -/
def forward (mb : MicroBatch R blocks experts) : Program Key V R K blocks experts Unit :=
  andThen (modify fun w => { w with
      tokensPerExpert := fun b e => w.tokensPerExpert b e + mb.counts b e
      forwards := w.forwards ++ [⟨w.modelState,w.samplingParams⟩] }) fun _ =>
    check (if mb.forwardFails then some .forward else none)

def runMicroBatch (mb : MicroBatch R blocks experts) : Program Key V R K blocks experts Unit :=
  andThen (check (if mb.inputsFail then some .inputs else none)) fun _ =>
  andThen (routerReplayContext config mb.routedExperts (forward mb)) fun _ =>
    check (if mb.afterFails then some .afterForward else none)

/-- `torch.cat` of the outputs refuses an empty list. -/
def catError (batch : Batch R blocks experts) : Option (PassError Key) :=
  if batch.microBatches.isEmpty then some .emptyCat else none

/-- What `_restore_packed_row_order` raises. -/
def rowOrderError (batch : Batch R blocks experts) : Option (PassError Key) :=
  if config.enableSeqPacking ∧ batch.order.length ≠ batch.rows then
    some (.rowOrder batch.rows batch.order.length)
  else none

/-- `get_logprobs`, under `unshard_fsdp2_model`. -/
def getLogprobs (batch : Batch R blocks experts) : Program Key V R K blocks experts Unit :=
  andThen (check (if batch.checkFails then some .sequenceDim else none)) fun _ =>
  andThen (tryFinally
      (andThen (modify fun w => { w with unsharded := true }) fun _ =>
        forEach (runMicroBatch config) batch.microBatches)
      fun w => { w with unsharded := false }) fun _ =>
  andThen (check (catError batch)) fun _ =>
    check (rowOrderError config batch)

def unfiltered [One K] (params : Option (TrainingSamplingParams K)) : Option (TrainingSamplingParams K) :=
  params.map fun params => ⟨none,1,params.temperature⟩

section Reference

variable [DecidableEq Key]

/-- `val.copy_(source[k])`. -/
def copyKey (source : Key → Option V) (k : Key) : Program Key V R K blocks experts Unit := fun w =>
  match source k with
  | some v => ({ w with modelState := Function.update w.modelState k v },.ok ())
  | none => (w,.error (.missing k))

def copyBack (saved : Key → V) (keys : List Key) (w : Worker Key V R K blocks experts) :
    Worker Key V R K blocks experts :=
  keys.foldl (fun w k => { w with modelState := Function.update w.modelState k (saved k) }) w

variable [One K]

def useReferenceModel {α : Type} (saveFails : Bool) (body : Program Key V R K blocks experts α) :
    Program Key V R K blocks experts α := fun w =>
  andThen (check (if saveFails then some .save else none)) (fun _ =>
  andThen (forEach (copyKey config.referenceModelStateDict) config.stateKeys) fun _ =>
  andThen (modify fun w' => { w' with samplingParams := unfiltered w.samplingParams }) fun _ =>
    underYield body fun w' =>
      copyBack w.modelState config.stateKeys { w' with samplingParams := w.samplingParams }) w

def getReferencePolicyLogprobs (batch : Batch R blocks experts) : Program Key V R K blocks experts Unit :=
  useReferenceModel config batch.saveFails (getLogprobs config batch)

end Reference

section MicroBatches

def replayError (mb : MicroBatch R blocks experts) : Option (PassError Key) :=
  match mb.routedExperts with
  | none => none
  | some routes =>
    if config.routerReplayEnabled = false then none
    else if config.enableSeqPacking ∨ config.contextParallel then some .replayLayout
    else bindError blocks routes

/-- Whether routes are bound for a micro-batch. -/
def binds (mb : MicroBatch R blocks experts) : Prop :=
  config.routerReplayEnabled = true ∧ mb.routedExperts.isSome = true

instance (mb : MicroBatch R blocks experts) : Decidable (binds config mb) :=
  inferInstanceAs (Decidable (_ ∧ _))

def prepareError (mb : MicroBatch R blocks experts) : Option (PassError Key) :=
  (if mb.inputsFail then some .inputs else none).or (replayError config mb)

def microBatchError (mb : MicroBatch R blocks experts) : Option (PassError Key) :=
  (prepareError config mb).or ((if mb.forwardFails then some .forward else none).or
    (if mb.afterFails then some .afterForward else none))

def afterForward (w : Worker Key V R K blocks experts) (mb : MicroBatch R blocks experts) :
    Worker Key V R K blocks experts :=
  { w with
    tokensPerExpert := fun b e => w.tokensPerExpert b e + mb.counts b e
    forwards := w.forwards ++ [⟨w.modelState,w.samplingParams⟩]
    replayRoute := if binds config mb then fun _ => none else w.replayRoute }

def effect (w : Worker Key V R K blocks experts) (mb : MicroBatch R blocks experts) :
    Worker Key V R K blocks experts :=
  if (prepareError config mb).isSome then w else afterForward config w mb

theorem replayContext_eq (mb : MicroBatch R blocks experts) (w : Worker Key V R K blocks experts) :
    routerReplayContext config mb.routedExperts (forward mb) w =
      (if (replayError config mb).isSome then w else afterForward config w mb,
        outcome ((replayError config mb).or (if mb.forwardFails then some .forward else none))) := by
  obtain ⟨routedExperts,counts,inputsFail,forwardFails,afterFails⟩ := mb
  cases routedExperts with
  | none =>
    simp only [replayError,afterForward,binds,Option.isSome_none,Bool.false_eq_true,and_false,if_false]
    rfl
  | some routes =>
    by_cases henabled : config.routerReplayEnabled = true
    · by_cases hlayout : config.enableSeqPacking = true ∨ config.contextParallel = true
      · simp only [routerReplayContext,replayError,henabled,Bool.true_eq_false,if_false,
          if_pos hlayout]
        rfl
      · simp only [routerReplayContext,replayError,henabled,Bool.true_eq_false,if_false,
          if_neg hlayout,afterForward,binds,Option.isSome_some,and_self,if_true]
        rw [bindRouterReplay,andThen,check]
        cases (bindError blocks routes : Option (PassError Key)) with
        | some e => rfl
        | none => rfl
    · have hdisabled : config.routerReplayEnabled = false := by simpa using henabled
      simp only [routerReplayContext,replayError,afterForward,binds,hdisabled,if_true,
        Bool.false_eq_true,false_and,if_false,Option.isSome_none]
      rfl

theorem runMicroBatch_eq (mb : MicroBatch R blocks experts) (w : Worker Key V R K blocks experts) :
    runMicroBatch config mb w = (effect config w mb,outcome (microBatchError config mb)) := by
  rw [runMicroBatch,andThen,check,microBatchError,effect,prepareError]
  cases mb.inputsFail with
  | true => rfl
  | false =>
    simp only [Bool.false_eq_true,if_false,Option.none_or,outcome,andThen,replayContext_eq]
    cases replayError config mb with
    | some e => rfl
    | none =>
      cases mb.forwardFails with
      | true => rfl
      | false => rfl

def forwarded (l : List (MicroBatch R blocks experts)) : List (MicroBatch R blocks experts) :=
  l.filter fun mb => (prepareError config mb).isNone

/-- What micro-batches leave behind. -/
structure Behind (ran : List (MicroBatch R blocks experts)) (w w' : Worker Key V R K blocks experts) :
    Prop where
  modelState : w'.modelState = w.modelState
  samplingParams : w'.samplingParams = w.samplingParams
  tokens : ∀ b e, w'.tokensPerExpert b e = w.tokensPerExpert b e +
    (ran.map fun mb => mb.counts b e).sum
  replayRoute : w'.replayRoute = if ∃ mb ∈ ran, binds config mb then fun _ => none else w.replayRoute
  forwards : ∃ new, w'.forwards = w.forwards ++ new ∧
    ∀ used ∈ new, used = ⟨w.modelState,w.samplingParams⟩

theorem behind_nil (w : Worker Key V R K blocks experts) : Behind config [] w w where
  modelState := rfl
  samplingParams := rfl
  tokens _ _ := rfl
  replayRoute := by simp
  forwards := ⟨[],by simp,by simp⟩

theorem behind_cons {ran : List (MicroBatch R blocks experts)} {mb : MicroBatch R blocks experts}
    {w w' : Worker Key V R K blocks experts} (h : Behind config ran (afterForward config w mb) w') :
    Behind config (mb :: ran) w w' where
  modelState := h.modelState
  samplingParams := h.samplingParams
  tokens b e := by
    rw [h.tokens,List.map_cons,List.sum_cons,← Nat.add_assoc]
    rfl
  replayRoute := by
    rw [h.replayRoute,afterForward]
    by_cases hbinds : binds config mb
    · simp [hbinds]
    · simp [hbinds]
  forwards := by
    obtain ⟨new,hforwards,hnew⟩ := h.forwards
    refine ⟨⟨w.modelState,w.samplingParams⟩ :: new,?_,List.forall_mem_cons.mpr ⟨rfl,hnew⟩⟩
    rw [hforwards,afterForward,List.append_assoc]
    rfl

theorem behind_foldl (l : List (MicroBatch R blocks experts)) (w : Worker Key V R K blocks experts) :
    Behind config (forwarded config l) w (l.foldl (effect config) w) := by
  induction l generalizing w with
  | nil => exact behind_nil config w
  | cons mb l ih =>
    rw [List.foldl_cons,effect,forwarded]
    cases herror : prepareError config mb with
    | some e =>
      rw [List.filter_cons_of_neg (by simp [herror])]
      exact ih w
    | none =>
      rw [List.filter_cons_of_pos (by simp [herror])]
      exact behind_cons config (ih (afterForward config w mb))

end MicroBatches

def bodyError (batch : Batch R blocks experts) : Option (PassError Key) :=
  (if batch.checkFails then some .sequenceDim else none).or
    ((batch.microBatches.findSome? (microBatchError config)).or
      ((catError batch).or (rowOrderError config batch)))

/-- The micro-batches that run a forward, once the reference weights are in place. -/
def ran (batch : Batch R blocks experts) : List (MicroBatch R blocks experts) :=
  if batch.checkFails then []
  else forwarded config (upToError (microBatchError config) batch.microBatches)

theorem getLogprobs_spec (batch : Batch R blocks experts) (w : Worker Key V R K blocks experts) :
    ∃ w',getLogprobs config batch w = (w',outcome (bodyError config batch)) ∧
      Behind config (ran config batch) w w' := by
  rw [getLogprobs,andThen,check,bodyError,ran]
  cases batch.checkFails with
  | true => exact ⟨w,rfl,behind_nil config w⟩
  | false =>
    simp only [Bool.false_eq_true,if_false,Option.none_or,outcome,andThen,Managed.tryFinally,
      Managed.modify,check,forEach_eq (fun mb w => runMicroBatch_eq config mb w)]
    obtain ⟨hstate,hsampling,htokens,hroute,hforwards⟩ := behind_foldl config
      (upToError (microBatchError config) batch.microBatches) { w with unsharded := true }
    cases batch.microBatches.findSome? (microBatchError config) with
    | some e => exact ⟨_,rfl,hstate,hsampling,htokens,hroute,hforwards⟩
    | none =>
      cases (catError batch : Option (PassError Key)) with
      | some e => exact ⟨_,rfl,hstate,hsampling,htokens,hroute,hforwards⟩
      | none => exact ⟨_,rfl,hstate,hsampling,htokens,hroute,hforwards⟩

section Pass

variable [DecidableEq Key]

def overlay (source : Key → Option V) (keys : List Key) (state : Key → V) : Key → V := fun k =>
  if k ∈ keys then (source k).getD (state k) else state k

theorem overlay_nil (source : Key → Option V) (state : Key → V) : overlay source [] state = state := by
  funext k
  exact if_neg List.not_mem_nil

def missingError (source : Key → Option V) (k : Key) : Option (PassError Key) :=
  if (source k).isSome then none else some (.missing k)

def copied (source : Key → Option V) (w : Worker Key V R K blocks experts) (k : Key) :
    Worker Key V R K blocks experts :=
  { w with modelState := Function.update w.modelState k ((source k).getD (w.modelState k)) }

theorem copyKey_eq (source : Key → Option V) (k : Key) (w : Worker Key V R K blocks experts) :
    copyKey source k w = (copied source w k,outcome (missingError source k)) := by
  rw [copyKey,copied,missingError]
  cases source k with
  | some v => rfl
  | none => rw [Option.getD_none,Function.update_eq_self]; rfl

theorem foldl_copied (source : Key → Option V) (keys : List Key) (w : Worker Key V R K blocks experts) :
    keys.foldl (copied source) w = { w with modelState := overlay source keys w.modelState } := by
  induction keys generalizing w with
  | nil => rw [List.foldl_nil,overlay_nil]
  | cons k keys ih =>
    have hstep : overlay source keys (copied source w k).modelState =
        overlay source (k :: keys) w.modelState := by
      funext k'
      by_cases hk : k' = k
      · subst hk
        cases hsource : source k' with
        | none => simp [overlay,copied,hsource]
        | some v => simp [overlay,copied,hsource]
      · simp [overlay,copied,hk]
    rw [List.foldl_cons,ih,hstep]
    rfl

theorem copyBack_modelState (source : Key → Option V) (keys : List Key) (state : Key → V)
    (w : Worker Key V R K blocks experts) (h : w.modelState = overlay source keys state) :
    copyBack state keys w = { w with modelState := state } := by
  have hcopied : copyBack state keys w = keys.foldl (copied fun k => some (state k)) w := rfl
  rw [hcopied,foldl_copied,h]
  congr 1
  funext k
  by_cases hk : k ∈ keys
  · simp [overlay,hk]
  · simp [overlay,hk]

def entryError (batch : Batch R blocks experts) : Option (PassError Key) :=
  (if batch.saveFails then some .save else none).or
    (config.stateKeys.findSome? (missingError config.referenceModelStateDict))

def overwritten (batch : Batch R blocks experts) : List Key :=
  if batch.saveFails then []
  else upToError (missingError config.referenceModelStateDict) config.stateKeys

def passRan (batch : Batch R blocks experts) : List (MicroBatch R blocks experts) :=
  if (entryError config batch).isSome then [] else ran config batch

omit [DecidableEq Key] in
theorem missingError_eq_none {source : Key → Option V} {keys : List Key}
    (h : keys.findSome? (missingError source) = none) {k : Key} (hk : k ∈ keys) :
    ∃ v,source k = some v := by
  have hnone := List.findSome?_eq_none_iff.mp h k hk
  rw [missingError] at hnone
  cases hsource : source k with
  | some v => exact ⟨v,rfl⟩
  | none => simp [hsource] at hnone

/-- A forward with exactly the reference weights, without a filter, at the temperature of the policy. -/
structure ReferenceForward [One K] (w : Worker Key V R K blocks experts) (used : Forward Key V K) :
    Prop where
  weights : ∀ k ∈ config.stateKeys,config.referenceModelStateDict k = some (used.modelState k)
  samplingParams : used.samplingParams = unfiltered w.samplingParams

/-- What a pass leaves behind, however it ends. -/
structure Left [One K] (batch : Batch R blocks experts) (w w' : Worker Key V R K blocks experts) :
    Prop where
  modelState : w'.modelState =
    if ((entryError config batch).or (bodyError config batch)).isSome then
      overlay config.referenceModelStateDict (overwritten config batch) w.modelState
    else w.modelState
  samplingParams : w'.samplingParams =
    if (entryError config batch).isNone ∧ (bodyError config batch).isSome then
      unfiltered w.samplingParams
    else w.samplingParams
  tokens : ∀ b e, w'.tokensPerExpert b e = w.tokensPerExpert b e +
    ((passRan config batch).map fun mb => mb.counts b e).sum
  replayRoute : w'.replayRoute =
    if ∃ mb ∈ passRan config batch, binds config mb then fun _ => none else w.replayRoute
  forwards : ∃ new, w'.forwards = w.forwards ++ new ∧ ∀ used ∈ new, ReferenceForward config w used

def swapped [One K] (w : Worker Key V R K blocks experts) : Worker Key V R K blocks experts :=
  { w with
    modelState := overlay config.referenceModelStateDict config.stateKeys w.modelState
    samplingParams := unfiltered w.samplingParams }

section Ends

variable {config} [One K] {batch : Batch R blocks experts} {w w' : Worker Key V R K blocks experts}

theorem left_entry (h : (entryError config batch).isSome = true) : Left config batch w
    { w with modelState :=
      overlay config.referenceModelStateDict (overwritten config batch) w.modelState } where
  modelState := by rw [if_pos (by rw [Option.isSome_or,h]; rfl)]
  samplingParams := by
    rw [if_neg]
    rintro ⟨hnone,-⟩
    rw [Option.isNone_iff_eq_none.mp hnone] at h
    exact Bool.noConfusion h
  tokens _ _ := by rw [passRan,if_pos h]; rfl
  replayRoute := by rw [passRan,if_pos h]; simp
  forwards := ⟨[],by simp,by simp⟩

omit [DecidableEq Key] in
theorem findSome?_missing (h : entryError config batch = none) :
    config.stateKeys.findSome? (missingError config.referenceModelStateDict) = none :=
  (Option.or_eq_none_iff.mp h).2

omit [DecidableEq Key] in
theorem overwritten_eq (h : entryError config batch = none) :
    overwritten config batch = config.stateKeys := by
  have hsave : batch.saveFails = false := by
    have hnone := (Option.or_eq_none_iff.mp h).1
    cases hsave : batch.saveFails with
    | false => rfl
    | true => simp [hsave] at hnone
  rw [overwritten,hsave]
  exact upToError_eq_self (findSome?_missing h)

omit [DecidableEq Key] in
theorem passRan_eq (h : entryError config batch = none) : passRan config batch = ran config batch := by
  rw [passRan,h]
  rfl

theorem referenceForward_swapped (h : entryError config batch = none) : ReferenceForward config w
    ⟨(swapped config w).modelState,(swapped config w).samplingParams⟩ where
  weights k hk := by
    obtain ⟨v,hv⟩ := missingError_eq_none (findSome?_missing h) hk
    simp only [swapped,overlay,if_pos hk,hv,Option.getD_some]
  samplingParams := rfl

theorem left_body (hentry : entryError config batch = none)
    (hbehind : Behind config (ran config batch) (swapped config w) w')
    {w'' : Worker Key V R K blocks experts}
    (htokens : w''.tokensPerExpert = w'.tokensPerExpert)
    (hroute : w''.replayRoute = w'.replayRoute) (hforwards : w''.forwards = w'.forwards)
    (hstate : w''.modelState = if (bodyError config batch).isSome then w'.modelState
      else w.modelState)
    (hsampling : w''.samplingParams = if (bodyError config batch).isSome then w'.samplingParams
      else w.samplingParams) : Left config batch w w'' where
  modelState := by
    rw [hstate,hentry,overwritten_eq hentry,hbehind.modelState]
    rfl
  samplingParams := by
    rw [hsampling,hentry,hbehind.samplingParams]
    simp [swapped]
  tokens b e := by
    rw [htokens,hbehind.tokens,passRan_eq hentry]
    rfl
  replayRoute := by
    rw [hroute,hbehind.replayRoute,passRan_eq hentry]
    rfl
  forwards := by
    obtain ⟨new,hnew,hused⟩ := hbehind.forwards
    refine ⟨new,hforwards.trans hnew,fun used hmem => ?_⟩
    rw [hused used hmem]
    exact referenceForward_swapped hentry

end Ends

theorem getReferencePolicyLogprobs_spec [One K] (batch : Batch R blocks experts)
    (w : Worker Key V R K blocks experts) : ∃ w',getReferencePolicyLogprobs config batch w =
      (w',outcome ((entryError config batch).or (bodyError config batch))) ∧
        Left config batch w w' := by
  rw [getReferencePolicyLogprobs,useReferenceModel,andThen,check]
  cases hsave : batch.saveFails with
  | true =>
    have hentry : (entryError config batch).isSome = true := by rw [entryError,hsave]; rfl
    have hleft := left_entry (w := w) hentry
    rw [overwritten,hsave,if_pos rfl,overlay_nil] at hleft
    refine ⟨w,?_,hleft⟩
    rw [entryError,hsave]
    rfl
  | false =>
    have hentry : entryError config batch = config.stateKeys.findSome?
        (missingError config.referenceModelStateDict) := by
      rw [entryError,hsave]
      rfl
    simp only [Bool.false_eq_true,if_false,outcome,andThen,forEach_eq (copyKey_eq _),foldl_copied]
    cases hmissing : config.stateKeys.findSome? (missingError config.referenceModelStateDict) with
    | some e =>
      rw [hmissing] at hentry
      have hleft := left_entry (w := w) (by rw [hentry]; rfl)
      rw [overwritten,hsave,if_neg Bool.false_ne_true] at hleft
      rw [hentry]
      exact ⟨_,rfl,hleft⟩
    | none =>
      rw [hmissing] at hentry
      rw [upToError_eq_self hmissing,hentry]
      obtain ⟨w',hrun,hbehind⟩ := getLogprobs_spec config batch (swapped config w)
      simp only [Managed.modify,underYield]
      rw [swapped] at hrun
      rw [hrun]
      cases hbody : bodyError config batch with
      | some e => exact ⟨w',rfl,left_body hentry hbehind rfl rfl rfl (by simp [hbody]) (by simp [hbody])⟩
      | none =>
        refine ⟨_,rfl,?_⟩
        rw [copyBack_modelState config.referenceModelStateDict config.stateKeys w.modelState
          { w' with samplingParams := w.samplingParams } hbehind.modelState]
        exact left_body hentry hbehind rfl rfl rfl (by simp [hbody]) (by simp [hbody])

/-- The policy is as it was. -/
structure Unchanged (w w' : Worker Key V R K blocks experts) : Prop where
  modelState : w'.modelState = w.modelState
  tokensPerExpert : w'.tokensPerExpert = w.tokensPerExpert
  samplingParams : w'.samplingParams = w.samplingParams
  replayRoute : w'.replayRoute = w.replayRoute

/-- When a pass that raises finds the reference weights already in the model and nothing filtered, and
no forward routes a token or unbinds a route that was bound before. -/
structure LeavesPolicy [One K] (batch : Batch R blocks experts) (w : Worker Key V R K blocks experts) :
    Prop where
  weights : ((entryError config batch).or (bodyError config batch)).isSome →
    ∀ k ∈ overwritten config batch,∀ v,config.referenceModelStateDict k = some v → w.modelState k = v
  sampling : (entryError config batch).isNone ∧ (bodyError config batch).isSome →
    unfiltered w.samplingParams = w.samplingParams
  tokens : ∀ mb ∈ passRan config batch,∀ b e,mb.counts b e = 0
  routes : (∃ mb ∈ passRan config batch, binds config mb) → ∀ b,w.replayRoute b = none

theorem overlay_eq_self {source : Key → Option V} {keys : List Key} {state : Key → V} :
    overlay source keys state = state ↔ ∀ k ∈ keys,∀ v,source k = some v → state k = v := by
  constructor
  · intro h k hk v hv
    have hat := congrFun h k
    rw [overlay,if_pos hk,hv] at hat
    exact hat.symm
  · intro h
    funext k
    by_cases hk : k ∈ keys
    · rw [overlay,if_pos hk]
      cases hv : source k with
      | some v => exact (h k hk v hv).symm
      | none => rfl
    · exact if_neg hk

theorem unchanged_iff [One K] {batch : Batch R blocks experts} {w w' : Worker Key V R K blocks experts}
    (h : Left config batch w w') : Unchanged w w' ↔ LeavesPolicy config batch w := by
  have hstate : w'.modelState = w.modelState ↔
      (((entryError config batch).or (bodyError config batch)).isSome →
        ∀ k ∈ overwritten config batch,∀ v,config.referenceModelStateDict k = some v →
          w.modelState k = v) := by
    rw [h.modelState,ite_eq_right_iff]
    exact forall_congr' fun _ => overlay_eq_self
  have hsampling : w'.samplingParams = w.samplingParams ↔
      ((entryError config batch).isNone ∧ (bodyError config batch).isSome →
        unfiltered w.samplingParams = w.samplingParams) := by
    rw [h.samplingParams,ite_eq_right_iff]
  have htokens : w'.tokensPerExpert = w.tokensPerExpert ↔
      ∀ mb ∈ passRan config batch,∀ b e,mb.counts b e = 0 := by
    simp only [funext_iff,h.tokens,Nat.add_eq_left,List.sum_eq_zero_iff_forall_eq_nat,
      List.forall_mem_map]
    exact ⟨fun hzero mb hmb b e => hzero b e mb hmb,fun hzero b e mb hmb => hzero mb hmb b e⟩
  have hroute : w'.replayRoute = w.replayRoute ↔
      ((∃ mb ∈ passRan config batch, binds config mb) → ∀ b,w.replayRoute b = none) := by
    rw [h.replayRoute,ite_eq_right_iff]
    exact forall_congr' fun _ => funext_iff.trans (forall_congr' fun _ => eq_comm)
  constructor
  · rintro ⟨hs,ht,hp,hr⟩
    exact ⟨hstate.mp hs,hsampling.mp hp,htokens.mp ht,hroute.mp hr⟩
  · rintro ⟨hs,hp,ht,hr⟩
    exact ⟨hstate.mpr hs,htokens.mpr ht,hsampling.mpr hp,hroute.mpr hr⟩

/-- A reference pass runs every forward with the reference weights, unfiltered and at the temperature of
the policy; it leaves the policy as it was, however it ends, exactly when the condition holds. -/
theorem reference_pass_iff [One K] (batch : Batch R blocks experts)
    (w : Worker Key V R K blocks experts) :
    (Unchanged w (getReferencePolicyLogprobs config batch w).1 ∧
      ∃ new,(getReferencePolicyLogprobs config batch w).1.forwards = w.forwards ++ new ∧
        ∀ used ∈ new,ReferenceForward config w used) ↔ LeavesPolicy config batch w := by
  obtain ⟨w',hrun,hleft⟩ := getReferencePolicyLogprobs_spec config batch w
  rw [hrun]
  exact (and_iff_left hleft.forwards).trans (unchanged_iff config hleft)

/-- A pass whose only micro-batch raises in its forward leaves the reference weights in the model. -/
theorem raised_pass_keeps_reference :
    ¬ ∀ (config : Config Unit ℕ) (batch : Batch Unit 1 1) (w : Worker Unit ℕ Unit ℕ 1 1),
      Unchanged w (getReferencePolicyLogprobs config batch w).1 := by
  intro h
  have hstate := (h ⟨[()],fun _ => some 1,false,false,false⟩
    ⟨false,false,[⟨none,fun _ _ => 0,false,true,false⟩],1,[]⟩
    ⟨fun _ => 0,fun _ _ => 0,some ⟨none,1,1⟩,fun _ => none,false,[]⟩).modelState
  exact absurd (congrFun hstate ()) (by decide)

end Pass

end ReferencePass
end Training
end DockyardRL
