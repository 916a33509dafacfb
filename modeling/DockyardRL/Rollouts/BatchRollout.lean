import DockyardRL.Lib.Padding
import DockyardRL.Lib.SharedLists
import DockyardRL.Rollouts.Feedback
import Mathlib.Algebra.BigOperators.Group.List.Defs

/-! The rollout of a whole batch: on every turn the samples that are still active are generated for
together, stepped by the environments of their tasks, and written back to the batch. Their logs are
lists that several samples may hold together, as those of one prompt do that is repeated.

The rollout of one sample on its own, whose log is a copy. -/
namespace DockyardRL
namespace Rollouts

section

open Gather Padding SharedLists

variable {ι R : Type}

structure Tokenizer where
  padTokenId : ℕ
  /-- Without special tokens. -/
  encode : String → List ℕ
  decode : List ℕ → String

structure RolloutConfig where
  tokenizer : Tokenizer
  maxSeqLen : ℕ
  /-- The structured tool-use protocol is on. -/
  structuredEnabled : Bool

def wrapToolResponseEnvelope (content : String) : String :=
  "<|im_start|>user\n<tool_response>\n" ++ content ++
    "\n</tool_response><|im_end|>\n<|im_start|>assistant\n"

def tokensOf (log : List Message) : List ℕ := log.flatMap Message.tokenIds

structure GenerationInput where
  inputIds : List (List ℕ)
  inputLengths : List ℕ
  stopStrings : List (Option (List String))

structure GenerationOutput where
  outputIds : List (List ℕ)
  unpaddedSequenceLengths : List ℕ
  truncated : Option (List Bool)

/-- `policy_generation.generate`; it may raise. -/
abbrev Generate := GenerationInput → Except RolloutError GenerationOutput

/-- `batched_message_log_to_flat_message`, with the stop strings of the samples. -/
def generationInput (cfg : RolloutConfig) (messageLogs : List (List Message))
    (stopStrings : List (Option (List String))) : GenerationInput :=
  let rows := messageLogs.map tokensOf
  { inputIds := rows.map (padTo (longest (rows.map List.length)) cfg.tokenizer.padTokenId)
    inputLengths := rows.map List.length
    stopStrings := stopStrings }

/-- `full_output[input_len:total_length]`. -/
def generatedPart (input : GenerationInput) (outputs : GenerationOutput) (i : ℕ) :
    Except RolloutError (List ℕ) := do
  let inputLen ← readAt input.inputLengths i
  let totalLength ← readAt outputs.unpaddedSequenceLengths i
  let fullOutput ← readAt outputs.outputIds i
  pure ((fullOutput.take totalLength).drop inputLen)

def assistantMessage (cfg : RolloutConfig) (generated : List ℕ) : Message :=
  ⟨"assistant",cfg.tokenizer.decode generated,generated⟩

/-- What is generated for some samples. -/
structure Responses where
  messageLogs : List (List Message)
  generatedIds : List (List ℕ)
  truncated : Option (List Bool)

/-- Whether the response at a position hit the token limit without a stop token. -/
def Responses.truncatedAt (responses : Responses) (i : ℕ) : Except RolloutError Bool :=
  match responses.truncated with
  | none => .ok false
  | some truncated => readAt truncated i

/-- `generate_responses`: the stop strings of the batch, where it has that column, take the place of
those of the input. -/
def generateResponses (cfg : RolloutConfig) (generate : Generate) (data : GenerationInput)
    (messageLogs : List (List Message)) (stopStrings : Option (List (Option (List String)))) :
    Except RolloutError Responses := do
  let generationInputData := { data with
    stopStrings := match stopStrings with
      | some stopStrings => stopStrings
      | none => List.replicate data.inputLengths.length none }
  let outputs ← generate generationInputData
  let generatedIds ← (List.range data.inputLengths.length).mapM (generatedPart data outputs)
  pure ⟨List.zipWith (fun log generated => log ++ [assistantMessage cfg generated]) messageLogs
    generatedIds,generatedIds,outputs.truncated⟩

def tokenizeObservation (cfg : RolloutConfig) (content : String) : List ℕ :=
  cfg.tokenizer.encode (if cfg.structuredEnabled then wrapToolResponseEnvelope content else content)

def observe (cfg : RolloutConfig) (inputLength generated : ℕ) (content : String) :
    Except RolloutError (List ℕ × Bool) :=
  let tokenizedObs := tokenizeObservation cfg content
  if cfg.maxSeqLen ≤ tokenizedObs.length + generated + inputLength then
    if cfg.maxSeqLen < generated + inputLength then .error .negativeTokensLeft
    else .ok (tokenizedObs.take (cfg.maxSeqLen - (generated + inputLength)),true)
  else .ok (tokenizedObs,false)

def popEnvFlags (metadata : Info ι) : Info ι :=
  metadata.map fun d => (d.erase "invalid_action").erase "malformed_thinking"

/-- One sample of the batch, with what is counted for it. -/
structure Sample (ι R : Type) where
  messageLog : List Message
  taskName : String
  extraEnvInfo : Info ι
  stopStrings : Option (List String)
  totalReward : R
  turnCount : ℕ
  tokenCount : ℕ
  assistantTokenCount : ℕ
  envTokenCount : ℕ
  terminated : Bool
  truncated : Bool

structure Batch (ι R : Type) where
  samples : List (Sample ι R)
  /-- The batch came with a column of stop strings. -/
  hasStopStrings : Bool
  activeIndices : List ℕ
  multiRewards : Option (Dict String (List R))

/-- All that a turn brings for one active sample. -/
structure TurnResult (ι R : Type) where
  generated : List ℕ
  responseTruncated : Bool
  outcome : Outcome ι
  reward : R
  observed : List ℕ × Bool

def TurnResult.done (r : TurnResult ι R) : Bool := r.observed.2 || r.outcome.terminated

/-- What is counted and appended for an active sample. -/
def Sample.record [Add R] (cfg : RolloutConfig) (x : Sample ι R) (r : TurnResult ι R) : Sample ι R :=
  { x with
    messageLog := x.messageLog ++ [assistantMessage cfg r.generated,
      ⟨r.outcome.observation.role,r.outcome.observation.content,r.observed.1⟩]
    totalReward := x.totalReward + r.reward
    turnCount := x.turnCount + 1
    tokenCount := x.tokenCount + r.generated.length + r.observed.1.length
    assistantTokenCount := x.assistantTokenCount + r.generated.length
    envTokenCount := x.envTokenCount + r.observed.1.length
    terminated := x.terminated || r.done
    truncated := x.truncated || r.responseTruncated || r.observed.2 }

def Sample.carry (x : Sample ι R) (outcome : Outcome ι) : Sample ι R :=
  { x with
    stopStrings := outcome.nextStopStrings
    extraEnvInfo := match popEnvFlags outcome.metadata with
      | some metadata => some metadata
      | none => x.extraEnvInfo }

def turnRewards [AddCommMonoid R] (rewards : Rewards R) (count : ℕ) : List R :=
  match rewards with
  | .scalar values => values
  | .named components => (List.range count).map fun i =>
      (components.entries.map fun component => component.2.getD i 0).sum

/-- `reward_dict[name][active_indices] += r`. -/
def addComponent [AddCommMonoid R] (activeIndices : List ℕ) (total : Dict String (List R))
    (component : String × List R) : Except RolloutError (Dict String (List R)) :=
  match total.get? component.1 with
  | none => .error (.keyError component.1)
  | some values => .ok (total.set component.1 (scatter values activeIndices
      (List.zipWith (· + ·) (gather values activeIndices) component.2)))

def addComponents [AddCommMonoid R] (batchSize : ℕ) (activeIndices : List ℕ)
    (multiRewards : Option (Dict String (List R))) (rewards : Rewards R) :
    Except RolloutError (Option (Dict String (List R))) :=
  match rewards with
  | .scalar _ => .ok multiRewards
  | .named components =>
    some <$> components.entries.foldlM (addComponent activeIndices)
      (multiRewards.getD (components.mapValues fun _ => List.replicate batchSize 0))

/-- The result of a turn for the active sample at a position. -/
def turnResult [Zero R] (cfg : RolloutConfig) (inputLengths : List ℕ) (responses : Responses)
    (outcomes : List (Outcome ι)) (rewards : List R) (i : ℕ) :
    Except RolloutError (TurnResult ι R) := do
  let responseTruncated ← responses.truncatedAt i
  let generated ← readAt responses.generatedIds i
  let inputLength ← readAt inputLengths i
  let outcome ← readAt outcomes i
  let reward ← readAt rewards i
  let observed ← observe cfg inputLength generated.length outcome.observation.content
  pure ⟨generated,responseTruncated,outcome,reward,observed⟩

/-- What the model and the environments do on a turn. -/
structure World (ι R : Type) where
  generate : Generate
  taskToEnv : String → Option (Environment ι R)

namespace Batch

variable (cfg : RolloutConfig) (world : World ι R) (b : Batch ι R)

/-- `current_batch.select_indices(active_indices)`. -/
def active : List (Sample ι R) := gather b.samples b.activeIndices

def data : GenerationInput :=
  generationInput cfg (b.active.map Sample.messageLog) (b.active.map Sample.stopStrings)

/-- What is generated on a turn. -/
def responses : Except RolloutError Responses :=
  generateResponses cfg world.generate (b.data cfg) (b.active.map Sample.messageLog)
    (if b.hasStopStrings then some (b.active.map Sample.stopStrings) else none)

/-- A turn behind generation, when the environments are shown some logs: what it brings for every
active sample, and the batch after it. -/
def settle [AddCommMonoid R] (responses : Responses) (messageLogs : List (List Message)) :
    Except RolloutError (List (TurnResult ι R) × Batch ι R) := do
  let feedback ← calculateRewards world.taskToEnv (b.active.map Sample.taskName) messageLogs
    (b.active.map Sample.extraEnvInfo)
  let multiRewards ← addComponents b.samples.length b.activeIndices b.multiRewards feedback.rewards
  let results ← (List.range b.active.length).mapM (turnResult cfg (b.data cfg).inputLengths responses
    feedback.outcomes (turnRewards feedback.rewards b.active.length))
  let recorded := scatter b.samples b.activeIndices
    (List.zipWith (Sample.record cfg) b.active results)
  let localNext := (List.range b.active.length).filter fun i =>
    (results[i]?.map TurnResult.done) = some false
  let nextIndices := gather b.activeIndices localNext
  let continuing := gather (results.map TurnResult.outcome) localNext
  let carried := scatter recorded nextIndices
    (List.zipWith Sample.carry (gather recorded nextIndices) continuing)
  pure (results,⟨carried,b.hasStopStrings,nextIndices,multiRewards⟩)

end Batch

/-- A turn when every sample has a log of its own. -/
def turnApart [AddCommMonoid R] (cfg : RolloutConfig) (world : World ι R) (b : Batch ι R) :
    Except RolloutError (Batch ι R) := do
  let responses ← b.responses cfg world
  let settled ← b.settle cfg world responses responses.messageLogs
  pure settled.2

/-- A batch whose logs are lists that samples hold by reference. -/
structure SharedBatch (ι R : Type) where
  /-- The messages in every list. -/
  contents : ℕ → List Message
  /-- The list that is the log of each sample. -/
  logs : List ℕ
  /-- All else; the logs in here are not read. -/
  rows : Batch ι R

namespace SharedBatch

variable (cfg : RolloutConfig) (world : World ι R) (s : SharedBatch ι R)

/-- The batch as it reads now. -/
def batch : Batch ι R :=
  { s.rows with
    samples := List.zipWith (fun x log => { x with messageLog := s.contents log }) s.rows.samples
      s.logs }

def activeLogs : List ℕ := gather s.logs s.rows.activeIndices

/-- The lists once `generate_responses` has appended the responses. -/
def answered (responses : Responses) : ℕ → List Message :=
  appendEach s.contents s.activeLogs (responses.generatedIds.map (assistantMessage cfg))

end SharedBatch

def TurnResult.message (r : TurnResult ι R) : Message :=
  ⟨r.outcome.observation.role,r.outcome.observation.content,r.observed.1⟩

/-- A turn of `run_multi_turn_rollout`. -/
def turn [AddCommMonoid R] (cfg : RolloutConfig) (world : World ι R) (s : SharedBatch ι R) :
    Except RolloutError (SharedBatch ι R) := do
  let responses ← s.batch.responses cfg world
  let answered := s.answered cfg responses
  let settled ← s.batch.settle cfg world responses (s.activeLogs.map answered)
  pure ⟨appendEach answered s.activeLogs (settled.1.map TurnResult.message),s.logs,settled.2⟩

def runTurns [AddCommMonoid R] (cfg : RolloutConfig) :
    List (World ι R) → SharedBatch ι R → Except RolloutError (SharedBatch ι R)
  | [],s => .ok s
  | world :: worlds,s =>
    if s.rows.activeIndices.length = 0 then .ok s
    else do
      let next ← turn cfg world s
      runTurns cfg worlds next

/-- The input batch. -/
structure InputBatch (ι : Type) where
  contents : ℕ → List Message
  messageLog : List ℕ
  taskName : List String
  extraEnvInfo : List (Info ι)
  stopStrings : Option (List (Option (List String)))

/-- `repeat_interleave`, which repeats the references to the logs and not what they hold. -/
def InputBatch.repeatInterleave (input : InputBatch ι) (numRepeats : ℕ) : InputBatch ι where
  contents := input.contents
  messageLog := input.messageLog.flatMap (List.replicate numRepeats)
  taskName := input.taskName.flatMap (List.replicate numRepeats)
  extraEnvInfo := input.extraEnvInfo.flatMap (List.replicate numRepeats)
  stopStrings := input.stopStrings.map fun stops => stops.flatMap (List.replicate numRepeats)

def Sample.initial [Zero R] (messageLog : List Message) (taskName : String) (extraEnvInfo : Info ι)
    (stopStrings : Option (List String)) : Sample ι R :=
  ⟨messageLog,taskName,extraEnvInfo,stopStrings,0,0,0,0,0,false,false⟩

def InputBatch.sample [Zero R] (input : InputBatch ι) (i : ℕ) : Except RolloutError (Sample ι R) := do
  let messageLog ← readAt input.messageLog i
  let taskName ← readAt input.taskName i
  let extraEnvInfo ← readAt input.extraEnvInfo i
  let stopStrings ← match input.stopStrings with
    | none => pure none
    | some stopStrings => readAt stopStrings i
  pure (Sample.initial (input.contents messageLog) taskName extraEnvInfo stopStrings)

def InputBatch.start [Zero R] (input : InputBatch ι) : Except RolloutError (SharedBatch ι R) := do
  let samples ← (List.range input.messageLog.length).mapM input.sample
  pure ⟨input.contents,input.messageLog,samples,input.stopStrings.isSome,
    List.range input.messageLog.length,none⟩

/-- `run_multi_turn_rollout`; one world for each of the `max_rollout_turns` turns. -/
def runMultiTurnRollout [AddCommMonoid R] (cfg : RolloutConfig) (worlds : List (World ι R))
    (input : InputBatch ι) : Except RolloutError (SharedBatch ι R) := do
  let start ← input.start
  runTurns cfg worlds start

end

variable {ι R : Type}

/-- A sample during its rollout. -/
structure SampleRun (ι R : Type) where
  messageLog : List Message
  taskName : String
  extraEnvInfo : Info ι
  stopStrings : Option (List String)
  totalReward : R
  /-- The sums of the named components. -/
  rewardAccDict : Dict String R
  turnCount : ℕ
  tokenCount : ℕ
  assistantTokenCount : ℕ
  envTokenCount : ℕ
  terminated : Bool
  truncated : Bool
  /-- Generation raised, and the loop was left. -/
  broken : Bool

def observeAlone (cfg : RolloutConfig) (inputLength generated : ℕ) (content : String) :
    List ℕ × Bool :=
  let tokenizedObs := tokenizeObservation cfg content
  if cfg.maxSeqLen ≤ inputLength + generated + tokenizedObs.length then
    let maxEnvTokens := (cfg.maxSeqLen : ℤ) - inputLength - generated
    (if 0 < maxEnvTokens then tokenizedObs.take maxEnvTokens.toNat else [],true)
  else (tokenizedObs,false)

def addAlone [AddCommMonoid R] (sums : Dict String R) (component : String × List R) :
    Except RolloutError (Dict String R) := do
  let value ← readAt component.2 0
  pure (sums.set component.1 ((sums.get? component.1).getD 0 + value))

/-- The reward of the turn, and the sums of the components behind it. -/
def rewardAlone [AddCommMonoid R] (sums : Dict String R) (rewards : Rewards R) :
    Except RolloutError (R × Dict String R) :=
  match rewards with
  | .scalar values => do
    let value ← readAt values 0
    pure (value,sums)
  | .named components => do
    let next ← components.entries.foldlM addAlone sums
    let values ← components.entries.mapM fun component => readAt component.2 0
    pure (values.sum,next)

def generateAlone (cfg : RolloutConfig) (generate : Generate) (messageLog : List Message)
    (stopStrings : Option (List String)) : Except RolloutError Responses :=
  generateResponses cfg generate (generationInput cfg [messageLog] [stopStrings]) [messageLog]
    (some [stopStrings])

/-- The environment's part of a turn. -/
def stepAlone [AddCommMonoid R] (cfg : RolloutConfig)
    (taskToEnv : String → Option (Environment ι R)) (s : SampleRun ι R) (inputLength : ℕ)
    (generated : List ℕ) : Except RolloutError (SampleRun ι R) := do
  let feedback ← calculateRewards taskToEnv [s.taskName] [s.messageLog] [s.extraEnvInfo]
  let outcome ← readAt feedback.outcomes 0
  let reward ← rewardAlone s.rewardAccDict feedback.rewards
  let observed := observeAlone cfg inputLength generated.length outcome.observation.content
  let terminated := outcome.terminated
  let truncated := s.truncated || observed.2
  let goesOn := !terminated && !truncated
  pure { s with
    messageLog := s.messageLog ++
      [⟨outcome.observation.role,outcome.observation.content,observed.1⟩]
    totalReward := s.totalReward + reward.1
    rewardAccDict := reward.2
    envTokenCount := s.envTokenCount + observed.1.length
    tokenCount := s.tokenCount + observed.1.length
    terminated := terminated
    truncated := truncated
    stopStrings := if goesOn ∧ outcome.nextStopStrings ≠ none then outcome.nextStopStrings
      else s.stopStrings
    extraEnvInfo := if goesOn ∧ (popEnvFlags outcome.metadata).isSome then
      popEnvFlags outcome.metadata else s.extraEnvInfo }

/-- A turn of `run_sample_multi_turn_rollout`; a generation that raises leaves the loop. -/
def turnAlone [AddCommMonoid R] (cfg : RolloutConfig) (generate : Generate)
    (taskToEnv : String → Option (Environment ι R)) (s : SampleRun ι R) :
    Except RolloutError (SampleRun ι R) :=
  let s := { s with turnCount := s.turnCount + 1 }
  match generateAlone cfg generate s.messageLog s.stopStrings with
  | .error _ => .ok { s with broken := true }
  | .ok responses =>
    let inputLength := (tokensOf s.messageLog).length
    let generated := responses.generatedIds.headD []
    let s := { s with messageLog := responses.messageLogs.headD s.messageLog }
    match responses.truncatedAt 0 with
    | .error _ => .ok { s with broken := true }
    | .ok responseTruncated =>
      stepAlone cfg taskToEnv { s with
        truncated := s.truncated || responseTruncated
        assistantTokenCount := s.assistantTokenCount + generated.length
        tokenCount := s.tokenCount + generated.length } inputLength generated

def runTurnsAlone [AddCommMonoid R] (cfg : RolloutConfig) :
    List (World ι R) → SampleRun ι R → Except RolloutError (SampleRun ι R)
  | [],s => .ok s
  | world :: worlds,s =>
    if s.terminated || s.truncated || s.broken then .ok s
    else do
      let next ← turnAlone cfg world.generate world.taskToEnv s
      runTurnsAlone cfg worlds next

def SampleRun.initial [Zero R] (messageLog : List Message) (taskName : String)
    (extraEnvInfo : Info ι) (stopStrings : Option (List String)) : SampleRun ι R :=
  ⟨messageLog,taskName,extraEnvInfo,stopStrings,0,Dict.empty,0,0,0,0,false,false,false⟩

end Rollouts
end DockyardRL
