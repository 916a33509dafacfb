import DockyardRL.Lib.ControlFlow
import DockyardRL.Lib.Dict
import Mathlib

/-! The rollout of desktop tasks, which puts the screenshot of each turn into the message log and
into the images of the next request.

Runs of the desktop rollout: the images of every request are those of the log that is sent, and no
message is cut. -/
namespace DockyardRL
namespace Cua
namespace ScreenshotRollout

section

open BreakLoop Fallible

/-- What the processor returns under a multimodal key. -/
inductive Pixels (φ : Type)
  | perToken (values : φ)
  | packed (values : φ) (dim : ℕ)

/-- A message; the multimodal keys are there if it was encoded with an image. All its other tensors have
one entry for each token. -/
structure Message (φ : Type) where
  role : String
  content : String
  tokenIds : List ℕ
  multimodal : Option (List (String × Pixels φ))

/-- The content of a user message: a text, or an image and a text that may be left out. -/
inductive Content (ι : Type)
  | text (text : String)
  | image (image : ι) (text : Option String)

/-- The processor: the chat template for a user message, with the generation prompt, what it makes of
the formatted text, and the tokenizer. -/
structure Processor (ι φ : Type) where
  applyChatTemplate : Content ι → String
  inputIds : String → Option ι → List ℕ
  multimodalKeys : List String
  processed : String → ι → String → Option φ
  dimToPack : String → ℕ
  decode : List ℕ → String

variable {ι φ μ ρ ε : Type}

def encodeObservationMessage (processor : Processor ι φ) (text : String) : Option ι → Message φ
  | none =>
    let formatted := processor.applyChatTemplate (.text text)
    ⟨"user",formatted,processor.inputIds formatted none,none⟩
  | some image =>
    let formatted := processor.applyChatTemplate (.image image (if text = "" then none else some text))
    ⟨"user",formatted,processor.inputIds formatted (some image),
      some (processor.multimodalKeys.filterMap fun key =>
        (processor.processed formatted image key).map fun values =>
          (key,if key ∈ ["token_type_ids","mm_token_type_ids"] then .perToken values
            else .packed values (processor.dimToPack key)))⟩

def flatLength (log : List (Message φ)) : ℕ := (log.map (·.tokenIds.length)).sum

def assistantMessage (processor : Processor ι φ) (ids : List ℕ) : Message φ :=
  ⟨"assistant",processor.decode ids,ids,none⟩

/-- A value in the metadata of a sample, as far as it matters here. -/
inductive MetaValue (μ : Type)
  | none
  | bytes (data : List UInt8)
  | str (text : String)
  | int (n : ℤ)
  | other (value : μ) (truthy : Bool)

def MetaValue.truthy : MetaValue μ → Bool
  | .none => false
  | .bytes data => !data.isEmpty
  | .str text => text ≠ ""
  | .int n => n ≠ 0
  | .other _ truthy => truthy

abbrev Metadata (μ : Type) := Dict String (MetaValue μ)

/-- How provisioning goes: it raises, before or after the episode is stored, or it starts. -/
inductive Begun
  | fails (exc : String) (stored : Option String)
  | starts (episodeId : String) (screenshot : Option (List UInt8)) (text : String)

/-- What `begin_episode` returns. -/
structure Seed (μ : Type) where
  screenshot : Option (List UInt8)
  text : String
  metadata : Metadata μ
  error : Option String

def beginEpisode (metadata : Metadata μ) : Begun → Seed μ
  | .fails exc none => ⟨none,"[environment error during start: " ++ exc ++ "]",metadata,some exc⟩
  | .fails exc (some id) => ⟨none,"[environment error during start: " ++ exc ++ "]",
      (metadata.set "_episode_id" (.str id)).set "_turn" (.int 0),some exc⟩
  | .starts id screenshot text =>
    ⟨screenshot,text,(metadata.set "_episode_id" (.str id)).set "_turn" (.int 0),none⟩

/-- The output for one request. -/
structure Generated where
  outputIds : List ℕ
  unpaddedSequenceLength : ℕ
  truncated : Option Bool
  leaderWorkerIdx : Option ℕ

/-- `output_ids[input_length:total_length]`. -/
def Generated.part (output : Generated) (inputLength : ℕ) : List ℕ :=
  (output.outputIds.take output.unpaddedSequenceLength).drop inputLength

/-- What `calculate_rewards` returns for one sample; metadata that is no dict is `none`. -/
structure EnvOutput (μ ρ : Type) where
  reward : ρ
  terminated : Bool
  content : Option String
  metadata : Option (Metadata μ)
  nextStopStrings : Option (List String)

/-- The policy and the environment, which may answer differently in each turn and may raise. -/
structure World (ι φ μ ρ ε : Type) where
  generate : ℕ → List (Message φ) → Option (List String) → List ι → Except ε Generated
  calculateRewards : ℕ → List (Message φ) → Metadata μ → Except ε (EnvOutput μ ρ)
  screenshotToImage : MetaValue μ → Except ε ι

/-- `screenshot_to_image(shot) if shot else None`. -/
def World.image (world : World ι φ μ ρ ε) : Option (MetaValue μ) → Except ε (Option ι)
  | some shot => if shot.truthy then (world.screenshotToImage shot).map some else .ok none
  | none => .ok none

/-- A desktop sample: its prompt is text, and its metadata has no screenshot. -/
structure Sample (φ μ : Type) where
  messageLog : List (Message φ)
  extraEnvInfo : Metadata μ
  stopStrings : Option (List String)
  textOnly : ∀ m ∈ messageLog, m.multimodal = none
  bare : extraEnvInfo.get? "_screenshot" = none

/-- The locals of `_run_cua_sample`. -/
structure State (ι φ μ ρ : Type) where
  messageLog : List (Message φ)
  extraEnvInfo : Metadata μ
  stopStrings : Option (List String)
  totalReward : ρ
  turnCount : ℕ
  tokenCount : ℕ
  assistantTokenCount : ℕ
  envTokenCount : ℕ
  terminated : Bool
  truncated : Bool
  maxTurnsReached : Bool
  turnGenTokens : List ℕ
  turnInputTokens : List ℕ
  turnTotalTokens : List ℕ
  perWorkerTokenCounts : Dict ℕ ℕ
  vllmImages : List ι

namespace State

def append (s : State ι φ μ ρ) (message : Message φ) (image : Option ι) : State ι φ μ ρ :=
  { s with
    messageLog := s.messageLog ++ [message]
    vllmImages := s.vllmImages ++ image.toList
    envTokenCount := s.envTokenCount + message.tokenIds.length
    tokenCount := s.tokenCount + message.tokenIds.length }

/-- The state behind `_cua_generate_for_turn` and the counting of its tokens. -/
def generated (s : State ι φ μ ρ) (processor : Processor ι φ) (output : Generated) : State ι φ μ ρ :=
  let inputLength := flatLength s.messageLog
  let ids := output.part inputLength
  { s with
    messageLog := s.messageLog ++ [assistantMessage processor ids]
    turnCount := s.turnCount + 1
    truncated := s.truncated || output.truncated = some true
    assistantTokenCount := s.assistantTokenCount + ids.length
    tokenCount := s.tokenCount + ids.length
    turnGenTokens := s.turnGenTokens ++ [ids.length]
    turnInputTokens := s.turnInputTokens ++ [inputLength]
    turnTotalTokens := s.turnTotalTokens ++ [inputLength + ids.length]
    perWorkerTokenCounts := match output.leaderWorkerIdx with
      | some worker => s.perWorkerTokenCounts.set worker
          ((s.perWorkerTokenCounts.get? worker).getD 0 + ids.length)
      | none => s.perWorkerTokenCounts }

def rewarded [Add ρ] (s : State ι φ μ ρ) (output : EnvOutput μ ρ) : State ι φ μ ρ :=
  { s with totalReward := s.totalReward + output.reward, terminated := output.terminated }

def carried (s : State ι φ μ ρ) (output : EnvOutput μ ρ) : State ι φ μ ρ :=
  { s with
    extraEnvInfo := match output.metadata with
      | some metadata => metadata.filterKeys (· ≠ "_screenshot")
      | none => s.extraEnvInfo
    stopStrings := if !s.terminated && !s.truncated then output.nextStopStrings.or s.stopStrings
      else s.stopStrings }

end State

section Run

variable [Add ρ] [Zero ρ] (world : World ι φ μ ρ ε) (processor : Processor ι φ) (maxSeqLen : ℕ)

/-- A turn of the loop, and whether it breaks. -/
def turn (s : State ι φ μ ρ) : Except ε (State ι φ μ ρ × Bool) :=
  match world.generate s.turnCount s.messageLog s.stopStrings s.vllmImages with
  | .error _ => .ok ({ s with turnCount := s.turnCount + 1 },true)
  | .ok output =>
    let next := s.generated processor output
    (world.calculateRewards s.turnCount next.messageLog next.extraEnvInfo).bind fun env =>
      let next := next.rewarded env
      (world.image (env.metadata.bind (·.get? "_screenshot"))).bind fun image =>
        let message := encodeObservationMessage processor (env.content.getD "") image
        if !next.terminated && decide (maxSeqLen ≤ flatLength s.messageLog +
            (output.part (flatLength s.messageLog)).length + message.tokenIds.length) then
          .ok ({ next with truncated := true },true)
        else .ok ((next.append message image).carried env,false)

variable (sample : Sample φ μ) (begun : Begun) (maxRolloutTurns : ℕ)

def start : State ι φ μ ρ :=
  ⟨sample.messageLog,sample.extraEnvInfo,sample.stopStrings,0,0,0,0,0,false,false,false,[],[],[],.empty,[]⟩

def seed : Seed μ := beginEpisode sample.extraEnvInfo begun

/-- `screenshot_to_image(seed_shot) if seed_shot else None`. -/
def seedImage : Except ε (Option ι) := world.image ((seed sample begun).screenshot.map .bytes)

def seedMessage (image : Option ι) : Message φ :=
  encodeObservationMessage processor
    (if (seed sample begun).text = "" then "Here is the current screen." else (seed sample begun).text) image

def seeded (image : Option ι) : State ι φ μ ρ :=
  { (start sample : State ι φ μ ρ) with extraEnvInfo := (seed sample begun).metadata }.append
    (seedMessage processor sample begun image) image

def done (s : State ι φ μ ρ) : Bool := s.terminated || s.truncated

def failedToStart : Bool := ((seed sample begun).error.getD "") ≠ ""

def runCuaSample : Except ε (State ι φ μ ρ) :=
  if failedToStart sample begun then
    .ok { (start sample : State ι φ μ ρ) with
      extraEnvInfo := (seed sample begun).metadata, terminated := true }
  else (seedImage world sample begun).bind fun image =>
    (loop done (turn world processor maxSeqLen) maxRolloutTurns
      (seeded processor sample begun image)).map fun s =>
        { s with maxTurnsReached := maxRolloutTurns ≤ s.turnCount }

def requests : List (State ι φ μ ρ) :=
  if failedToStart sample begun then []
  else match seedImage world sample begun with
    | .ok image => entered done (turn world processor maxSeqLen) maxRolloutTurns
        (seeded processor sample begun image)
    | .error _ => []

def turnReward (s : State ι φ μ ρ) : Option ρ :=
  match world.generate s.turnCount s.messageLog s.stopStrings s.vllmImages with
  | .error _ => none
  | .ok output =>
    match world.calculateRewards s.turnCount (s.generated processor output).messageLog s.extraEnvInfo with
    | .error _ => none
    | .ok env => some env.reward

end Run

end

open BreakLoop Fallible

variable {ι φ μ ρ ε : Type}

/-- A log that grows from the prompt by whole messages: the first observation, all that is generated for
the log as it is, and all that is observed. -/
inductive Whole (world : World ι φ μ ρ ε) (processor : Processor ι φ) (prompt : List (Message φ))
    (first : Message φ) : List (Message φ) → Prop
  | prompt : Whole world processor prompt first prompt
  | seed : Whole world processor prompt first (prompt ++ [first])
  | generated {log turn stopStrings images output} (h : Whole world processor prompt first log)
    (houtput : world.generate turn log stopStrings images = .ok output) :
    Whole world processor prompt first (log ++ [assistantMessage processor (output.part (flatLength log))])
  | observed {log turn info env image} (h : Whole world processor prompt first log)
    (henv : world.calculateRewards turn log info = .ok env)
    (himage : world.image (env.metadata.bind (·.get? "_screenshot")) = .ok image) :
    Whole world processor prompt first
      (log ++ [encodeObservationMessage processor (env.content.getD "") image])

def tokensOf (role : String) (log : List (Message φ)) : ℕ := flatLength (log.filter (·.role = role))

/-- A message with the placeholders and pixels of one image. -/
def Shows (processor : Processor ι φ) (message : Message φ) (image : ι) : Prop :=
  ∃ text, message = encodeObservationMessage processor text (some image)

/-- Whole messages, one image for each message with an image, in order, counters that count what was
appended to the prompt, and no screenshot in the metadata. -/
structure InStep (world : World ι φ μ ρ ε) (processor : Processor ι φ) (prompt : List (Message φ))
    (first : Message φ) (s : State ι φ μ ρ) : Prop where
  whole : Whole world processor prompt first s.messageLog
  images : List.Forall₂ (Shows processor) (s.messageLog.filter (·.multimodal.isSome)) s.vllmImages
  assistant : s.assistantTokenCount = tokensOf "assistant" (s.messageLog.drop prompt.length)
  env : s.envTokenCount = tokensOf "user" (s.messageLog.drop prompt.length)
  metadata : s.extraEnvInfo.get? "_screenshot" = none

theorem flatLength_append (log log' : List (Message φ)) :
    flatLength (log ++ log') = flatLength log + flatLength log' := by
  simp [flatLength]

theorem tokensOf_concat (role : String) (log : List (Message φ)) (message : Message φ) :
    tokensOf role (log ++ [message]) =
      tokensOf role log + if message.role = role then message.tokenIds.length else 0 := by
  rw [tokensOf,List.filter_append,flatLength_append]
  split_ifs with h <;> simp [tokensOf,flatLength,h]

section Steps

variable {world : World ι φ μ ρ ε} {processor : Processor ι φ} {prompt : List (Message φ)}
  {first : Message φ} {s : State ι φ μ ρ}

theorem Whole.prompt_prefix {log : List (Message φ)} (h : Whole world processor prompt first log) :
    prompt <+: log := by
  induction h with
  | prompt => exact List.prefix_rfl
  | seed => exact List.prefix_append prompt [first]
  | generated _ _ ih => exact ih.trans (List.prefix_append _ _)
  | observed _ _ _ ih => exact ih.trans (List.prefix_append _ _)

theorem role_encodeObservationMessage (text : String) (image : Option ι) :
    (encodeObservationMessage processor text image).role = "user" := by
  cases image <;> rfl

theorem InStep.flags (h : InStep world processor prompt first s) (totalReward : ρ) (turnCount : ℕ)
    (terminated truncated maxTurnsReached : Bool) : InStep world processor prompt first
      { s with totalReward, turnCount, terminated, truncated, maxTurnsReached } :=
  ⟨h.whole,h.images,h.assistant,h.env,h.metadata⟩

theorem InStep.generated (h : InStep world processor prompt first s) {output : Generated} {turn : ℕ}
    {stopStrings : Option (List String)} {images : List ι}
    (houtput : world.generate turn s.messageLog stopStrings images = .ok output) :
    InStep world processor prompt first (s.generated processor output) := by
  have hlength := h.whole.prompt_prefix.length_le
  refine ⟨h.whole.generated houtput,?_,?_,?_,h.metadata⟩
  · show List.Forall₂ _ ((s.messageLog ++ [_]).filter _) s.vllmImages
    rw [List.filter_append]
    exact (List.append_nil _).symm ▸ h.images
  · show s.assistantTokenCount + _ = tokensOf _ ((s.messageLog ++ [_]).drop _)
    rw [List.drop_append_of_le_length hlength,tokensOf_concat,h.assistant]
    rfl
  · show s.envTokenCount = tokensOf _ ((s.messageLog ++ [_]).drop _)
    rw [List.drop_append_of_le_length hlength,tokensOf_concat,h.env]
    rfl

theorem InStep.append (h : InStep world processor prompt first s) {text : String} {image : Option ι}
    (hwhole : Whole world processor prompt first
      (s.messageLog ++ [encodeObservationMessage processor text image])) :
    InStep world processor prompt first
      (s.append (encodeObservationMessage processor text image) image) := by
  have hlength := h.whole.prompt_prefix.length_le
  refine ⟨hwhole,?_,?_,?_,h.metadata⟩
  · show List.Forall₂ _ ((s.messageLog ++ [_]).filter _) (s.vllmImages ++ _)
    rw [List.filter_append]
    refine List.rel_append h.images ?_
    cases image with
    | none => exact .nil
    | some image => exact .cons ⟨text,rfl⟩ .nil
  · show s.assistantTokenCount = tokensOf _ ((s.messageLog ++ [_]).drop _)
    rw [List.drop_append_of_le_length hlength,tokensOf_concat,role_encodeObservationMessage,h.assistant]
    rfl
  · show s.envTokenCount + _ = tokensOf _ ((s.messageLog ++ [_]).drop _)
    rw [List.drop_append_of_le_length hlength,tokensOf_concat,role_encodeObservationMessage,h.env,
      if_pos rfl]

theorem InStep.carried (h : InStep world processor prompt first s) (output : EnvOutput μ ρ) :
    InStep world processor prompt first (s.carried output) := by
  refine ⟨h.whole,h.images,h.assistant,h.env,?_⟩
  show Dict.get? (match output.metadata with
    | some metadata => metadata.filterKeys (· ≠ "_screenshot")
    | none => s.extraEnvInfo) "_screenshot" = none
  cases output.metadata with
  | none => exact h.metadata
  | some metadata => rw [Dict.get?_filterKeys]; rfl

end Steps

section Turns

variable [Add ρ] {world : World ι φ μ ρ ε} {processor : Processor ι φ} {maxSeqLen : ℕ}
  {prompt : List (Message φ)} {first : Message φ} {s s' : State ι φ μ ρ} {breaks : Bool}

theorem turn_cases (h : turn world processor maxSeqLen s = .ok (s',breaks)) :
    (∃ e, world.generate s.turnCount s.messageLog s.stopStrings s.vllmImages = .error e ∧
      breaks = true ∧ s' = { s with turnCount := s.turnCount + 1 }) ∨
    ∃ output env image,
      world.generate s.turnCount s.messageLog s.stopStrings s.vllmImages = .ok output ∧
      world.calculateRewards s.turnCount (s.generated processor output).messageLog s.extraEnvInfo =
        .ok env ∧
      world.image (env.metadata.bind (·.get? "_screenshot")) = .ok image ∧
      (breaks = true ∧ s' = { (s.generated processor output).rewarded env with truncated := true } ∨
        breaks = false ∧
        (env.terminated = true ∨ flatLength s.messageLog + (output.part (flatLength s.messageLog)).length +
          (encodeObservationMessage processor (env.content.getD "") image).tokenIds.length < maxSeqLen) ∧
        s' = (((s.generated processor output).rewarded env).append
          (encodeObservationMessage processor (env.content.getD "") image) image).carried env) := by
  rw [turn] at h
  cases hgenerate : world.generate s.turnCount s.messageLog s.stopStrings s.vllmImages with
  | error e =>
    rw [hgenerate] at h
    obtain ⟨rfl,rfl⟩ := Prod.mk.inj (Except.ok.inj h)
    exact .inl ⟨e,rfl,rfl,rfl⟩
  | ok output =>
    rw [hgenerate] at h
    obtain ⟨env,henv,h⟩ := bind_eq_ok.mp h
    obtain ⟨image,himage,h⟩ := bind_eq_ok.mp h
    refine .inr ⟨output,env,image,rfl,henv,himage,?_⟩
    dsimp only at h
    split_ifs at h with hlong
    · obtain ⟨rfl,rfl⟩ := Prod.mk.inj (Except.ok.inj h)
      exact .inl ⟨rfl,rfl⟩
    · obtain ⟨rfl,rfl⟩ := Prod.mk.inj (Except.ok.inj h)
      refine .inr ⟨rfl,?_,rfl⟩
      rw [Bool.and_eq_true,decide_eq_true_iff,not_and_or,Nat.not_le] at hlong
      exact hlong.imp_left fun hterminated => by simpa [State.rewarded] using hterminated

theorem InStep.turn (h : InStep world processor prompt first s)
    (hturn : turn world processor maxSeqLen s = .ok (s',breaks)) :
    InStep world processor prompt first s' := by
  rcases turn_cases hturn with ⟨e,-,-,rfl⟩ | ⟨output,env,image,houtput,henv,himage,hends⟩
  · exact h.flags _ _ _ _ _
  · have hgenerated := h.generated houtput
    have hrewarded : InStep world processor prompt first ((s.generated processor output).rewarded env) :=
      hgenerated.flags _ _ _ _ _
    rcases hends with ⟨-,rfl⟩ | ⟨-,-,rfl⟩
    · exact hgenerated.flags _ _ _ _ _
    · exact (hrewarded.append (hgenerated.whole.observed henv himage)).carried env

theorem flatLength_turn (hturn : ScreenshotRollout.turn world processor maxSeqLen s = .ok (s',false)) :
    s'.terminated = true ∨ flatLength s'.messageLog < maxSeqLen := by
  rcases turn_cases hturn with ⟨e,-,hbreaks,-⟩ | ⟨output,env,image,-,-,-,⟨hbreaks,-⟩ | ⟨-,hroom,rfl⟩⟩
  · cases hbreaks
  · cases hbreaks
  · refine hroom.imp_right fun hlt => ?_
    show flatLength (s.messageLog ++ [assistantMessage processor _] ++ [_]) < _
    rw [flatLength_append,flatLength_append]
    simpa [flatLength,assistantMessage] using hlt

theorem totalReward_turn (hturn : ScreenshotRollout.turn world processor maxSeqLen s = .ok (s',breaks)) :
    s'.totalReward = (turnReward world processor s).toList.foldl (· + ·) s.totalReward := by
  rw [turnReward]
  rcases turn_cases hturn with ⟨e,hgenerate,-,rfl⟩ | ⟨output,env,image,houtput,henv,-,hends⟩
  · rw [hgenerate]
    rfl
  · rw [houtput]
    dsimp only
    rw [henv]
    rcases hends with ⟨-,rfl⟩ | ⟨-,-,rfl⟩ <;> rfl

end Turns

section Runs

variable [Zero ρ] (world : World ι φ μ ρ ε) (processor : Processor ι φ) {maxSeqLen : ℕ}
  {sample : Sample φ μ} {begun : Begun} {maxRolloutTurns : ℕ}

theorem metadata_seed : (seed sample begun).metadata.get? "_screenshot" = none := by
  have hset : ∀ id, Dict.get? ((sample.extraEnvInfo.set "_episode_id" (.str id)).set "_turn" (.int 0))
      "_screenshot" = none := fun id => by
    rw [Dict.get?_set_of_ne _ _ (by decide),Dict.get?_set_of_ne _ _ (by decide),sample.bare]
  match begun with
  | .fails exc none => exact sample.bare
  | .fails exc (some id) => exact hset id
  | .starts id screenshot text => exact hset id

theorem inStep_start (first : Message φ) : InStep world processor sample.messageLog first
    { (start sample : State ι φ μ ρ) with extraEnvInfo := (seed sample begun).metadata } := by
  refine ⟨.prompt,?_,?_,?_,metadata_seed⟩
  · have hnone : sample.messageLog.filter (·.multimodal.isSome) = [] :=
      List.filter_eq_nil_iff.mpr fun m hm => by simp [sample.textOnly m hm]
    show List.Forall₂ _ (sample.messageLog.filter _) []
    rw [hnone]
    exact .nil
  · show 0 = tokensOf _ (sample.messageLog.drop _)
    rw [List.drop_length]
    rfl
  · show 0 = tokensOf _ (sample.messageLog.drop _)
    rw [List.drop_length]
    rfl

theorem inStep_seeded (image : Option ι) : InStep world processor sample.messageLog
    (seedMessage processor sample begun image) (seeded processor sample begun image : State ι φ μ ρ) :=
  (inStep_start world processor _).append .seed

/-- In step with the first observation of the sample. -/
def Sound (sample : Sample φ μ) (begun : Begun) (s : State ι φ μ ρ) : Prop :=
  ∃ image, InStep world processor sample.messageLog (seedMessage processor sample begun image) s

variable [Add ρ] {world processor}

/-- Every request is in step and short enough, and so is what is returned, whose log may be longer only
for the turn that ended the episode or for a generated message that alone is too long. -/
theorem sound_of_run (hroom : ∀ image, seedImage world sample begun = .ok image →
    flatLength sample.messageLog + (seedMessage processor sample begun image).tokenIds.length <
      maxSeqLen) :
    (∀ s ∈ requests world processor maxSeqLen sample begun maxRolloutTurns,
      Sound world processor sample begun s ∧ flatLength s.messageLog < maxSeqLen) ∧
    ∀ final, runCuaSample world processor maxSeqLen sample begun maxRolloutTurns = .ok final →
      Sound world processor sample begun final ∧
      final.totalReward = ((requests world processor maxSeqLen sample begun maxRolloutTurns).filterMap
        (turnReward world processor)).foldl (· + ·) 0 ∧
      (flatLength final.messageLog < maxSeqLen ∨ final.terminated = true ∨
        ∃ front ids, final.messageLog = front ++ [assistantMessage processor ids] ∧
          flatLength front < maxSeqLen) := by
  rw [requests,runCuaSample]
  by_cases hfailed : failedToStart sample begun = true
  · rw [if_pos hfailed,if_pos hfailed]
    refine ⟨fun s hs => absurd hs List.not_mem_nil,fun final hfinal => ?_⟩
    rw [← Except.ok.inj hfinal]
    exact ⟨⟨none,(inStep_start world processor _).flags _ _ _ _ _⟩,rfl,.inr (.inl rfl)⟩
  rw [if_neg hfailed,if_neg hfailed]
  cases himage : seedImage world sample begun with
  | error e => exact ⟨fun s hs => absurd hs List.not_mem_nil,fun final hfinal => by cases hfinal⟩
  | ok image =>
    dsimp only
    let Inv (s : State ι φ μ ρ) : Prop :=
      InStep world processor sample.messageLog (seedMessage processor sample begun image) s ∧
        (s.terminated = true ∨ flatLength s.messageLog < maxSeqLen)
    have hseeded : Inv (seeded processor sample begun image) := by
      refine ⟨inStep_seeded world processor image,.inr ?_⟩
      show flatLength (sample.messageLog ++ [_]) < _
      rw [flatLength_append]
      simpa [flatLength] using hroom image himage
    have hbody : ∀ s s', done s = false → Inv s → turn world processor maxSeqLen s = .ok (s',false) →
        Inv s' := fun s s' _ hs hturn => ⟨hs.1.turn hturn,flatLength_turn hturn⟩
    have hshort : ∀ s, done s = false → Inv s → flatLength s.messageLog < maxSeqLen := by
      intro s hdone hs
      refine hs.2.resolve_left fun hterminated => ?_
      rw [done,hterminated] at hdone
      cases hdone
    refine ⟨fun s hs => ?_,fun final hfinal => ?_⟩
    · obtain ⟨hdone,hinv⟩ := forall_entered hbody maxRolloutTurns hseeded s hs
      exact ⟨⟨image,hinv.1⟩,hshort s hdone hinv⟩
    · obtain ⟨s,hloop,rfl⟩ := map_eq_ok.mp hfinal
      have hreward := loop_gains (fun s s' breaks hturn => totalReward_turn hturn) hloop
      have hsound : InStep world processor sample.messageLog (seedMessage processor sample begun image)
          s ∧ (flatLength s.messageLog < maxSeqLen ∨ s.terminated = true ∨
            ∃ front ids, s.messageLog = front ++ [assistantMessage processor ids] ∧
              flatLength front < maxSeqLen) := by
        rcases loop_ends hbody hseeded hloop with hinv | ⟨t,hdone,hinv,hturn⟩
        · exact ⟨hinv.1,hinv.2.elim (fun h => .inr (.inl h)) .inl⟩
        · refine ⟨hinv.1.turn hturn,?_⟩
          have hlog := hshort t hdone hinv
          rcases turn_cases hturn with ⟨e,-,-,rfl⟩ | ⟨output,env,_,-,-,-,⟨-,rfl⟩ | ⟨hbreaks,-⟩⟩
          · exact .inl hlog
          · exact .inr (.inr ⟨t.messageLog,_,rfl,hlog⟩)
          · cases hbreaks
      obtain ⟨hinstep,hends⟩ := hsound
      exact ⟨⟨image,hinstep.flags _ _ _ _ _⟩,hreward,hends⟩

end Runs

def coarse : Processor Unit Unit :=
  ⟨fun content => match content with
    | .text text => text
    | .image _ _ => "image",
  fun formatted _ => if formatted.length < 9 then [0] else [0,0,0,0],[],fun _ _ _ => none,fun _ => 0,
  fun _ => ""⟩

def graded : World Unit Unit Unit ℕ Unit :=
  ⟨fun _ _ _ _ => .ok ⟨[0,0,7],3,none,none⟩,
    fun _ _ _ => .ok ⟨1,true,some "[task solved: reward=1.000]",none,none⟩,fun _ => .ok ()⟩

def onePrompt : Sample Unit Unit :=
  ⟨[⟨"user","go",[0],none⟩],.empty,none,by simp,rfl⟩

theorem sound_of_run_graded :
    (∀ s ∈ requests graded coarse 4 onePrompt (.starts "a" none "look") 5,
      Sound graded coarse onePrompt (.starts "a" none "look") s ∧ flatLength s.messageLog < 4) ∧
    ∀ final, runCuaSample graded coarse 4 onePrompt (.starts "a" none "look") 5 = .ok final →
      Sound graded coarse onePrompt (.starts "a" none "look") final ∧
      final.totalReward = ((requests graded coarse 4 onePrompt (.starts "a" none "look") 5).filterMap
        (turnReward graded coarse)).foldl (· + ·) 0 ∧
      (flatLength final.messageLog < 4 ∨ final.terminated = true ∨
        ∃ front ids, final.messageLog = front ++ [assistantMessage coarse ids] ∧ flatLength front < 4) :=
  sound_of_run fun image himage => by
    obtain rfl := Except.ok.inj himage
    decide

/-- The last turn is recorded beyond the maximum. -/
theorem graded_overflows :
    (∀ image, seedImage graded onePrompt (.starts "a" none "look") = .ok image →
      flatLength onePrompt.messageLog +
        (seedMessage coarse onePrompt (.starts "a" none "look") image).tokenIds.length < 4) ∧
    ¬∀ final, runCuaSample graded coarse 4 onePrompt (.starts "a" none "look") 5 = .ok final →
      flatLength final.messageLog < 4 := by
  refine ⟨fun image himage => ?_,fun h => ?_⟩
  · obtain rfl := Except.ok.inj himage
    decide
  · exact absurd (h _ rfl) (by decide)

end ScreenshotRollout
end Cua
end DockyardRL
