import DockyardRL.Lib.Transition
import DockyardRL.AsyncGrpo.Collector

/-! The collector, the replay buffer and the trainer as one system. Calls to the
buffer take effect between the collector sending them and seeing the reply;
calls to the collector wait in its inbox in the order the trainer sent them.
Only `prepare_for_refit` is awaited by the trainer. -/
namespace DockyardRL
namespace AsyncGrpo

open Transition

variable {π : Type*}

/-- Where `async_grpo_train` is: about to sample, training, awaiting
`prepare_for_refit`, synchronising weights, or ended by an exception. -/
inductive TrainerPc
  | sampling | training | quiescing | syncing | crashed
  deriving DecidableEq

structure Trainer where
  weightVersion : ℤ
  pc : TrainerPc
  deriving DecidableEq

abbrev Trajectory (π : Type*) := List π

/-- A group the buffer accepted: which prompt of which pulled batch it came from. -/
structure Appended (π : Type*) where
  batch : ℕ
  group : ℕ
  entry : Entry (Trajectory π)
  deriving DecidableEq

/-- Ghost record of a run: accepted groups in order, and the prompts
(batch and index) whose batch the loop gave up before they were accepted. -/
structure History (π : Type*) where
  appended : List (Appended π)
  abandoned : List (ℕ × ℕ)
  deriving DecidableEq

structure World (π : Type*) where
  collector : Collector π
  buffer : ReplayBuffer (Trajectory π)
  trainer : Trainer
  inbox : List Control
  refitWaiting : Bool
  history : History π
  deriving DecidableEq

/-- What can happen next. An exception ends a rollout or scoring when given. -/
inductive Event
  | wake
  | pullDone
  | rolloutDone (exn : Option Exn)
  | scoringDone (exn : Option Exn)
  | bufferAdd
  | addReply
  | deliver
  | quiesced
  | trainerSample
  | trainerPrepare
  | trainerSync
  | callPause
  | callResume
  | callStop
  deriving DecidableEq

/-- The dataloader: what each `next` gives, `none` at the end of an epoch. -/
abbrev Dataloader (π : Type*) := ℕ → Option (List π)

namespace World

variable (cfg : CollectorConfig) (dataloader : Dataloader π)

/-- A run starting at `start_step` over a buffer already created or restored. -/
def start (buffer : ReplayBuffer (Trajectory π)) : World π where
  collector := .initial cfg
  buffer := buffer
  trainer := ⟨cfg.startStep,.sampling⟩
  inbox := [.setWeightVersion cfg.startStep]
  refitWaiting := false
  history := ⟨[],[]⟩

def currentBatch (w : World π) : ℕ := w.collector.pulls - 1

/-- The prompts a step gives up: a batch pulled into a pause or a refit, a batch
whose rollout or scoring raised, a group counted although the stopped collector
was refused, and what is left of a batch when the loop breaks. -/
def abandons (w : World π) (e : Event) : List (ℕ × ℕ) :=
  match e, w.collector.pc with
  | .pullDone, .pulling =>
    match dataloader w.collector.pulls with
    | some batch =>
      if w.collector.stopped || w.collector.paused || w.collector.refitRequested then
        Intake.items w.collector.pulls 0 batch.length
      else []
    | none => []
  | .rolloutDone (some _), .generating batch _ => Intake.items w.currentBatch 0 batch.length
  | .scoringDone (some _), .scoring f =>
    Intake.items w.currentBatch f.group (Collector.numGroups cfg f)
  | .addReply, .added f _ status =>
    if status = .full ∧ w.collector.stopped = false then []
    else
      (if status = .full then [(w.currentBatch,f.group)] else []) ++
      (if Collector.breaks cfg (Collector.countGroup cfg w.collector) then
        Intake.items w.currentBatch (f.group + 1) (Collector.numGroups cfg f)
      else [])
  | _, _ => []

/-- The collector's own step, from one await to the next. -/
def collectorStep (w : World π) (e : Event) : Option (Collector π) :=
  match e, w.collector.pc with
  | .wake, .holdOff => some (w.collector.loopTop cfg)
  | .wake, .generationBackoff => some (w.collector.loopTop cfg)
  | .wake, .scoringBackoff => some (w.collector.loopTop cfg)
  | .wake, .retrying f target => some { w.collector with pc := .adding f target }
  | .pullDone, .pulling => some (w.collector.pulled cfg (dataloader w.collector.pulls))
  | .rolloutDone exn, .generating batch v => some (w.collector.generated cfg batch v exn)
  | .scoringDone exn, .scoring f => some (w.collector.scored cfg f exn)
  | .addReply, .added f target status => some (w.collector.addReplied cfg f target status)
  | _, _ => none

/-- The buffer executes the pending `add`. -/
def bufferStep (w : World π) : Option (World π) :=
  match w.collector.pc with
  | .adding f target =>
    let rows := Collector.groupBatch cfg f
    let answer := w.buffer.add rows f.genVersion target
    some { w with
      collector := { w.collector with pc := .added f target answer.1 }
      buffer := answer.2
      history := { w.history with
        appended := if answer.1 = .success then
            w.history.appended ++ [⟨w.currentBatch,f.group,⟨rows,f.genVersion,target⟩⟩]
          else w.history.appended } }
  | _ => none

def deliver (w : World π) : Option (World π) :=
  match w.inbox with
  | [] => none
  | call :: rest =>
    some { w with
      collector := w.collector.control call
      inbox := rest
      refitWaiting := w.refitWaiting || decide (call = .prepareForRefit) }

/-- The trainer samples the groups of its step; an exception ends the training loop. -/
def trainerSample (w : World π) : Option (World π) :=
  match w.trainer.pc with
  | .sampling =>
    let answer := w.buffer.sample cfg.numPromptsPerStep w.trainer.weightVersion
      cfg.maxTrajectoryAgeSteps
    some { w with
      buffer := answer.2
      trainer := { w.trainer with pc :=
        match answer.1 with
        | .error _ => .crashed
        | .ok none => .sampling
        | .ok (some _) => .training } }
  | _ => none

def call (w : World π) (c : Control) : Option (World π) :=
  if w.trainer.pc = .quiescing then none else some { w with inbox := w.inbox ++ [c] }

def step (w : World π) (e : Event) : Option (World π) :=
  match e with
  | .bufferAdd => bufferStep cfg w
  | .deliver => deliver w
  | .quiesced =>
    if w.refitWaiting ∧ w.trainer.pc = .quiescing ∧ w.collector.lockHeld = false then
      some { w with refitWaiting := false, trainer := { w.trainer with pc := .syncing } }
    else none
  | .trainerSample => trainerSample cfg w
  | .trainerPrepare =>
    if w.trainer.pc = .training then
      some { w with
        inbox := w.inbox ++ [.prepareForRefit]
        trainer := { w.trainer with pc := .quiescing } }
    else none
  | .trainerSync =>
    if w.trainer.pc = .syncing then
      some { w with
        inbox := w.inbox ++ [.setWeightVersion (w.trainer.weightVersion + 1),.resumeAfterRefit]
        trainer := ⟨w.trainer.weightVersion + 1,.sampling⟩ }
    else none
  | .callPause => call w .pause
  | .callResume => call w .resume
  | .callStop => call w .stop
  | e =>
    (collectorStep cfg dataloader w e).map fun c =>
      { w with
        collector := c
        history := { w.history with
          abandoned := w.history.abandoned ++ abandons cfg dataloader w e } }

/-- The system started over `buffer`. -/
def machine (buffer : ReplayBuffer (Trajectory π)) : Machine (World π) Event where
  init w := w = start cfg buffer
  step := step cfg dataloader

/-- The runs in which nobody calls `stop`. -/
def noStop : World π → Event → Prop := fun _ e => e ≠ .callStop

def noStopCheck : World π → Event → Bool := fun _ e => decide (e ≠ .callStop)

theorem noStop_of_check (w : World π) (e : Event) (h : noStopCheck w e = true) : noStop w e := by
  have hne : e ≠ .callStop := of_decide_eq_true h
  exact hne

/-- One constructor per branch of `step`. -/
inductive Steps (w : World π) : Event → World π → Prop
  | resume (h : w.collector.pc = .holdOff ∨ w.collector.pc = .generationBackoff ∨
      w.collector.pc = .scoringBackoff) :
      Steps w .wake { w with collector := w.collector.loopTop cfg }
  | retry {f target} (h : w.collector.pc = .retrying f target) :
      Steps w .wake { w with collector := { w.collector with pc := .adding f target } }
  | pullDone (h : w.collector.pc = .pulling) :
      Steps w .pullDone { w with
        collector := w.collector.pulled cfg (dataloader w.collector.pulls)
        history := ⟨w.history.appended,
          w.history.abandoned ++ abandons cfg dataloader w .pullDone⟩ }
  | rolloutDone {batch v} (exn : Option Exn) (h : w.collector.pc = .generating batch v) :
      Steps w (.rolloutDone exn) { w with
        collector := w.collector.generated cfg batch v exn
        history := ⟨w.history.appended,
          w.history.abandoned ++ abandons cfg dataloader w (.rolloutDone exn)⟩ }
  | scoringDone {f} (exn : Option Exn) (h : w.collector.pc = .scoring f) :
      Steps w (.scoringDone exn) { w with
        collector := w.collector.scored cfg f exn
        history := ⟨w.history.appended,
          w.history.abandoned ++ abandons cfg dataloader w (.scoringDone exn)⟩ }
  | addReply {f target status} (h : w.collector.pc = .added f target status) :
      Steps w .addReply { w with
        collector := w.collector.addReplied cfg f target status
        history := ⟨w.history.appended,
          w.history.abandoned ++ abandons cfg dataloader w .addReply⟩ }
  | addRefused {f target} (h : w.collector.pc = .adding f target)
      (hfull : (w.buffer.add (Collector.groupBatch cfg f) f.genVersion target).1 = .full) :
      Steps w .bufferAdd { w with collector := { w.collector with pc := .added f target .full } }
  | addAccepted {f target} (h : w.collector.pc = .adding f target)
      (hsucc : (w.buffer.add (Collector.groupBatch cfg f) f.genVersion target).1 = .success) :
      Steps w .bufferAdd { w with
        collector := { w.collector with pc := .added f target .success }
        buffer := (w.buffer.add (Collector.groupBatch cfg f) f.genVersion target).2
        history := ⟨w.history.appended ++
          [⟨w.currentBatch,f.group,⟨Collector.groupBatch cfg f,f.genVersion,target⟩⟩],
          w.history.abandoned⟩ }
  | deliver {c rest} (h : w.inbox = c :: rest) :
      Steps w .deliver { w with
        collector := w.collector.control c
        inbox := rest
        refitWaiting := w.refitWaiting || decide (c = .prepareForRefit) }
  | quiesced (hwait : w.refitWaiting = true) (h : w.trainer.pc = .quiescing)
      (hlock : w.collector.lockHeld = false) :
      Steps w .quiesced { w with
        refitWaiting := false, trainer := { w.trainer with pc := .syncing } }
  | sampleWaits (h : w.trainer.pc = .sampling)
      (hnone : (w.buffer.sample cfg.numPromptsPerStep w.trainer.weightVersion
        cfg.maxTrajectoryAgeSteps).1 = .ok none) : Steps w .trainerSample w
  | sampleRaises {msg} (h : w.trainer.pc = .sampling)
      (herr : (w.buffer.sample cfg.numPromptsPerStep w.trainer.weightVersion
        cfg.maxTrajectoryAgeSteps).1 = .error msg) :
      Steps w .trainerSample { w with trainer := { w.trainer with pc := .crashed } }
  | sampled {r} (h : w.trainer.pc = .sampling)
      (hok : (w.buffer.sample cfg.numPromptsPerStep w.trainer.weightVersion
        cfg.maxTrajectoryAgeSteps).1 = .ok (some r)) :
      Steps w .trainerSample { w with
        buffer := (w.buffer.sample cfg.numPromptsPerStep w.trainer.weightVersion
          cfg.maxTrajectoryAgeSteps).2
        trainer := { w.trainer with pc := .training } }
  | prepare (h : w.trainer.pc = .training) :
      Steps w .trainerPrepare { w with
        inbox := w.inbox ++ [.prepareForRefit], trainer := { w.trainer with pc := .quiescing } }
  | sync (h : w.trainer.pc = .syncing) :
      Steps w .trainerSync { w with
        inbox := w.inbox ++ [.setWeightVersion (w.trainer.weightVersion + 1),.resumeAfterRefit]
        trainer := ⟨w.trainer.weightVersion + 1,.sampling⟩ }
  | callPause : Steps w .callPause { w with inbox := w.inbox ++ [.pause] }
  | callResume : Steps w .callResume { w with inbox := w.inbox ++ [.resume] }
  | callStop : Steps w .callStop { w with inbox := w.inbox ++ [.stop] }

variable {cfg dataloader}

theorem steps_of_collectorStep {w w' : World π} {e : Event}
    (h : ((collectorStep cfg dataloader w e).map fun c =>
      { w with
        collector := c
        history := { w.history with
          abandoned := w.history.abandoned ++ abandons cfg dataloader w e } }) = some w') :
    Steps cfg dataloader w e w' := by
  obtain ⟨c,hc,rfl⟩ := Option.map_eq_some_iff.mp h
  unfold collectorStep at hc
  split at hc <;> try cases hc
  · rename_i hpc; simpa [abandons] using Steps.resume (.inl hpc)
  · rename_i hpc; simpa [abandons] using Steps.resume (.inr (.inl hpc))
  · rename_i hpc; simpa [abandons] using Steps.resume (.inr (.inr hpc))
  · rename_i hpc; simpa [abandons] using Steps.retry hpc
  · rename_i hpc; exact .pullDone hpc
  · rename_i hpc; exact .rolloutDone _ hpc
  · rename_i hpc; exact .scoringDone _ hpc
  · rename_i hpc; exact .addReply hpc

theorem steps_of_bufferStep {w w' : World π} (h : bufferStep cfg w = some w') :
    Steps cfg dataloader w .bufferAdd w' := by
  unfold bufferStep at h
  split at h
  · rename_i f target hpc
    obtain rfl := Option.some.inj h
    cases hs : (w.buffer.add (Collector.groupBatch cfg f) f.genVersion target).1 with
    | success => simpa [hs] using Steps.addAccepted hpc hs
    | full => simpa [hs,ReplayBuffer.add_full hs] using Steps.addRefused hpc hs
  · cases h

theorem steps_of_trainerSample {w w' : World π} (h : trainerSample cfg w = some w') :
    Steps cfg dataloader w .trainerSample w' := by
  unfold trainerSample at h
  split at h
  · rename_i hpc
    obtain rfl := Option.some.inj h
    cases hs : (w.buffer.sample cfg.numPromptsPerStep w.trainer.weightVersion
        cfg.maxTrajectoryAgeSteps).1 with
    | error msg =>
      have hb := ReplayBuffer.sample_refused (b := w.buffer) (by rw [hs]; simp)
      simpa [hs,hb] using Steps.sampleRaises hpc hs
    | ok o =>
      cases o with
      | none =>
        have hb := ReplayBuffer.sample_refused (b := w.buffer) (by rw [hs]; simp)
        simpa [hs,hb,← hpc] using Steps.sampleWaits hpc hs
      | some r => simpa [hs] using Steps.sampled hpc hs
  · cases h

/-- Everything a step can do. -/
theorem steps_of_step {w w' : World π} {e : Event} (h : step cfg dataloader w e = some w') :
    Steps cfg dataloader w e w' := by
  cases e with
  | bufferAdd => exact steps_of_bufferStep h
  | trainerSample => exact steps_of_trainerSample h
  | deliver =>
    simp only [step,World.deliver] at h
    split at h
    · cases h
    · rename_i c rest hin
      obtain rfl := Option.some.inj h
      exact .deliver hin
  | quiesced =>
    simp only [step] at h
    split_ifs at h with hq
    obtain rfl := Option.some.inj h
    exact .quiesced hq.1 hq.2.1 hq.2.2
  | trainerPrepare =>
    simp only [step] at h
    split_ifs at h with hp
    obtain rfl := Option.some.inj h
    exact .prepare hp
  | trainerSync =>
    simp only [step] at h
    split_ifs at h with hp
    obtain rfl := Option.some.inj h
    exact .sync hp
  | callPause =>
    simp only [step,call] at h
    split_ifs at h
    obtain rfl := Option.some.inj h
    exact .callPause
  | callResume =>
    simp only [step,call] at h
    split_ifs at h
    obtain rfl := Option.some.inj h
    exact .callResume
  | callStop =>
    simp only [step,call] at h
    split_ifs at h
    obtain rfl := Option.some.inj h
    exact .callStop
  | wake => exact steps_of_collectorStep h
  | pullDone => exact steps_of_collectorStep h
  | rolloutDone exn => exact steps_of_collectorStep h
  | scoringDone exn => exact steps_of_collectorStep h
  | addReply => exact steps_of_collectorStep h

end World
end AsyncGrpo
end DockyardRL
