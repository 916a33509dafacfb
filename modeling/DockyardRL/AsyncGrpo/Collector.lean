import DockyardRL.AsyncGrpo.ReplayBuffer

/-! The asynchronous trajectory collector. `start_collection` is a coroutine: a
`Pc` names the await it is suspended at, and each function below runs it from one
await to the next without interruption, as the actor's event loop does.
Rollout payloads are left out: a row carries the prompt it was sampled from. -/
namespace DockyardRL
namespace AsyncGrpo

/-- The settings read in `__init__`. `repeat_interleave` refuses a repeat count
below one, and a training step needs at least one prompt. -/
structure CollectorConfig where
  numGenerationsPerPrompt : ℕ
  numPromptsPerStep : ℕ
  maxTrajectoryAgeSteps : ℕ
  maxGenerationFailures : ℤ
  hasDistillationTeachers : Bool
  startStep : ℕ
  generations_pos : 0 < numGenerationsPerPrompt
  prompts_pos : 0 < numPromptsPerStep

/-- An exception caught around a rollout stage. -/
structure Exn where
  typeName : String
  message : String
  deriving DecidableEq

/-- Failure accounting, as `check_health` reports it. -/
structure Health where
  consecutiveFailures : ℕ
  totalFailures : ℕ
  failuresByStage : List (String × ℕ)
  failuresByType : List (String × ℕ)
  lastError : Option String
  deriving DecidableEq

namespace Health

def initial : Health := ⟨0,0,[],[],none⟩

/-- `counts[key] = counts.get(key, 0) + 1`. -/
def bump (key : String) : List (String × ℕ) → List (String × ℕ)
  | [] => [(key,1)]
  | (k,n) :: rest => if k = key then (k,n + 1) :: rest else (k,n) :: bump key rest

def recordFailure (h : Health) (stage : String) (exn : Exn) : Health where
  consecutiveFailures := h.consecutiveFailures + 1
  totalFailures := h.totalFailures + 1
  failuresByStage := bump stage h.failuresByStage
  failuresByType := bump exn.typeName h.failuresByType
  lastError := some s!"{stage}: {exn.typeName}: {exn.message}"

def recordSuccess (h : Health) : Health := { h with consecutiveFailures := 0 }

def isHealthy (h : Health) (maxGenerationFailures : ℤ) : Bool :=
  if maxGenerationFailures ≤ 0 then true
  else decide ((h.consecutiveFailures : ℤ) < maxGenerationFailures)

end Health

variable {π : Type*}

/-- A generated batch on its way into the buffer, at the loop index `group`. -/
structure Flight (π : Type*) where
  repeatedBatch : List π
  genVersion : ℤ
  group : ℕ
  deriving DecidableEq

/-- The awaits of `start_collection`. The generation lock is held at
`generating` and `generationBackoff`. -/
inductive Pc (π : Type*)
  | holdOff
  | pulling
  | generating (batch : List π) (genVersion : ℤ)
  | generationBackoff
  | scoring (f : Flight π)
  | scoringBackoff
  | adding (f : Flight π) (target : ℤ)
  | added (f : Flight π) (target : ℤ) (status : AddStatus)
  | retrying (f : Flight π) (target : ℤ)
  | halted
  deriving DecidableEq

/-- The attributes of `AsyncTrajectoryCollectorImpl` the loop uses. `pulls` is the
live position of the dataloader, which is what its `state_dict` records. -/
structure Collector (π : Type*) where
  weightVersion : ℤ
  nextTarget : ℤ
  groupsForTarget : ℕ
  paused : Bool
  refitRequested : Bool
  stopped : Bool
  health : Health
  enqueuedDataloaderState : Option ℕ
  pulls : ℕ
  pc : Pc π
  deriving DecidableEq

namespace Collector

variable (cfg : CollectorConfig)

/-- `__init__` followed by the call of `start_collection`. -/
def initial : Collector π where
  weightVersion := cfg.startStep
  nextTarget := cfg.startStep
  groupsForTarget := 0
  paused := false
  refitRequested := false
  stopped := false
  health := .initial
  enqueuedDataloaderState := none
  pulls := 0
  pc := .holdOff

/-- `self._next_target > self._weight_version + self._max_trajectory_age_steps`. -/
def tooFarAhead (c : Collector π) : Bool :=
  decide (c.nextTarget > c.weightVersion + cfg.maxTrajectoryAgeSteps)

/-- The head of the `while not self._stopped` loop. -/
def loopTop (c : Collector π) : Collector π :=
  if c.stopped then { c with pc := .halted }
  else if c.paused || c.refitRequested || c.tooFarAhead cfg then { c with pc := .holdOff }
  else { c with pc := .pulling }

/-- `_next_batch` returned; `none` is the end of an epoch, after which the loader
is iterated anew. A batch pulled while paused or during a refit is discarded. -/
def pulled (c : Collector π) (item : Option (List π)) : Collector π :=
  let c := { c with pulls := c.pulls + 1 }
  match item with
  | none => loopTop cfg c
  | some batch =>
    if c.stopped || c.paused || c.refitRequested then loopTop cfg c
    else { c with pc := .generating batch c.weightVersion }

/-- `repeat_interleave`: each prompt's samples are contiguous. -/
def repeatInterleave (n : ℕ) (batch : List π) : List π := batch.flatMap (List.replicate n)

def numGroups (f : Flight π) : ℕ := f.repeatedBatch.length / cfg.numGenerationsPerPrompt

/-- `repeated_batch.select(list(range(g * n, (g + 1) * n)))`. -/
def groupBatch (f : Flight π) : List π :=
  (f.repeatedBatch.drop (f.group * cfg.numGenerationsPerPrompt)).take cfg.numGenerationsPerPrompt

/-- `_enqueue_groups` returned: the streak is broken and the cursor advances. -/
def finishBatch (c : Collector π) : Collector π :=
  loopTop cfg { c with
    health := c.health.recordSuccess
    enqueuedDataloaderState := some c.pulls }

/-- One turn of the `for g in range(num_groups)` loop, up to the buffer call. -/
def enqueueGroup (c : Collector π) (f : Flight π) : Collector π :=
  if f.group < numGroups cfg f then { c with pc := .adding f c.nextTarget }
  else finishBatch cfg c

def failed (c : Collector π) (stage : String) (exn : Exn) (backoff : Pc π) : Collector π :=
  let c := { c with health := c.health.recordFailure stage exn }
  if c.health.isHealthy cfg.maxGenerationFailures then { c with pc := backoff }
  else { c with stopped := true, pc := .halted }

def generated (c : Collector π) (batch : List π) (genVersion : ℤ) : Option Exn → Collector π
  | some exn => failed cfg c "generation" exn .generationBackoff
  | none =>
    let f : Flight π := ⟨repeatInterleave cfg.numGenerationsPerPrompt batch,genVersion,0⟩
    if cfg.hasDistillationTeachers then { c with pc := .scoring f } else enqueueGroup cfg c f

def scored (c : Collector π) (f : Flight π) : Option Exn → Collector π
  | some exn => failed cfg c "teacher_scoring" exn .scoringBackoff
  | none => enqueueGroup cfg c f

def countGroup (c : Collector π) : Collector π :=
  if c.groupsForTarget + 1 ≥ cfg.numPromptsPerStep then
    { c with nextTarget := c.nextTarget + 1, groupsForTarget := 0 }
  else { c with groupsForTarget := c.groupsForTarget + 1 }

/-- The check after a counted group that ends the batch early. -/
def breaks (c : Collector π) : Bool := c.refitRequested || c.tooFarAhead cfg

def addReplied (c : Collector π) (f : Flight π) (target : ℤ) (status : AddStatus) : Collector π :=
  if status = .full ∧ c.stopped = false then { c with pc := .retrying f target }
  else
    let c := countGroup cfg c
    if breaks cfg c then finishBatch cfg c else enqueueGroup cfg c { f with group := f.group + 1 }

/-- Whether `_gen_lock` is held by the coroutine. -/
def lockHeld (c : Collector π) : Bool :=
  match c.pc with
  | .generating _ _ => true
  | .generationBackoff => true
  | _ => false

end Collector

/-- The control calls a caller sends to the actor. -/
inductive Control
  | setWeightVersion (weightVersion : ℤ)
  | prepareForRefit
  | resumeAfterRefit
  | pause
  | resume
  | stop
  deriving DecidableEq

/-- The part of a control call that runs when the event loop takes it. -/
def Collector.control (c : Collector π) : Control → Collector π
  | .setWeightVersion v => { c with weightVersion := v }
  | .prepareForRefit => { c with refitRequested := true }
  | .resumeAfterRefit => { c with refitRequested := false }
  | .pause => { c with paused := true }
  | .resume => { c with paused := false }
  | .stop => { c with stopped := true }

namespace Collector

variable (cfg : CollectorConfig)

/-- The loop head only moves the program counter, and pulls only within the age bound. -/
theorem loopTop_spec (c : Collector π) : ∃ p, loopTop cfg c = { c with pc := p } ∧
    ((p = .halted ∧ c.stopped = true) ∨ p = .holdOff ∨
      (p = .pulling ∧ c.nextTarget ≤ c.weightVersion + cfg.maxTrajectoryAgeSteps)) := by
  unfold loopTop
  split_ifs with hs hp
  · exact ⟨_,rfl,.inl ⟨rfl,hs⟩⟩
  · exact ⟨_,rfl,.inr (.inl rfl)⟩
  · refine ⟨_,rfl,.inr (.inr ⟨rfl,?_⟩)⟩
    simp only [tooFarAhead,Bool.or_eq_true,decide_eq_true_eq,not_or] at hp
    omega

/-- Finishing a batch records the live cursor and returns to the loop head. -/
theorem finishBatch_spec (c : Collector π) : ∃ p, finishBatch cfg c =
      { c with health := c.health.recordSuccess, enqueuedDataloaderState := some c.pulls, pc := p } ∧
    ((p = .halted ∧ c.stopped = true) ∨ p = .holdOff ∨
      (p = .pulling ∧ c.nextTarget ≤ c.weightVersion + cfg.maxTrajectoryAgeSteps)) :=
  loopTop_spec cfg _

theorem enqueueGroup_spec (c : Collector π) (f : Flight π) :
    (f.group < numGroups cfg f ∧ enqueueGroup cfg c f = { c with pc := .adding f c.nextTarget }) ∨
    (numGroups cfg f ≤ f.group ∧ enqueueGroup cfg c f = finishBatch cfg c) := by
  unfold enqueueGroup
  split_ifs with h
  · exact .inl ⟨h,rfl⟩
  · exact .inr ⟨by omega,rfl⟩

/-- A failure leaves the counters of the protocol alone. -/
theorem failed_spec (c : Collector π) (stage : String) (exn : Exn) (backoff : Pc π) :
    ∃ s p, failed cfg c stage exn backoff =
      { c with health := c.health.recordFailure stage exn, stopped := s, pc := p } ∧
      ((s = c.stopped ∧ p = backoff) ∨ (s = true ∧ p = .halted)) := by
  unfold failed
  dsimp only
  split_ifs
  · exact ⟨_,_,rfl,.inl ⟨rfl,rfl⟩⟩
  · exact ⟨_,_,rfl,.inr ⟨rfl,rfl⟩⟩

/-- Counting a group either fills the target and opens the next one, or adds one. -/
theorem countGroup_spec (c : Collector π) :
    (c.groupsForTarget + 1 ≥ cfg.numPromptsPerStep ∧
      countGroup cfg c = { c with nextTarget := c.nextTarget + 1, groupsForTarget := 0 }) ∨
    (c.groupsForTarget + 1 < cfg.numPromptsPerStep ∧
      countGroup cfg c = { c with groupsForTarget := c.groupsForTarget + 1 }) := by
  unfold countGroup
  split_ifs with h
  · exact .inl ⟨h,rfl⟩
  · exact .inr ⟨by omega,rfl⟩

theorem tooFarAhead_eq_false {c : Collector π} :
    c.tooFarAhead cfg = false ↔ c.nextTarget ≤ c.weightVersion + cfg.maxTrajectoryAgeSteps := by
  simp [tooFarAhead]

/-- What a reply of the buffer leads to. -/
theorem addReplied_spec (c : Collector π) (f : Flight π) (target : ℤ) (status : AddStatus) :
    (status = .full ∧ c.stopped = false ∧
      addReplied cfg c f target status = { c with pc := .retrying f target }) ∨
    ((status = .success ∨ c.stopped = true) ∧ breaks cfg (countGroup cfg c) = true ∧
      addReplied cfg c f target status = finishBatch cfg (countGroup cfg c)) ∨
    ((status = .success ∨ c.stopped = true) ∧ breaks cfg (countGroup cfg c) = false ∧
      addReplied cfg c f target status =
        enqueueGroup cfg (countGroup cfg c) { f with group := f.group + 1 }) := by
  unfold addReplied
  dsimp only
  split_ifs with hfull hbreak
  · exact .inl ⟨hfull.1,hfull.2,rfl⟩
  · refine .inr (.inl ⟨?_,hbreak,rfl⟩)
    cases status <;> simp_all
  · refine .inr (.inr ⟨?_,by simpa using hbreak,rfl⟩)
    cases status <;> simp_all

end Collector
end AsyncGrpo
end DockyardRL
