import Mathlib.Algebra.Group.Defs
import Mathlib.Data.Int.Notation
import Mathlib.Data.List.GetD
import Mathlib.Algebra.Order.Ring.Int
import Mathlib.Data.List.Induction

/-! The supervised drivers: a loop over epochs and batches that saves its counters, the policy and
the position of the loader in the middle of its body, and starts again from what was saved.

What a supervised driver has done after a number of steps, whatever happened to it: the steps are
those of the epochs one after the other, and a checkpoint holds what belongs to its number. -/
namespace DockyardRL
namespace Training

/-- The batches of every epoch; all epochs have the same number of them. -/
structure Batches (Batch : Type) where
  order : ℕ → List Batch
  length : ℕ
  length_order : ∀ e, (order e).length = length
  length_pos : 0 < length

/-- `StatefulDataLoader`: how many batches of which epoch were yielded. A loader that is restored
goes on with that epoch, any other one with the next. -/
structure Loader where
  epoch : ℕ
  position : ℕ
  restored : Bool
  deriving DecidableEq

def Loader.fresh : Loader := ⟨0,0,true⟩

/-- `load_state_dict(state_dict())`. -/
def Loader.restore (loader : Loader) : Loader := { loader with restored := true }

/-- `iter(loader)`. -/
def Loader.iter (loader : Loader) : Loader :=
  if loader.restored then { loader with restored := false } else ⟨loader.epoch + 1,0,false⟩

section Drivers

variable {Batch P K : Type}

/-- `next` on the iterator of a loader. -/
def Loader.next (batches : Batches Batch) (loader : Loader) : Option Batch :=
  (batches.order loader.epoch)[loader.position]?

inductive SupervisedDriver
  | sftTrain
  | dpoTrain
  | rmTrain
  deriving DecidableEq

/-- What a driver reads of its configuration. -/
structure SupervisedConfig where
  maxNumEpochs : ℤ
  maxNumSteps : ℤ
  savePeriod : ℤ
  checkpointingEnabled : Bool
  trainGlobalBatchSize : ℕ

def underMaxSteps (driver : SupervisedDriver) (cfg : SupervisedConfig) (totalSteps : ℕ) : Bool :=
  match driver with
  | .sftTrain => totalSteps < cfg.maxNumSteps
  | .dpoTrain => totalSteps < cfg.maxNumSteps
  | .rmTrain => cfg.maxNumSteps = -1 ∨ totalSteps < cfg.maxNumSteps

def isLastStep (driver : SupervisedDriver) (cfg : SupervisedConfig)
    (length epoch step totalSteps : ℕ) : Bool :=
  match driver with
  | .sftTrain => (totalSteps : ℤ) + 1 ≥ cfg.maxNumSteps ∨
      ((epoch : ℤ) + 1 = cfg.maxNumEpochs ∧ step + 1 = length)
  | .dpoTrain => (totalSteps : ℤ) + 1 ≥ cfg.maxNumSteps ∨
      ((epoch : ℤ) + 1 = cfg.maxNumEpochs ∧ step + 1 = length)
  | .rmTrain => (cfg.maxNumSteps ≠ -1 ∧ (totalSteps : ℤ) + 1 ≥ cfg.maxNumSteps) ∨
      ((epoch : ℤ) + 1 = cfg.maxNumEpochs ∧ step + 1 = length)

def maxReached (driver : SupervisedDriver) (cfg : SupervisedConfig) (totalSteps : ℕ) : Bool :=
  match driver with
  | .sftTrain => totalSteps ≥ cfg.maxNumSteps
  | .dpoTrain => totalSteps ≥ cfg.maxNumSteps
  | .rmTrain => cfg.maxNumSteps ≠ -1 ∧ totalSteps ≥ cfg.maxNumSteps

/-- `should_save_by_step`; the remainder is only taken when the step is not the last one. -/
def shouldSaveByStep (cfg : SupervisedConfig) (lastStep : Bool) (totalSteps : ℕ) : Option Bool :=
  if lastStep then some true
  else if cfg.savePeriod = 0 then none
  else some (((totalSteps : ℤ) + 1) % cfg.savePeriod = 0)

/-- `metrics["global_valid_toks"]`; only one driver has a default for it. -/
def readValidToks [Zero K] (driver : SupervisedDriver) (globalValidToks : Option K) : Option K :=
  match driver with
  | .sftTrain => some (globalValidToks.getD 0)
  | .dpoTrain => globalValidToks
  | .rmTrain => globalValidToks

/-- The variables of a driver, its policy and its loader. -/
structure Memory (P K : Type) where
  policy : P
  currentEpoch : ℕ
  currentStep : ℕ
  totalSteps : ℕ
  totalValidTokens : K
  consumedSamples : ℕ
  loader : Loader
  /-- In the loop over the batches. -/
  inEpoch : Bool

/-- The save state with the policy and the loader that are saved beside it. -/
structure TrainCheckpoint (P K : Type) where
  step : ℕ
  epoch : ℕ
  totalSteps : ℕ
  consumedSamples : ℕ
  totalValidTokens : K
  policy : P
  loader : Loader

/-- An optimizer step: its epoch, its step in the epoch and its batch. -/
structure PerformedStep (Batch : Type) where
  epoch : ℕ
  step : ℕ
  batch : Batch
  deriving DecidableEq

def start [Zero K] (policy : P) : Option (TrainCheckpoint P K) → Memory P K
  | none => ⟨policy,0,0,0,0,0,Loader.fresh,false⟩
  | some c => ⟨c.policy,c.epoch,c.step,c.totalSteps,c.totalValidTokens,c.consumedSamples,
      c.loader.restore,false⟩

/-- What a driver trains with: the batches, the first policy and the step of the optimizer, which
also says how many tokens counted. -/
structure Trainer (Batch P K : Type) where
  batches : Batches Batch
  policy : P
  train : P → Batch → P × Option K

/-- The body of the loop over the batches, up to the stops behind it: what is left in memory, and
the checkpoint that was finalised. It may raise. -/
def trainBody [Zero K] [Add K] (driver : SupervisedDriver) (cfg : SupervisedConfig)
    (trainer : Trainer Batch P K) (timeout : Bool) (m : Memory P K) (batch : Batch) :
    Option (Memory P K × Option (TrainCheckpoint P K)) := do
  let (policy,globalValidToks) := trainer.train m.policy batch
  let loader := { m.loader with position := m.loader.position + 1 }
  let lastStep := isLastStep driver cfg trainer.batches.length m.currentEpoch m.currentStep
    m.totalSteps
  let toks ← readValidToks driver globalValidToks
  let totalValidTokens := m.totalValidTokens + toks
  let consumedSamples := m.consumedSamples + cfg.trainGlobalBatchSize
  let saveByStep ← shouldSaveByStep cfg lastStep m.totalSteps
  let saved := if cfg.checkpointingEnabled ∧ (saveByStep ∨ timeout) then
      some (⟨(m.currentStep + 1) % trainer.batches.length,m.currentEpoch,m.totalSteps + 1,
        consumedSamples,totalValidTokens,policy,loader⟩ : TrainCheckpoint P K)
    else none
  return (⟨policy,m.currentEpoch,m.currentStep + 1,m.totalSteps + 1,totalValidTokens,
    consumedSamples,loader,true⟩,saved)

inductive RunStatus (P K : Type)
  | running (m : Memory P K)
  | stopped
  | ended

/-- The process, the finalised checkpoints and the steps that were performed, without those that
were rolled back. -/
structure TrainWorld (Batch P K : Type) where
  status : RunStatus P K
  checkpoints : List (TrainCheckpoint P K)
  performed : List (PerformedStep Batch)

/-- `get_latest_checkpoint_path`: the one with the greatest number of steps. -/
def latestCheckpoint (checkpoints : List (TrainCheckpoint P K)) : Option (TrainCheckpoint P K) :=
  checkpoints.foldl (fun latest c => match latest with
    | none => some c
    | some l => if l.totalSteps < c.totalSteps then some c else some l) none

/-- What can happen: the driver goes on, where its step may meet the timeout, and the process may be
lost right behind it; the process is lost, or lost in a step that was performed but not saved; it
is started again. -/
inductive TrainEvent
  | advance (timeout lost : Bool)
  | crash
  | crashUnsaved
  | restart

section World

variable [Zero K] [Add K] (driver : SupervisedDriver) (cfg : SupervisedConfig)
  (trainer : Trainer Batch P K)

/-- The driver goes on by one test of the loop over the epochs, one end of an epoch or one step. -/
def advanceRun (timeout lost : Bool) (w : TrainWorld Batch P K) (m : Memory P K) :
    TrainWorld Batch P K :=
  if m.inEpoch then
    match m.loader.next trainer.batches with
    | none => { w with status := .running { m with
        currentEpoch := m.currentEpoch + 1, currentStep := 0, inEpoch := false } }
    | some batch =>
      let performed := w.performed ++ [⟨m.currentEpoch,m.currentStep,batch⟩]
      match trainBody driver cfg trainer timeout m batch with
      | none => { w with status := .stopped, performed := performed }
      | some (m',saved) =>
        { status := if timeout ∨ lost then .stopped
            else if maxReached driver cfg m'.totalSteps then .ended else .running m'
          checkpoints := w.checkpoints ++ saved.toList
          performed := performed }
  else if (m.currentEpoch : ℤ) < cfg.maxNumEpochs ∧ underMaxSteps driver cfg m.totalSteps then
    { w with status := .running { m with loader := m.loader.iter, inEpoch := true } }
  else { w with status := .ended }

def eventStep (w : TrainWorld Batch P K) : TrainEvent → TrainWorld Batch P K
  | .advance timeout lost =>
    match w.status with
    | .running m => advanceRun driver cfg trainer timeout lost w m
    | _ => w
  | .crash =>
    match w.status with
    | .running _ => { w with status := .stopped }
    | _ => w
  | .crashUnsaved =>
    match w.status with
    | .running m =>
      let performed := if m.inEpoch then
          (m.loader.next trainer.batches).toList.map fun batch =>
            ⟨m.currentEpoch,m.currentStep,batch⟩
        else []
      { w with status := .stopped, performed := w.performed ++ performed }
    | _ => w
  | .restart =>
    match w.status with
    | .stopped =>
      let latest := latestCheckpoint w.checkpoints
      { w with
        status := .running (start trainer.policy latest)
        performed := w.performed.take ((latest.map TrainCheckpoint.totalSteps).getD 0) }
    | _ => w

def firstWorld : TrainWorld Batch P K := ⟨.running (start trainer.policy none),[],[]⟩

def worldAfter (events : List TrainEvent) : TrainWorld Batch P K :=
  events.foldl (eventStep driver cfg trainer) (firstWorld trainer)

def goOn (n : ℕ) (w : TrainWorld Batch P K) : TrainWorld Batch P K :=
  (List.replicate n (TrainEvent.advance false false)).foldl (eventStep driver cfg trainer) w

def uninterrupted (n : ℕ) : TrainWorld Batch P K := goOn driver cfg trainer n (firstWorld trainer)

end World

end Drivers

variable {Batch P K : Type}

section Ideal

variable (trainer : Trainer Batch P K)

/-- The batch of step `t`. -/
def batchAt (t : ℕ) : Option Batch :=
  (trainer.batches.order (t / trainer.batches.length))[t % trainer.batches.length]?

def stepAt (t : ℕ) : Option (PerformedStep Batch) :=
  (batchAt trainer t).map fun batch =>
    ⟨t / trainer.batches.length,t % trainer.batches.length,batch⟩

/-- The first `t` steps. -/
def stepsUpTo (t : ℕ) : List (PerformedStep Batch) := (List.range t).filterMap (stepAt trainer)

/-- The policy and the valid tokens behind `t` steps. -/
def trainedUpTo [Zero K] [Add K] : ℕ → P × K
  | 0 => (trainer.policy,0)
  | t + 1 =>
    let (policy,toks) := trainedUpTo t
    match batchAt trainer t with
    | none => (policy,toks)
    | some batch =>
      let (policy',globalValidToks) := trainer.train policy batch
      (policy',toks + globalValidToks.getD 0)

variable (driver : SupervisedDriver) (cfg : SupervisedConfig)

/-- The checkpoint of step `t`, which is not the first one. -/
def checkpointAt [Zero K] [Add K] (t : ℕ) : TrainCheckpoint P K where
  step := t % trainer.batches.length
  epoch := (t - 1) / trainer.batches.length
  totalSteps := t
  consumedSamples := t * cfg.trainGlobalBatchSize
  totalValidTokens := (trainedUpTo trainer t).2
  policy := (trainedUpTo trainer t).1
  loader := ⟨(t - 1) / trainer.batches.length,(t - 1) % trainer.batches.length + 1,false⟩

/-- There is a step behind the first `t`. -/
def Pending (t : ℕ) : Prop :=
  ((t / trainer.batches.length : ℕ) : ℤ) < cfg.maxNumEpochs ∧ underMaxSteps driver cfg t = true

/-- Step `t` is saved whenever it is reached. -/
def lastAt (t : ℕ) : Bool :=
  isLastStep driver cfg trainer.batches.length (t / trainer.batches.length)
    (t % trainer.batches.length) t

/-- The checkpoint of step `t` does not wait for a timeout. -/
def dueAt (t : ℕ) : Bool :=
  cfg.checkpointingEnabled ∧ (shouldSaveByStep cfg (lastAt trainer driver cfg (t - 1)) (t - 1)) =
    some true

/-- The step behind the first `t` raises. -/
def RaisesAt [Zero K] [Add K] (t : ℕ) : Prop :=
  ∀ batch, batchAt trainer t = some batch →
    readValidToks driver (trainer.train (trainedUpTo trainer t).1 batch).2 = none ∨
      shouldSaveByStep cfg (lastAt trainer driver cfg t) t = none

theorem exists_batchAt (t : ℕ) : ∃ batch, batchAt trainer t = some batch := by
  have hlt : t % trainer.batches.length <
      (trainer.batches.order (t / trainer.batches.length)).length := by
    rw [trainer.batches.length_order]
    exact Nat.mod_lt t trainer.batches.length_pos
  exact ⟨_,List.getElem?_eq_getElem hlt⟩

variable {trainer}

theorem stepsUpTo_succ {t : ℕ} {batch : Batch} (hbatch : batchAt trainer t = some batch) :
    stepsUpTo trainer (t + 1) = stepsUpTo trainer t ++
      [⟨t / trainer.batches.length,t % trainer.batches.length,batch⟩] := by
  rw [stepsUpTo,List.range_succ,List.filterMap_append,List.filterMap_cons,stepAt,hbatch]
  rfl

theorem trainedUpTo_succ [Zero K] [Add K] {t : ℕ} {batch : Batch}
    (hbatch : batchAt trainer t = some batch) : trainedUpTo trainer (t + 1) =
      ((trainer.train (trainedUpTo trainer t).1 batch).1,(trainedUpTo trainer t).2 +
        (trainer.train (trainedUpTo trainer t).1 batch).2.getD 0) := by
  rw [trainedUpTo,hbatch]

theorem length_stepsUpTo (t : ℕ) : (stepsUpTo trainer t).length = t := by
  induction t with
  | zero => rfl
  | succ t ih =>
    obtain ⟨batch,hbatch⟩ := exists_batchAt trainer t
    rw [stepsUpTo_succ hbatch,List.length_append,ih]
    rfl

theorem take_stepsUpTo {s t : ℕ} (h : s ≤ t) : (stepsUpTo trainer t).take s = stepsUpTo trainer s := by
  obtain ⟨d,rfl⟩ := Nat.exists_eq_add_of_le h
  induction d with
  | zero => exact List.take_of_length_le (Nat.le_of_eq (length_stepsUpTo s))
  | succ d ih =>
    obtain ⟨batch,hbatch⟩ := exists_batchAt trainer (s + d)
    have hle := Nat.le_add_right s d
    rw [← Nat.add_assoc,stepsUpTo_succ hbatch,List.take_append_of_le_length
      (by rwa [length_stepsUpTo]),ih hle]

theorem div_mod_place (trainer : Trainer Batch P K) (e : ℕ) {p : ℕ}
    (hp : p < trainer.batches.length) :
    (e * trainer.batches.length + p) / trainer.batches.length = e ∧
      (e * trainer.batches.length + p) % trainer.batches.length = p := by
  rw [Nat.mul_comm,Nat.mul_add_div trainer.batches.length_pos,Nat.mul_add_mod,Nat.div_eq_of_lt hp,
    Nat.mod_eq_of_lt hp]
  exact ⟨Nat.add_zero e,rfl⟩

end Ideal

section Invariant

variable [Zero K] [Add K] (driver : SupervisedDriver) (cfg : SupervisedConfig)
  (trainer : Trainer Batch P K)

/-- The loader and the counters of a driver that has done `t` steps. In the loop over the batches the
loader was started; in front of it, it was restored or has come to the end of its epoch. -/
inductive Placed (m : Memory P K) (t : ℕ) : Prop
  | inEpoch (hin : m.inEpoch = true) (hnot : m.loader.restored = false)
      (hepoch : m.loader.epoch = m.currentEpoch) (hle : m.loader.position ≤ trainer.batches.length)
      (ht : t = m.currentEpoch * trainer.batches.length + m.loader.position)
      (hstep : m.loader.position < trainer.batches.length → m.currentStep = m.loader.position)
      (hmax : (m.currentEpoch : ℤ) < cfg.maxNumEpochs)
      (hunder : m.loader.position < trainer.batches.length → underMaxSteps driver cfg t = true)
  | restored (hin : m.inEpoch = false) (his : m.loader.restored = true)
      (hepoch : m.loader.epoch = m.currentEpoch) (hle : m.loader.position ≤ trainer.batches.length)
      (ht : t = m.currentEpoch * trainer.batches.length + m.loader.position)
      (hstep : m.loader.position < trainer.batches.length → m.currentStep = m.loader.position)
  | nextEpoch (hin : m.inEpoch = false) (hnot : m.loader.restored = false)
      (hepoch : m.loader.epoch + 1 = m.currentEpoch) (hstep : m.currentStep = 0)
      (ht : t = m.currentEpoch * trainer.batches.length)

/-- A driver that has done `t` steps. -/
structure After (m : Memory P K) (t : ℕ) : Prop where
  totalSteps : m.totalSteps = t
  policy : m.policy = (trainedUpTo trainer t).1
  totalValidTokens : m.totalValidTokens = (trainedUpTo trainer t).2
  consumedSamples : m.consumedSamples = t * cfg.trainGlobalBatchSize
  placed : Placed driver cfg trainer m t

/-- The first `t` steps were to be done and did not raise. -/
def Done (t : ℕ) : Prop :=
  ∀ s < t, Pending trainer driver cfg s ∧ ¬RaisesAt trainer driver cfg s

/-- The checkpoints after `t` steps: those that are due, and perhaps some of timeouts. -/
structure Kept (checkpoints : List (TrainCheckpoint P K)) (t : ℕ) : Prop where
  due : checkpoints.filter (fun c => dueAt trainer driver cfg c.totalSteps) =
    ((List.range' 1 t).filter (dueAt trainer driver cfg)).map (checkpointAt trainer cfg)
  own : ∀ c ∈ checkpoints, c = checkpointAt trainer cfg c.totalSteps
  bounds : ∀ c ∈ checkpoints, 1 ≤ c.totalSteps ∧ c.totalSteps ≤ t
  increasing : checkpoints.Pairwise fun c d => c.totalSteps < d.totalSteps

/-- What holds after every list of events. -/
def TrainInvariant (w : TrainWorld Batch P K) : Prop :=
  match w.status with
  | .running m => ∃ t, After driver cfg trainer m t ∧ w.performed = stepsUpTo trainer t ∧
      Done driver cfg trainer t ∧ Kept driver cfg trainer w.checkpoints t
  | .ended => ∃ t, ¬Pending trainer driver cfg t ∧ w.performed = stepsUpTo trainer t ∧
      Done driver cfg trainer t ∧ Kept driver cfg trainer w.checkpoints t
  | .stopped => ∃ t, w.performed.take t = stepsUpTo trainer t ∧
      Done driver cfg trainer t ∧ Kept driver cfg trainer w.checkpoints t

variable {driver cfg trainer}

omit [Zero K] [Add K] in
theorem maxReached_iff (totalSteps : ℕ) :
    maxReached driver cfg totalSteps = true ↔ ¬underMaxSteps driver cfg totalSteps = true := by
  cases driver <;> simp [maxReached,underMaxSteps]

omit [Add K] in
theorem readValidToks_some {toks : Option K} {value : K}
    (h : readValidToks driver toks = some value) : toks.getD 0 = value := by
  cases driver with
  | sftTrain => exact Option.some.inj h
  | dpoTrain =>
    rw [readValidToks] at h
    rw [h]
    rfl
  | rmTrain =>
    rw [readValidToks] at h
    rw [h]
    rfl

omit [Zero K] [Add K] in
/-- A driver in the loop over the batches is at the batch of its step. -/
theorem next_eq_batchAt {m : Memory P K} {t : ℕ} {batch : Batch}
    (h : Placed driver cfg trainer m t) (hin : m.inEpoch = true)
    (hnext : m.loader.next trainer.batches = some batch) :
    batchAt trainer t = some batch ∧ m.currentEpoch = t / trainer.batches.length ∧
      m.currentStep = t % trainer.batches.length ∧
      m.loader = ⟨t / trainer.batches.length,t % trainer.batches.length,false⟩ ∧
      Pending trainer driver cfg t := by
  cases h with
  | restored hnot => simp [hin] at hnot
  | nextEpoch hnot => simp [hin] at hnot
  | inEpoch _ hnot hepoch _ ht hstep hmax hunder =>
    have hlt : m.loader.position < trainer.batches.length := by
      have hsome := (List.getElem?_eq_some_iff.mp hnext).1
      rwa [trainer.batches.length_order] at hsome
    obtain ⟨hdiv,hmod⟩ := div_mod_place trainer m.currentEpoch hlt
    rw [← ht] at hdiv hmod
    refine ⟨?_,hdiv.symm,(hstep hlt).trans hmod.symm,?_,?_,hunder hlt⟩
    · rw [batchAt,hdiv,hmod,← hepoch]
      exact hnext
    · rw [hdiv,hmod,← hepoch,← hnot]
    · rwa [hdiv]

/-- What the body of the loop does with its batch. -/
theorem trainBody_cases (timeout : Bool) {m : Memory P K} {t : ℕ} {batch : Batch}
    (h : After driver cfg trainer m t) (hin : m.inEpoch = true)
    (hnext : m.loader.next trainer.batches = some batch) :
    (trainBody driver cfg trainer timeout m batch = none ∧ RaisesAt trainer driver cfg t) ∨
    ∃ m' saved, trainBody driver cfg trainer timeout m batch = some (m',saved) ∧
      ¬RaisesAt trainer driver cfg t ∧ m'.totalSteps = t + 1 ∧
      (underMaxSteps driver cfg (t + 1) = true → After driver cfg trainer m' (t + 1)) ∧
      (dueAt trainer driver cfg (t + 1) = true → saved = some (checkpointAt trainer cfg (t + 1))) ∧
      (saved = none ∨ saved = some (checkpointAt trainer cfg (t + 1)) ∧
        (timeout = true ∨ dueAt trainer driver cfg (t + 1) = true)) := by
  obtain ⟨hbatch,hepoch,hstep,hloader,hpending⟩ := next_eq_batchAt h.placed hin hnext
  have hlast : isLastStep driver cfg trainer.batches.length m.currentEpoch m.currentStep t =
      lastAt trainer driver cfg t := by
    rw [lastAt,hepoch,hstep]
  rcases hresult : trainer.train m.policy batch with ⟨policy,toks⟩
  rw [h.policy] at hresult
  have htrained := trainedUpTo_succ hbatch
  rw [hresult] at htrained
  cases htoks : readValidToks driver toks with
  | none =>
    refine .inl ⟨?_,fun b hb => .inl ?_⟩
    · simp [trainBody,h.policy,hresult,htoks]
    · obtain rfl := Option.some.inj (hbatch.symm.trans hb)
      rw [hresult,htoks]
  | some value =>
    cases hsave : shouldSaveByStep cfg (lastAt trainer driver cfg t) t with
    | none =>
      refine .inl ⟨?_,fun b hb => .inr hsave⟩
      simp [trainBody,h.policy,hresult,htoks,hlast,h.totalSteps,hsave]
    | some byStep =>
      have hbody : trainBody driver cfg trainer timeout m batch = some
          (⟨policy,m.currentEpoch,m.currentStep + 1,m.totalSteps + 1,m.totalValidTokens + value,
            m.consumedSamples + cfg.trainGlobalBatchSize,
            { m.loader with position := m.loader.position + 1 },true⟩,
          if cfg.checkpointingEnabled ∧ (byStep ∨ timeout) then
            some (checkpointAt trainer cfg (t + 1)) else none) := by
        have hcheckpoint : checkpointAt trainer cfg (t + 1) =
            ⟨(m.currentStep + 1) % trainer.batches.length,m.currentEpoch,t + 1,
              m.consumedSamples + cfg.trainGlobalBatchSize,m.totalValidTokens + value,policy,
              { m.loader with position := m.loader.position + 1 }⟩ := by
          rw [checkpointAt,htrained,readValidToks_some htoks,hstep,hepoch,hloader,h.consumedSamples,
            h.totalValidTokens,Nat.mod_add_mod,Nat.succ_mul]
          rfl
        rw [hcheckpoint]
        simp [trainBody,h.policy,hresult,htoks,hlast,h.totalSteps,hsave]
      have hdueAt : dueAt trainer driver cfg (t + 1) = true ↔
          cfg.checkpointingEnabled = true ∧ byStep = true := by
        simp [dueAt,hsave]
      refine .inr ⟨_,_,hbody,fun hraises => ?_,by rw [h.totalSteps],fun hunder => ?_,fun hdue => ?_,?_⟩
      · rcases hraises batch hbatch with hnone | hnone
        · rw [hresult,htoks] at hnone
          cases hnone
        · rw [hsave] at hnone
          cases hnone
      · have hplace := Nat.div_add_mod t trainer.batches.length
        have hmod := Nat.mod_lt t trainer.batches.length_pos
        rw [Nat.mul_comm] at hplace
        refine ⟨by rw [h.totalSteps],by rw [htrained],?_,?_,?_⟩
        · rw [htrained,h.totalValidTokens,readValidToks_some htoks]
        · rw [h.consumedSamples,Nat.succ_mul]
        · refine .inEpoch rfl ?_ ?_ ?_ ?_ ?_ ?_ fun _ => hunder
          · rw [hloader]
          · rw [hloader,hepoch]
          · rw [hloader]
            exact hmod
          · rw [hloader,hepoch]
            dsimp only
            omega
          · rw [hloader,hstep]
            exact fun _ => rfl
          · rw [hepoch]
            exact hpending.1
      · obtain ⟨henabled,hby⟩ := hdueAt.mp hdue
        rw [if_pos ⟨henabled,.inl hby⟩]
      · by_cases hsaved : cfg.checkpointingEnabled = true ∧ (byStep = true ∨ timeout = true)
        · rw [if_pos hsaved]
          exact .inr ⟨rfl,hsaved.2.symm.imp_right fun hby => hdueAt.mpr ⟨hsaved.1,hby⟩⟩
        · rw [if_neg hsaved]
          exact .inl rfl

theorem kept_nil : Kept driver cfg trainer [] 0 :=
  ⟨rfl,by simp,by simp,List.Pairwise.nil⟩

/-- A step saves its checkpoint when it is due. -/
theorem Kept.succ {checkpoints : List (TrainCheckpoint P K)} {t : ℕ}
    (h : Kept driver cfg trainer checkpoints t) {saved : Option (TrainCheckpoint P K)}
    (hdue : dueAt trainer driver cfg (t + 1) = true →
      saved = some (checkpointAt trainer cfg (t + 1)))
    (hsaved : saved = none ∨ saved = some (checkpointAt trainer cfg (t + 1))) :
    Kept driver cfg trainer (checkpoints ++ saved.toList) (t + 1) := by
  have hrange : List.range' 1 (t + 1) = List.range' 1 t ++ [t + 1] := by
    rw [List.range'_concat,Nat.one_mul,Nat.add_comm]
  rcases hsaved with rfl | rfl
  · have hnot : dueAt trainer driver cfg (t + 1) = false :=
      Bool.eq_false_iff.mpr fun h => nomatch hdue h
    rw [Option.toList_none,List.append_nil]
    refine ⟨?_,h.own,fun c hc => ?_,h.increasing⟩
    · rw [h.due,hrange,List.filter_append]
      simp [hnot]
    · exact ⟨(h.bounds c hc).1,Nat.le_succ_of_le (h.bounds c hc).2⟩
  · refine ⟨?_,fun c hc => ?_,fun c hc => ?_,?_⟩
    · rw [hrange,List.filter_append,List.filter_append,List.map_append,h.due,Option.toList_some]
      cases hat : dueAt trainer driver cfg (t + 1) <;> simp [checkpointAt,hat]
    · rcases List.mem_append.mp hc with hc | hc
      · exact h.own c hc
      · obtain rfl := List.mem_singleton.mp hc
        rfl
    · rcases List.mem_append.mp hc with hc | hc
      · exact ⟨(h.bounds c hc).1,Nat.le_succ_of_le (h.bounds c hc).2⟩
      · obtain rfl := List.mem_singleton.mp hc
        exact ⟨Nat.succ_pos t,Nat.le_refl _⟩
    · refine List.pairwise_append.mpr ⟨h.increasing,List.pairwise_singleton _ _,fun c hc d hd => ?_⟩
      obtain rfl := List.mem_singleton.mp hd
      exact Nat.lt_succ_of_le (h.bounds c hc).2

omit [Zero K] [Add K] in
theorem latestCheckpoint_eq {checkpoints : List (TrainCheckpoint P K)}
    (h : checkpoints.Pairwise fun c d => c.totalSteps < d.totalSteps) :
    latestCheckpoint checkpoints = checkpoints.getLast? := by
  induction checkpoints using List.reverseRecOn with
  | nil => rfl
  | append_singleton checkpoints c ih =>
    obtain ⟨hpairs,-,hlast⟩ := List.pairwise_append.mp h
    rw [latestCheckpoint,List.foldl_append,← latestCheckpoint,ih hpairs,List.getLast?_concat,
      List.foldl_cons,List.foldl_nil]
    cases hget : checkpoints.getLast? with
    | none => rfl
    | some l =>
      have hlt := hlast l (List.mem_of_getLast? hget) c (List.mem_singleton_self c)
      simp [hlt]

/-- Behind the latest checkpoint none was due. -/
theorem Kept.latest {checkpoints : List (TrainCheckpoint P K)} {t : ℕ}
    (h : Kept driver cfg trainer checkpoints t) :
    (latestCheckpoint checkpoints = none ∧ Kept driver cfg trainer checkpoints 0) ∨
    ∃ s, 1 ≤ s ∧ s ≤ t ∧ latestCheckpoint checkpoints = some (checkpointAt trainer cfg s) ∧
      Kept driver cfg trainer checkpoints s := by
  rw [latestCheckpoint_eq h.increasing]
  cases hget : checkpoints.getLast? with
  | none =>
    rw [List.getLast?_eq_none_iff] at hget
    subst hget
    exact .inl ⟨rfl,kept_nil⟩
  | some c =>
    have hmem := List.mem_of_getLast? hget
    obtain ⟨hpos,hle⟩ := h.bounds c hmem
    have hmax : ∀ d ∈ checkpoints, d.totalSteps ≤ c.totalSteps := by
      obtain ⟨before,hbefore⟩ := List.getLast?_eq_some_iff.mp hget
      intro d hd
      rw [hbefore] at hd
      rcases List.mem_append.mp hd with hd | hd
      · have hpairs := h.increasing
        rw [hbefore] at hpairs
        exact Nat.le_of_lt
          ((List.pairwise_append.mp hpairs).2.2 d hd c (List.mem_singleton_self c))
      · rw [List.mem_singleton.mp hd]
    refine .inr ⟨c.totalSteps,hpos,hle,congrArg some (h.own c hmem),?_,h.own,fun d hd =>
      ⟨(h.bounds d hd).1,hmax d hd⟩,h.increasing⟩
    have hsplit : List.range' 1 t =
        List.range' 1 c.totalSteps ++ List.range' (1 + c.totalSteps) (t - c.totalSteps) := by
      rw [List.range'_append_1,Nat.add_sub_cancel' hle]
    have hnone : (List.range' (1 + c.totalSteps) (t - c.totalSteps)).filter
        (dueAt trainer driver cfg) = [] := by
      refine List.filter_eq_nil_iff.mpr fun x hx hdue => ?_
      have hx := List.mem_range'_1.mp hx
      have hin : checkpointAt trainer cfg x ∈ checkpoints := by
        have hdueMem : checkpointAt trainer cfg x ∈
            ((List.range' 1 t).filter (dueAt trainer driver cfg)).map (checkpointAt trainer cfg) :=
          List.mem_map_of_mem (List.mem_filter.mpr ⟨List.mem_range'_1.mpr (by omega),hdue⟩)
        rw [← h.due] at hdueMem
        exact (List.mem_filter.mp hdueMem).1
      have hxle : x ≤ c.totalSteps := hmax _ hin
      omega
    rw [h.due,hsplit,List.filter_append,hnone,List.append_nil]

end Invariant

end Training
end DockyardRL
