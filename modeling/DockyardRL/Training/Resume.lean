import Mathlib.Data.Nat.Find
import DockyardRL.Training.Progress

/-! A supervised driver that is interrupted and started again performs the steps of a run that is
never interrupted, and leaves the same checkpoints. -/
namespace DockyardRL
namespace Training

variable {Batch P K : Type} [Zero K] [Add K] {driver : SupervisedDriver} {cfg : SupervisedConfig}
  {trainer : Trainer Batch P K}

theorem invariant_stopped {w : TrainWorld Batch P K} (hstatus : w.status = .stopped) {t : ℕ}
    (hperformed : w.performed.take t = stepsUpTo trainer t) (hdone : Done driver cfg trainer t)
    (hkept : Kept driver cfg trainer w.checkpoints t) : TrainInvariant driver cfg trainer w := by
  rw [TrainInvariant,hstatus]
  exact ⟨t,hperformed,hdone,hkept⟩

omit [Zero K] [Add K] in
theorem take_append_stepsUpTo {performed extra : List (PerformedStep Batch)} {t : ℕ}
    (h : performed = stepsUpTo trainer t) : (performed ++ extra).take t = stepsUpTo trainer t := by
  rw [h,List.take_append_of_le_length (Nat.le_of_eq (length_stepsUpTo t).symm),
    List.take_of_length_le (Nat.le_of_eq (length_stepsUpTo t))]

theorem Done.succ {t : ℕ} (h : Done driver cfg trainer t) (hpending : Pending trainer driver cfg t)
    (hnot : ¬RaisesAt trainer driver cfg t) : Done driver cfg trainer (t + 1) := by
  intro s hs
  rcases Nat.lt_succ_iff_lt_or_eq.mp hs with hlt | rfl
  · exact h s hlt
  · exact ⟨hpending,hnot⟩

omit [Zero K] [Add K] in
theorem placed_iter {m : Memory P K} {t : ℕ} (h : Placed driver cfg trainer m t)
    (hin : m.inEpoch = false) (hmax : (m.currentEpoch : ℤ) < cfg.maxNumEpochs)
    (hunder : underMaxSteps driver cfg t = true) :
    Placed driver cfg trainer { m with loader := m.loader.iter, inEpoch := true } t := by
  cases h with
  | inEpoch hnot => simp [hin] at hnot
  | restored _ his hepoch hle ht hstep =>
    have hiter : m.loader.iter = { m.loader with restored := false } := if_pos his
    rw [hiter]
    exact .inEpoch rfl rfl hepoch hle ht hstep hmax fun _ => hunder
  | nextEpoch _ hnot hepoch hstep ht =>
    have hiter : m.loader.iter = ⟨m.loader.epoch + 1,0,false⟩ := if_neg (by simp [hnot])
    rw [hiter]
    exact .inEpoch rfl rfl hepoch (Nat.zero_le _) ht (fun _ => hstep) hmax fun _ => hunder

omit [Zero K] [Add K] in
theorem placed_nextEpoch {m : Memory P K} {t : ℕ} (h : Placed driver cfg trainer m t)
    (hin : m.inEpoch = true) (hnext : m.loader.next trainer.batches = none) :
    m.loader.position = trainer.batches.length ∧ Placed driver cfg trainer
      { m with currentEpoch := m.currentEpoch + 1, currentStep := 0, inEpoch := false } t := by
  cases h with
  | restored hnot => simp [hin] at hnot
  | nextEpoch hnot => simp [hin] at hnot
  | inEpoch _ hnot hepoch hle ht hstep hmax hunder =>
    have hge := List.getElem?_eq_none_iff.mp hnext
    rw [trainer.batches.length_order] at hge
    refine ⟨Nat.le_antisymm hle hge,.nextEpoch rfl hnot (by rw [hepoch]) rfl ?_⟩
    rw [ht,Nat.succ_mul]
    omega

theorem not_pending_of_test {m : Memory P K} {t : ℕ} (h : After driver cfg trainer m t)
    (hin : m.inEpoch = false) (htest : ¬((m.currentEpoch : ℤ) < cfg.maxNumEpochs ∧
      underMaxSteps driver cfg m.totalSteps = true)) : ¬Pending trainer driver cfg t := by
  rintro ⟨hmax,hunder⟩
  refine htest ⟨?_,h.totalSteps ▸ hunder⟩
  have hle : m.currentEpoch ≤ t / trainer.batches.length := by
    rw [Nat.le_div_iff_mul_le trainer.batches.length_pos]
    cases h.placed with
    | inEpoch hnot => simp [hin] at hnot
    | restored _ _ _ _ ht => exact ht ▸ Nat.le_add_right _ _
    | nextEpoch _ _ _ _ ht => exact ht.ge
  omega

theorem invariant_advance (timeout lost : Bool) {w : TrainWorld Batch P K} {m : Memory P K}
    (hstatus : w.status = .running m) (h : TrainInvariant driver cfg trainer w) :
    TrainInvariant driver cfg trainer (advanceRun driver cfg trainer timeout lost w m) := by
  rw [TrainInvariant,hstatus] at h
  obtain ⟨t,hafter,hperformed,hdone,hkept⟩ := h
  unfold advanceRun
  cases hin : m.inEpoch with
  | false =>
    rw [if_neg (by decide)]
    split_ifs with htest
    · have hunder : underMaxSteps driver cfg t = true := hafter.totalSteps ▸ htest.2
      exact ⟨t,⟨hafter.totalSteps,hafter.policy,hafter.totalValidTokens,hafter.consumedSamples,
        placed_iter hafter.placed hin htest.1 hunder⟩,hperformed,hdone,hkept⟩
    · exact ⟨t,not_pending_of_test hafter hin htest,hperformed,hdone,hkept⟩
  | true =>
    rw [if_pos rfl]
    cases hnext : m.loader.next trainer.batches with
    | none =>
      exact ⟨t,⟨hafter.totalSteps,hafter.policy,hafter.totalValidTokens,hafter.consumedSamples,
        (placed_nextEpoch hafter.placed hin hnext).2⟩,hperformed,hdone,hkept⟩
    | some batch =>
      obtain ⟨hbatch,hepoch,hstep,-,hpending⟩ := next_eq_batchAt hafter.placed hin hnext
      rcases trainBody_cases timeout hafter hin hnext with
        ⟨hnone,-⟩ | ⟨m',saved,hsome,hnot,htotal,hafter',hdue,hsaved⟩
      · dsimp only
        rw [hnone]
        exact invariant_stopped rfl (take_append_stepsUpTo hperformed) hdone hkept
      · have hall : w.performed ++ [⟨m.currentEpoch,m.currentStep,batch⟩] =
            stepsUpTo trainer (t + 1) := by
          rw [stepsUpTo_succ hbatch,hperformed,hepoch,hstep]
        have hdone' := hdone.succ hpending hnot
        have hkept' := hkept.succ hdue (hsaved.imp_right And.left)
        dsimp only
        rw [hsome]
        dsimp only
        rw [hall,htotal]
        split_ifs with hstop hmax
        · refine invariant_stopped rfl ?_ hdone' hkept'
          exact List.take_of_length_le (Nat.le_of_eq (length_stepsUpTo _))
        · exact ⟨t + 1,fun h => (maxReached_iff (t + 1)).mp hmax h.2,rfl,hdone',hkept'⟩
        · refine ⟨t + 1,hafter' ?_,rfl,hdone',hkept'⟩
          exact not_not.mp fun h => hmax ((maxReached_iff (t + 1)).mpr h)

theorem after_start {s : ℕ} (hpos : 1 ≤ s) : After driver cfg trainer
    (start trainer.policy (some (checkpointAt trainer cfg s))) s := by
  refine ⟨rfl,rfl,rfl,rfl,.restored rfl rfl rfl ?_ ?_ ?_⟩
  · exact Nat.mod_lt _ trainer.batches.length_pos
  · have hplace := Nat.div_add_mod (s - 1) trainer.batches.length
    rw [Nat.mul_comm] at hplace
    dsimp only [start,checkpointAt,Loader.restore]
    omega
  · dsimp only [start,checkpointAt,Loader.restore]
    intro hlt
    have hs : s = s - 1 + 1 := by omega
    conv_lhs => rw [hs,← Nat.mod_add_mod]
    exact Nat.mod_eq_of_lt hlt

theorem invariant_first : TrainInvariant driver cfg trainer (firstWorld trainer) := by
  refine ⟨0,⟨rfl,rfl,rfl,(Nat.zero_mul _).symm,?_⟩,rfl,fun s hs => absurd hs (Nat.not_lt_zero s),
    kept_nil⟩
  exact .restored rfl rfl rfl (Nat.zero_le _) (by simp [start,Loader.fresh]) fun _ => rfl

theorem invariant_restart {w : TrainWorld Batch P K} (hstatus : w.status = .stopped)
    (h : TrainInvariant driver cfg trainer w) :
    TrainInvariant driver cfg trainer (eventStep driver cfg trainer w .restart) := by
  rw [TrainInvariant,hstatus] at h
  obtain ⟨t,hperformed,hdone,hkept⟩ := h
  rw [eventStep,hstatus]
  dsimp only
  rcases hkept.latest with ⟨hnone,hkept⟩ | ⟨s,hpos,hle,hlatest,hkept⟩
  · rw [hnone]
    refine ⟨0,⟨rfl,rfl,rfl,(Nat.zero_mul _).symm,?_⟩,rfl,fun s hs => absurd hs (Nat.not_lt_zero s),
      hkept⟩
    exact .restored rfl rfl rfl (Nat.zero_le _) (by simp [start,Loader.fresh]) fun _ => rfl
  · rw [hlatest]
    refine ⟨s,after_start hpos,?_,fun r hr => hdone r (Nat.lt_of_lt_of_le hr hle),hkept⟩
    have htake := congrArg (List.take s) hperformed
    rw [List.take_take,Nat.min_eq_left hle,take_stepsUpTo hle] at htake
    exact htake

theorem eventStep_ended {w : TrainWorld Batch P K} (hstatus : w.status = .ended) (e : TrainEvent) :
    eventStep driver cfg trainer w e = w := by
  cases e <;> simp [eventStep,hstatus]

theorem invariant_eventStep (e : TrainEvent) {w : TrainWorld Batch P K}
    (h : TrainInvariant driver cfg trainer w) :
    TrainInvariant driver cfg trainer (eventStep driver cfg trainer w e) := by
  cases hstatus : w.status with
  | ended =>
    rw [eventStep_ended hstatus]
    exact h
  | stopped =>
    cases e with
    | restart => exact invariant_restart hstatus h
    | _ =>
      simp only [eventStep,hstatus]
      exact h
  | running m =>
    have hrunning := h
    rw [TrainInvariant,hstatus] at hrunning
    obtain ⟨t,-,hperformed,hdone,hkept⟩ := hrunning
    cases e with
    | advance timeout lost =>
      simp only [eventStep,hstatus]
      exact invariant_advance timeout lost hstatus h
    | crash =>
      simp only [eventStep,hstatus]
      refine invariant_stopped (t := t) rfl ?_ hdone hkept
      rw [hperformed]
      exact List.take_of_length_le (Nat.le_of_eq (length_stepsUpTo t))
    | crashUnsaved =>
      simp only [eventStep,hstatus]
      exact invariant_stopped rfl (take_append_stepsUpTo hperformed) hdone hkept
    | restart =>
      simp only [eventStep,hstatus]
      exact h

theorem invariant_foldl (events : List TrainEvent) {w : TrainWorld Batch P K}
    (h : TrainInvariant driver cfg trainer w) :
    TrainInvariant driver cfg trainer (events.foldl (eventStep driver cfg trainer) w) := by
  induction events generalizing w with
  | nil => exact h
  | cons e events ih => exact ih (invariant_eventStep e h)

theorem due_advance {w : TrainWorld Batch P K} {m : Memory P K} (hstatus : w.status = .running m)
    (h : TrainInvariant driver cfg trainer w)
    (hdue : ∀ c ∈ w.checkpoints, dueAt trainer driver cfg c.totalSteps = true) :
    ∀ c ∈ (advanceRun driver cfg trainer false false w m).checkpoints,
      dueAt trainer driver cfg c.totalSteps = true := by
  rw [TrainInvariant,hstatus] at h
  obtain ⟨t,hafter,-⟩ := h
  unfold advanceRun
  cases hin : m.inEpoch with
  | false =>
    rw [if_neg (by decide)]
    split_ifs <;> exact hdue
  | true =>
    rw [if_pos rfl]
    cases hnext : m.loader.next trainer.batches with
    | none => exact hdue
    | some batch =>
      dsimp only
      rcases trainBody_cases false hafter hin hnext with
        ⟨hnone,-⟩ | ⟨m',saved,hsome,-,-,-,-,hsaved⟩
      · rw [hnone]
        exact hdue
      · rw [hsome]
        intro c hc
        rcases List.mem_append.mp hc with hc | hc
        · exact hdue c hc
        · rcases hsaved with rfl | ⟨rfl,hat⟩
          · cases hc
          · obtain rfl := List.mem_singleton.mp hc
            exact hat.resolve_left Bool.false_ne_true

theorem due_goOn (n : ℕ) {w : TrainWorld Batch P K} (h : TrainInvariant driver cfg trainer w)
    (hdue : ∀ c ∈ w.checkpoints, dueAt trainer driver cfg c.totalSteps = true) :
    ∀ c ∈ (goOn driver cfg trainer n w).checkpoints,
      dueAt trainer driver cfg c.totalSteps = true := by
  induction n generalizing w with
  | zero => exact hdue
  | succ n ih =>
    refine ih (invariant_eventStep (.advance false false) h) ?_
    cases hstatus : w.status with
    | running m =>
      simp only [eventStep,hstatus]
      exact due_advance hstatus h hdue
    | stopped => simpa only [eventStep,hstatus] using hdue
    | ended => simpa only [eventStep,hstatus] using hdue

/-- How many tests a driver is away from its next step. -/
def testsLeft (trainer : Trainer Batch P K) (m : Memory P K) : ℕ :=
  if m.inEpoch then (if m.loader.position = trainer.batches.length then 3 else 1)
  else if m.loader.restored then 4 else 2

theorem advance_nearer {N : ℕ} (hend : ¬Pending trainer driver cfg N)
    (hdoneN : Done driver cfg trainer N) {w : TrainWorld Batch P K} {m : Memory P K}
    (hstatus : w.status = .running m) (h : TrainInvariant driver cfg trainer w) :
    (advanceRun driver cfg trainer false false w m).status = .ended ∨
    ∃ m', (advanceRun driver cfg trainer false false w m).status = .running m' ∧
      5 * (N - m'.totalSteps) + testsLeft trainer m' <
        5 * (N - m.totalSteps) + testsLeft trainer m := by
  rw [TrainInvariant,hstatus] at h
  obtain ⟨t,hafter,-,hdone,-⟩ := h
  have hle : t ≤ N := Nat.le_of_not_lt fun hlt => hend (hdone N hlt).1
  unfold advanceRun
  cases hin : m.inEpoch with
  | false =>
    rw [if_neg (by decide)]
    split_ifs with htest
    · refine .inr ⟨_,rfl,Nat.add_lt_add_left ?_ _⟩
      cases hafter.placed with
      | inEpoch hnot => simp [hin] at hnot
      | restored _ his =>
        have hthree : testsLeft trainer { m with loader := m.loader.iter, inEpoch := true } ≤ 3 := by
          rw [testsLeft,if_pos rfl]
          split_ifs <;> omega
        rw [show testsLeft trainer m = 4 by simp [testsLeft,hin,his]]
        omega
      | nextEpoch _ hnot =>
        have hpos := trainer.batches.length_pos
        have hiter : m.loader.iter = ⟨m.loader.epoch + 1,0,false⟩ := if_neg (by simp [hnot])
        simp [testsLeft,hin,hnot,hiter,hpos.ne]
    · exact .inl rfl
  | true =>
    rw [if_pos rfl]
    cases hnext : m.loader.next trainer.batches with
    | none =>
      obtain ⟨hposition,-⟩ := placed_nextEpoch hafter.placed hin hnext
      refine .inr ⟨_,rfl,Nat.add_lt_add_left ?_ _⟩
      cases hafter.placed with
      | inEpoch _ hnot => simp [testsLeft,hin,hposition,hnot]
      | restored hnot => simp [hin] at hnot
      | nextEpoch hnot => simp [hin] at hnot
    | some batch =>
      obtain ⟨-,-,-,hloader,hpending⟩ := next_eq_batchAt hafter.placed hin hnext
      have hlt : t < N := Nat.lt_of_le_of_ne hle fun heq => hend (heq ▸ hpending)
      dsimp only
      rcases trainBody_cases false hafter hin hnext with
        ⟨-,hraises⟩ | ⟨m',saved,hsome,-,htotal,-,-,-⟩
      · exact absurd hraises (hdoneN t hlt).2
      · rw [hsome]
        dsimp only
        by_cases hmax : maxReached driver cfg m'.totalSteps = true
        · left
          simp [hmax]
        · right
          refine ⟨m',by simp [hmax],?_⟩
          have hfour : testsLeft trainer m' ≤ 4 := by
            unfold testsLeft
            split_ifs <;> omega
          have hone : 1 ≤ testsLeft trainer m := by
            unfold testsLeft
            split_ifs <;> omega
          rw [htotal,hafter.totalSteps]
          omega

theorem goOn_ends {N : ℕ} (hend : ¬Pending trainer driver cfg N)
    (hdoneN : Done driver cfg trainer N) {w : TrainWorld Batch P K} {m : Memory P K}
    (hstatus : w.status = .running m) (h : TrainInvariant driver cfg trainer w) :
    ∃ n, (goOn driver cfg trainer n w).status = .ended := by
  induction hk : 5 * (N - m.totalSteps) + testsLeft trainer m using Nat.strong_induction_on
    generalizing w m with
  | _ k ih =>
    subst hk
    have hstep : eventStep driver cfg trainer w (.advance false false) =
        advanceRun driver cfg trainer false false w m := by
      simp only [eventStep,hstatus]
    rcases advance_nearer hend hdoneN hstatus h with hended | ⟨m',hrunning,hlt⟩
    · exact ⟨1,by rw [← hended,← hstep]; rfl⟩
    · obtain ⟨n,hn⟩ := ih _ hlt hrunning (invariant_advance false false hstatus h) rfl
      refine ⟨n + 1,?_⟩
      rw [← hn,← hstep]
      rfl

theorem end_unique {s t : ℕ} (hs : ¬Pending trainer driver cfg s) (hdoneS : Done driver cfg trainer s)
    (ht : ¬Pending trainer driver cfg t) (hdoneT : Done driver cfg trainer t) : s = t := by
  rcases Nat.lt_trichotomy s t with hlt | heq | hgt
  · exact absurd (hdoneT s hlt).1 hs
  · exact heq
  · exact absurd (hdoneS t hgt).1 ht

/-- The same steps were performed, and the same checkpoints written; what was written beside them, at
a timeout, is what belongs to its number of steps. -/
structure SameRun (driver : SupervisedDriver) (cfg : SupervisedConfig) (trainer : Trainer Batch P K)
    (w u : TrainWorld Batch P K) : Prop where
  performed : w.performed = u.performed
  due : w.checkpoints.filter (fun c => dueAt trainer driver cfg c.totalSteps) = u.checkpoints
  own : ∀ c ∈ w.checkpoints, c = checkpointAt trainer cfg c.totalSteps

theorem sameRun_of_ended {w u : TrainWorld Batch P K} (hw : TrainInvariant driver cfg trainer w)
    (hu : TrainInvariant driver cfg trainer u) (hended : w.status = .ended)
    (hendedU : u.status = .ended)
    (hdue : ∀ c ∈ u.checkpoints, dueAt trainer driver cfg c.totalSteps = true) :
    SameRun driver cfg trainer w u := by
  rw [TrainInvariant,hended] at hw
  rw [TrainInvariant,hendedU] at hu
  obtain ⟨t,hend,hperformed,hdone,hkept⟩ := hw
  obtain ⟨s,hendU,hperformedU,hdoneU,hkeptU⟩ := hu
  obtain rfl := end_unique hend hdone hendU hdoneU
  refine ⟨hperformed.trans hperformedU.symm,?_,hkept.own⟩
  rw [hkept.due,← hkeptU.due]
  exact List.filter_eq_self.mpr hdue

theorem uninterrupted_ends (hperiod : cfg.savePeriod ≠ 0)
    (htoks : ∀ policy batch, (trainer.train policy batch).2.isSome = true) :
    ∃ n, (uninterrupted driver cfg trainer n).status = .ended := by
  have hexists : ∃ t, ¬Pending trainer driver cfg t := by
    refine ⟨cfg.maxNumEpochs.toNat * trainer.batches.length,fun h => ?_⟩
    have hmax := h.1
    rw [Nat.mul_div_cancel _ trainer.batches.length_pos] at hmax
    omega
  obtain ⟨N,hend,hbefore⟩ : ∃ N, ¬Pending trainer driver cfg N ∧
      ∀ s < N, Pending trainer driver cfg s := by
    classical
    exact ⟨Nat.find hexists,Nat.find_spec hexists,fun s hs => not_not.mp (Nat.find_min hexists hs)⟩
  have hraises : ∀ s, ¬RaisesAt trainer driver cfg s := by
    intro s h
    obtain ⟨batch,hbatch⟩ := exists_batchAt trainer s
    rcases h batch hbatch with hnone | hnone
    · have hsome := htoks (trainedUpTo trainer s).1 batch
      cases driver with
      | sftTrain => cases hnone
      | dpoTrain =>
        rw [readValidToks] at hnone
        simp [hnone] at hsome
      | rmTrain =>
        rw [readValidToks] at hnone
        simp [hnone] at hsome
    · unfold shouldSaveByStep at hnone
      split_ifs at hnone
  exact goOn_ends hend (fun s hs => ⟨hbefore s hs,hraises s⟩) rfl invariant_first

/-- However often a driver is interrupted and started again: where a run that is never interrupted
comes to its end, it can be brought to its end too, and at its end it is the same run. -/
theorem resume_exact (driver : SupervisedDriver) (cfg : SupervisedConfig)
    (trainer : Trainer Batch P K) :
    (cfg.savePeriod ≠ 0 → (∀ policy batch, (trainer.train policy batch).2.isSome = true) →
      ∃ n, (uninterrupted driver cfg trainer n).status = .ended) ∧
    ∀ n, (uninterrupted driver cfg trainer n).status = .ended → ∀ events : List TrainEvent,
      ((worldAfter driver cfg trainer events).status = .ended →
        SameRun driver cfg trainer (worldAfter driver cfg trainer events)
          (uninterrupted driver cfg trainer n)) ∧
      ∃ k, (goOn driver cfg trainer k
          (worldAfter driver cfg trainer (events ++ [.restart]))).status = .ended ∧
        SameRun driver cfg trainer
          (goOn driver cfg trainer k (worldAfter driver cfg trainer (events ++ [.restart])))
          (uninterrupted driver cfg trainer n) := by
  refine ⟨uninterrupted_ends,fun n hended events => ?_⟩
  have hinvariant : ∀ events, TrainInvariant driver cfg trainer
      (worldAfter driver cfg trainer events) := fun events => invariant_foldl events invariant_first
  have huninterrupted : TrainInvariant driver cfg trainer (uninterrupted driver cfg trainer n) :=
    invariant_foldl _ invariant_first
  have hdue : ∀ c ∈ (uninterrupted driver cfg trainer n).checkpoints,
      dueAt trainer driver cfg c.totalSteps = true :=
    due_goOn n invariant_first fun c hc => absurd hc List.not_mem_nil
  refine ⟨fun h => sameRun_of_ended (hinvariant events) huninterrupted h hended hdue,?_⟩
  have hrestarted := hinvariant (events ++ [.restart])
  have hgoOn : ∃ k, (goOn driver cfg trainer k
      (worldAfter driver cfg trainer (events ++ [.restart]))).status = .ended := by
    cases hstatus : (worldAfter driver cfg trainer (events ++ [.restart])).status with
    | ended => exact ⟨0,hstatus⟩
    | stopped =>
      rw [worldAfter,List.foldl_append,List.foldl_cons,List.foldl_nil,← worldAfter] at hstatus
      cases hbefore : (worldAfter driver cfg trainer events).status <;>
        simp [eventStep,hbefore] at hstatus
    | running m =>
      rw [TrainInvariant,hended] at huninterrupted
      obtain ⟨N,hend,-,hdone,-⟩ := huninterrupted
      exact goOn_ends hend hdone hstatus hrestarted
  obtain ⟨k,hk⟩ := hgoOn
  exact ⟨k,hk,sameRun_of_ended (invariant_foldl _ hrestarted) huninterrupted hk hended hdue⟩

def twoEpochs : Trainer ℕ (List ℕ) ℕ :=
  ⟨⟨fun e => [2 * e,2 * e + 1],2,fun _ => rfl,Nat.two_pos⟩,[],fun policy batch =>
    (policy ++ [batch],some (batch + 1))⟩

/-- The driver is lost after three steps, and stopped by the timeout in the repeated third one. -/
theorem resume_twoEpochs : ∃ k, (goOn .dpoTrain ⟨2,9,2,true,8⟩ twoEpochs k (worldAfter .dpoTrain
    ⟨2,9,2,true,8⟩ twoEpochs (List.replicate 6 (.advance false false) ++ [.crash,.restart] ++
      [.advance false false,.advance false false,.advance false false,.advance false false,
        .advance true false] ++ [.restart]))).performed = [⟨0,0,0⟩,⟨0,1,1⟩,⟨1,0,2⟩,⟨1,1,3⟩] := by
  obtain ⟨k,-,hsame⟩ := ((resume_exact .dpoTrain ⟨2,9,2,true,8⟩ twoEpochs).2 9 rfl
    (List.replicate 6 (.advance false false) ++ [.crash,.restart] ++
      [.advance false false,.advance false false,.advance false false,.advance false false,
        .advance true false])).2
  exact ⟨k,hsame.performed.trans rfl⟩

end Training
end DockyardRL
