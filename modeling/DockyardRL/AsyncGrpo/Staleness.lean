import DockyardRL.AsyncGrpo.Accounting

/-! Stale groups. The age bound is checked against the live weight version, not
the version the batch was generated with, so a batch whose weights are replaced
while it is enqueued can outrun its own age. A restored buffer is invisible to
the counters of the new collector, so its groups are generated again. -/
namespace DockyardRL
namespace AsyncGrpo

open Transition Slots

variable {π : Type*}

namespace Collector

variable (cfg : CollectorConfig)

theorem finishBatch_version (c : Collector π) : (finishBatch cfg c).pc.version = none := by
  obtain ⟨p,hp,⟨rfl,-⟩ | rfl | ⟨rfl,-⟩⟩ := finishBatch_spec cfg c
  · rw [hp]; rfl
  · rw [hp]; rfl
  · rw [hp]; rfl

theorem addReplied_version {c : Collector π} {f : Flight π} {target : ℤ} {status : AddStatus}
    (hdone : status = .success ∨ c.stopped = true)
    (h : (addReplied cfg c f target status).pc.version ≠ none) :
    breaks cfg (countGroup cfg c) = false ∧ f.group + 1 < numGroups cfg f ∧
      (addReplied cfg c f target status).pc =
        .adding { f with group := f.group + 1 } (countGroup cfg c).nextTarget := by
  rcases addReplied_spec cfg c f target status with ⟨hf,hs,-⟩ | ⟨-,-,hr⟩ | ⟨-,hb,hr⟩
  · rcases hdone with hd | hd
    · rw [hf] at hd; cases hd
    · rw [hs] at hd; cases hd
  · rw [hr,finishBatch_version] at h
    exact absurd rfl h
  · rcases enqueueGroup_spec cfg (countGroup cfg c) { f with group := f.group + 1 } with
      ⟨hlt,he⟩ | ⟨-,he⟩
    · exact ⟨hb,hlt,by rw [hr,he]⟩
    · rw [hr,he,finishBatch_version] at h
      exact absurd rfl h

end Collector

namespace World

variable (cfg : CollectorConfig)

/-- The reply after which the loop goes on to a group whose target is more than
the age bound ahead of the version its batch was generated with. -/
def outruns (w : World π) (e : Event) : Bool :=
  match e, w.collector.pc with
  | .addReply, .added f _ status =>
    decide (status = .success ∨ w.collector.stopped = true) &&
      !Collector.breaks cfg (Collector.countGroup cfg w.collector) &&
      decide (f.group + 1 < Collector.numGroups cfg f) &&
      decide (f.genVersion + cfg.maxTrajectoryAgeSteps <
        (Collector.countGroup cfg w.collector).nextTarget)
  | _, _ => false

/-- Such a reply leaves a group in hand that is too old for its target. -/
theorem outruns_ages {cfg : CollectorConfig} {dataloader : Dataloader π} {w w' : World π}
    (ho : outruns cfg w .addReply = true) (hs : Steps cfg dataloader w .addReply w') :
    ∃ f target, w'.collector.pc = .adding f target ∧
      cfg.maxTrajectoryAgeSteps < target - f.genVersion := by
  cases hs with
  | @addReply f target status hp =>
    simp only [outruns,hp,Bool.and_eq_true,Bool.not_eq_true',decide_eq_true_eq] at ho
    obtain ⟨⟨⟨hdone,hb⟩,hlt⟩,hfar⟩ := ho
    rcases Collector.addReplied_spec cfg w.collector f target status with
      ⟨hf,hs,-⟩ | ⟨-,hbreak,-⟩ | ⟨-,-,hr⟩
    · rcases hdone with hd | hd
      · rw [hf] at hd; cases hd
      · rw [hs] at hd; cases hd
    · rw [hb] at hbreak; cases hbreak
    · rcases Collector.enqueueGroup_spec cfg (Collector.countGroup cfg w.collector)
        { f with group := f.group + 1 } with ⟨-,he⟩ | ⟨hge,-⟩
      · have hage : (cfg.maxTrajectoryAgeSteps : ℤ) <
            (Collector.countGroup cfg w.collector).nextTarget - f.genVersion := by omega
        exact ⟨{ f with group := f.group + 1 },_,by simp only [hr,he],hage⟩
      · exact absurd hlt (Nat.not_lt.mpr hge)

/-- The runs nobody stops and in which no batch outruns its version. -/
def inStep : World π → Event → Prop := fun w e => noStop w e ∧ outruns cfg w e = false

/-- Accepted groups are within the age bound, and so will be the group in hand. -/
structure Aged (w : World π) : Prop where
  appended : ∀ x ∈ w.history.appended, x.entry.target - x.entry.version ≤ cfg.maxTrajectoryAgeSteps
  known : ∀ x ∈ w.history.appended, (cfg.startStep : ℤ) ≤ x.entry.version
  inHand : ∀ v ∈ w.collector.pc.version,
    w.collector.nextTarget - v ≤ cfg.maxTrajectoryAgeSteps

variable {cfg} {dataloader : Dataloader π}

theorem Aged.start (b : ReplayBuffer (Trajectory π)) : Aged cfg (start cfg b) := by
  constructor <;> simp [World.start,Collector.initial,Pc.version]

theorem Aged.onward {w : World π} (h : Aged cfg w) {c' : Collector π} {v : Option ℤ}
    (hgo : Collector.Onward cfg w.collector v c')
    (hv : ∀ x ∈ v, w.collector.nextTarget - x ≤ cfg.maxTrajectoryAgeSteps)
    (abandoned : List (ℕ × ℕ)) :
    Aged cfg { w with collector := c', history := ⟨w.history.appended,abandoned⟩ } := by
  refine ⟨h.appended,h.known,?_⟩
  intro x hx
  rw [hgo.nextTarget]
  exact hv x (hgo.version x hx)

theorem Aged.step {w w' : World π} {e : Event} (h : Aged cfg w) (hv : Versioned cfg w)
    (hf : Filling cfg w) (he : inStep cfg w e) (hs : Steps cfg dataloader w e w') :
    Aged cfg w' := by
  cases hs with
  | resume => exact h.onward (Collector.onward_loopTop cfg _ none) (by simp) w.history.abandoned
  | retry hp =>
    exact ⟨h.appended,h.known,fun v hv => h.inHand v (by simpa [hp,Pc.version] using hv)⟩
  | pullDone hp =>
    have hnear := hf.near_of_busy (by simp [hp,Pc.idle])
    refine h.onward (Collector.onward_pulled hnear _) ?_ _
    intro v hv
    obtain rfl := Option.some.inj hv
    unfold Collector.Near at hnear
    omega
  | rolloutDone exn hp =>
    have hnear := hf.near_of_busy (by simp [hp,Pc.idle])
    exact h.onward (Collector.onward_generated hnear _ _ _)
      (fun v hv => h.inHand v (by simpa [hp,Pc.version] using hv)) _
  | scoringDone exn hp =>
    have hnear := hf.near_of_busy (by simp [hp,Pc.idle])
    exact h.onward (Collector.onward_scored hnear _ _)
      (fun v hv => h.inHand v (by simpa [hp,Pc.version] using hv)) _
  | @addReply f target status hp =>
    refine ⟨h.appended,h.known,?_⟩
    intro v hv
    rcases Collector.addReplied_cases cfg w.collector f target status with
      ⟨-,-,hr⟩ | ⟨hdone,hgo⟩
    · simp only [hr] at hv ⊢
      exact h.inHand v (by simpa [hp,Pc.version] using hv)
    · have hsome : (Collector.addReplied cfg w.collector f target status).pc.version ≠ none := by
        intro hnone
        simp only [hnone] at hv
        cases hv
      obtain ⟨hb,hlt,-⟩ := Collector.addReplied_version cfg hdone hsome
      obtain rfl := Option.some.inj (hgo.version v hv)
      have hstep := he.2
      simp only [outruns,hp,hdone,hb,hlt] at hstep
      simp only [hgo.nextTarget]
      simp at hstep
      omega
  | addRefused hp =>
    exact ⟨h.appended,h.known,fun v hv => h.inHand v (by simpa [hp,Pc.version] using hv)⟩
  | @addAccepted f target hp hsucc =>
    have htarget : target = w.collector.nextTarget := hf.inHand target (by simp [hp,Pc.target])
    have hage := h.inHand f.genVersion (by simp [hp,Pc.version])
    have hknown := (hv.inHand f.genVersion (by simp [hp,Pc.version])).1
    refine ⟨?_,?_,fun v hv => h.inHand v (by simpa [hp,Pc.version] using hv)⟩
    · intro x hx
      rcases List.mem_append.mp hx with hx | hx
      · exact h.appended x hx
      · rw [List.mem_singleton.mp hx,htarget]
        exact hage
    · intro x hx
      rcases List.mem_append.mp hx with hx | hx
      · exact h.known x hx
      · rw [List.mem_singleton.mp hx]
        exact hknown
  | @deliver c rest hin =>
    cases c <;> exact ⟨h.appended,h.known,h.inHand⟩
  | callStop => exact absurd rfl he.1
  | _ => exact ⟨h.appended,h.known,h.inHand⟩

theorem aged {b : ReplayBuffer (Trajectory π)} {w : World π}
    (h : Reach (machine cfg dataloader b) (inStep cfg) w) : Aged cfg w := by
  refine h.invariant_of (P := Aged cfg) (Q := fun w => Versioned cfg w ∧ Filling cfg w)
    (fun w hw => accounted (hw.mono fun _ _ hok => hok.1)) ?_ ?_
  · rintro w rfl
    exact Aged.start b
  · rintro w e w' ⟨hv,hf⟩ ha he hstep
    exact ha.step hv hf he (steps_of_step hstep)

theorem not_stale {w : World π} {m : ℕ} (ha : Aged cfg w) (hf : Filling cfg w)
    (hq : Queued cfg w m) {msg : String} : (w.buffer.sample cfg.numPromptsPerStep
      w.trainer.weightVersion cfg.maxTrajectoryAgeSteps).1 ≠ .error msg := by
  intro herr
  obtain ⟨x,hx,hlt⟩ := ReplayBuffer.sample_error hq.columns cfg.prompts_pos herr
  have hle := hq.target_le (k := 0) hf (by simpa using hx)
  have hunsampled := w.trainer.weightVersion_le_unsampled
  obtain ⟨y,hy,rfl⟩ := List.mem_map.mp (List.mem_of_mem_drop hx)
  have hage := ha.appended y hy
  have hknown := ha.known y hy
  unfold ReplayBuffer.minValidVersion at hlt
  omega

/-- As long as no batch outruns the version it was generated with, every accepted
group is within the age bound and the trainer never meets a stale one. -/
theorem age_bounded {maxSize : ℤ} {b : ReplayBuffer (Trajectory π)}
    (hb : ReplayBuffer.create maxSize = .ok b) {w : World π}
    (h : Reach (machine cfg dataloader b) (inStep cfg) w) :
    (∀ x ∈ w.history.appended, x.entry.target - x.entry.version ≤ cfg.maxTrajectoryAgeSteps) ∧
      w.trainer.pc ≠ .crashed := by
  have hfresh : b.Columns [] := by
    simp only [ReplayBuffer.create] at hb
    split_ifs at hb
    obtain rfl := Except.ok.inj hb
    exact ⟨rfl,rfl,rfl⟩
  refine ⟨(aged h).appended,?_⟩
  have hall : ∀ u, Reach (machine cfg dataloader b) (inStep cfg) u →
      Aged cfg u ∧ Filling cfg u ∧ ∃ m, Queued cfg u m := by
    intro u hu
    have hns := hu.mono fun _ _ hok => hok.1
    exact ⟨aged hu,(accounted hns).2,queued hfresh hns⟩
  refine h.invariant_of (P := fun w => w.trainer.pc ≠ .crashed) hall ?_ ?_
  · rintro u rfl
    simp [start]
  · rintro u e u' ⟨ha,hf,m,hq⟩ hpc _ hstep
    cases steps_of_step hstep with
    | sampleRaises _ herr => exact absurd herr (not_stale ha hf hq)
    | _ => simp_all

/-- A quiet run: the first step is generated, sampled, trained and synchronised. -/
def syncedSchedule : List Event :=
  [.wake,.pullDone,.rolloutDone none,.bufferAdd,.addReply,.bufferAdd,.addReply,.trainerSample,
    .trainerPrepare,.deliver,.deliver,.quiesced,.trainerSync,.deliver,.deliver]

def inStepCheck (w : World ℕ) (e : Event) : Bool := noStopCheck w e && !outruns pairConfig w e

theorem age_bounded_synced :
    ((run (machine pairConfig pairLoader ⟨4,[],[],[],-1⟩) inStepCheck
      (start pairConfig ⟨4,[],[],[],-1⟩) syncedSchedule).map fun w =>
        (w.collector.weightVersion,w.history.appended.length)) = some (1,2) ∧
    ∀ w, run (machine pairConfig pairLoader ⟨4,[],[],[],-1⟩) inStepCheck
      (start pairConfig ⟨4,[],[],[],-1⟩) syncedSchedule = some w →
      (∀ x ∈ w.history.appended, x.entry.target - x.entry.version ≤ 1) ∧
        w.trainer.pc ≠ .crashed := by
  refine ⟨by decide,fun w hw => ?_⟩
  have hcheck : ∀ (u : World ℕ) e, inStepCheck u e = true → inStep pairConfig u e := by
    intro u e he
    simp only [inStepCheck,Bool.and_eq_true,Bool.not_eq_true'] at he
    exact ⟨noStop_of_check u e he.1,he.2⟩
  have hstart : Reach (machine pairConfig pairLoader ⟨4,[],[],[],-1⟩) (inStep pairConfig)
      (start pairConfig ⟨4,[],[],[],-1⟩) := .start rfl
  have hfresh : ReplayBuffer.create 4 = .ok (⟨4,[],[],[],-1⟩ : ReplayBuffer (Trajectory ℕ)) := rfl
  exact age_bounded hfresh (reach_of_run hcheck hstart hw)

/-- A refit ends the second batch after one group, so targets and batches fall out
of step; the fourth batch is then generated at version 1 and still enqueued at 2. -/
def outrunSchedule : List Event :=
  [.deliver,.wake,.pullDone,.rolloutDone none,.bufferAdd,.addReply,.bufferAdd,.addReply,
    .trainerSample,.pullDone,.rolloutDone none,.trainerPrepare,.deliver,.quiesced,.bufferAdd,
    .addReply,.trainerSync,.deliver,.deliver,.wake,.pullDone,.rolloutDone none,.bufferAdd,
    .addReply,.bufferAdd,.addReply,.pullDone,.rolloutDone none,.trainerSample,.trainerPrepare,
    .deliver,.quiesced,.trainerSync,.deliver,.deliver,.bufferAdd,.addReply,.bufferAdd,
    .trainerSample,.trainerPrepare,.deliver,.quiesced,.trainerSync,.trainerSample]

theorem age_bound_outrun :
    ∃ w, Reach (machine pairConfig pairLoader ⟨4,[],[],[],-1⟩) noStop w ∧
      (∃ x ∈ w.history.appended,
        ¬ x.entry.target - x.entry.version ≤ pairConfig.maxTrajectoryAgeSteps) ∧
      w.trainer = ⟨3,.crashed⟩ := by
  have hrun : (run (machine pairConfig pairLoader ⟨4,[],[],[],-1⟩) noStopCheck
      (start pairConfig ⟨4,[],[],[],-1⟩) outrunSchedule).map (fun w =>
        (w.history.appended.map fun x => (x.entry.target,x.entry.version),w.trainer)) =
      some ([(0,0),(0,0),(1,0),(1,1),(2,1),(2,1),(3,1)],⟨3,.crashed⟩) := by
    decide
  obtain ⟨w,hw,hstate⟩ := Option.map_eq_some_iff.mp hrun
  obtain ⟨happended,htrainer⟩ := Prod.mk.inj hstate
  have hmem : ((3,1) : ℤ × ℤ) ∈ w.history.appended.map fun x => (x.entry.target,x.entry.version) := by
    rw [happended]
    decide
  obtain ⟨x,hx,hpair⟩ := List.mem_map.mp hmem
  obtain ⟨htarget,hversion⟩ := Prod.mk.inj hpair
  refine ⟨w,reach_of_run noStop_of_check (.start rfl) hw,⟨x,hx,?_⟩,htrainer⟩
  rw [htarget,hversion]
  decide

/-- A new buffer after `load_state_dict` of what another one saved. -/
def restore (dataplaneBacked : Trajectory π → Bool) (fresh saved : ReplayBuffer (Trajectory π)) :
    ReplayBuffer (Trajectory π) :=
  (fresh.loadStateDict (saved.stateDict dataplaneBacked)).2

theorem restore_columns {dataplaneBacked : Trajectory π → Bool} {maxSize savedSize : ℤ}
    {fresh : ReplayBuffer (Trajectory π)} {saved : Ledger (Trajectory π)}
    (hfresh : ReplayBuffer.create maxSize = .ok fresh)
    (hsaved : Ledger.Reached dataplaneBacked savedSize saved) :
    (restore dataplaneBacked fresh saved.buffer).Columns
      (restore dataplaneBacked fresh saved.buffer).entries := by
  have hcreated : Ledger.Reached dataplaneBacked maxSize ⟨fresh,[],[]⟩ := .create hfresh
  have hreach := hcreated.load hsaved
  obtain ⟨es,hes⟩ := hreach.balanced
  have hbuffer : (Ledger.load dataplaneBacked ⟨fresh,[],[]⟩ saved).buffer =
      restore dataplaneBacked fresh saved.buffer := by
    unfold Ledger.load restore
    dsimp only
    split_ifs <;> rfl
  have hcols := hes.columns
  rw [hbuffer] at hcols
  rw [hcols.entries]
  exact hcols

def restoredFor (b : ReplayBuffer (Trajectory π)) (T : ℤ) : ℕ := (b.entries.map Entry.target).count T

def addedFor (w : World π) (T : ℤ) : ℕ := (w.history.appended.map fun x => x.entry.target).count T

/-- After a restart, the targets the collector has passed have their exact number of
groups if and only if none of them was restored; with nothing restored, no group
is left behind its own step. -/
theorem resumed_exact_iff {dataplaneBacked : Trajectory π → Bool} {maxSize savedSize : ℤ}
    {fresh : ReplayBuffer (Trajectory π)} {saved : Ledger (Trajectory π)}
    (hfresh : ReplayBuffer.create maxSize = .ok fresh)
    (hsaved : Ledger.Reached dataplaneBacked savedSize saved) {w : World π}
    (h : Reach (machine cfg dataloader (restore dataplaneBacked fresh saved.buffer)) noStop w) :
    ((∀ T : ℤ, cfg.startStep ≤ T → T < w.collector.nextTarget →
        restoredFor (restore dataplaneBacked fresh saved.buffer) T + addedFor w T =
          cfg.numPromptsPerStep) ↔
      ∀ x ∈ (restore dataplaneBacked fresh saved.buffer).entries,
        cfg.startStep ≤ x.target → w.collector.nextTarget ≤ x.target) ∧
    ((restore dataplaneBacked fresh saved.buffer).entries = [] →
      ∀ x ∈ w.buffer.entries, w.trainer.unsampled ≤ x.target) := by
  have hcols := restore_columns hfresh hsaved
  obtain ⟨-,hf⟩ := accounted h
  refine ⟨⟨?_,?_⟩,?_⟩
  · intro hexact x hx hstart
    by_contra hlt
    have hcount := hexact x.target hstart (by omega)
    rw [addedFor,hf.count_target hstart (by omega)] at hcount
    have hpos : 0 < restoredFor (restore dataplaneBacked fresh saved.buffer) x.target :=
      List.count_pos_iff.mpr (List.mem_map_of_mem hx)
    omega
  · intro hnone T hstart hnext
    have hzero : restoredFor (restore dataplaneBacked fresh saved.buffer) T = 0 := by
      refine List.count_eq_zero.mpr fun hmem => ?_
      obtain ⟨x,hx,rfl⟩ := List.mem_map.mp hmem
      have := hnone x hx hstart
      omega
    rw [hzero,Nat.zero_add]
    exact hf.count_target hstart hnext
  · intro hempty x hx
    rw [hempty] at hcols
    obtain ⟨m,hq⟩ := queued hcols h
    have hmem : x ∈ (w.history.appended.map Appended.entry).drop (cfg.numPromptsPerStep * m) := by
      rw [← hq.columns.entries]
      exact hx
    have hle := hq.target_le (k := 0) hf (by simpa using hmem)
    omega

def resumedConfig : CollectorConfig := ⟨1,1,1,20,false,1,Nat.one_pos,Nat.one_pos⟩

def singleLoader : Dataloader ℕ := fun k => some [k]

def savedLedger : Ledger (Trajectory ℕ) := (BufferOp.add [7] 0 1).apply ⟨⟨2,[],[],[],-1⟩,[],[]⟩

theorem savedLedger_reached : Ledger.Reached (fun _ => false) 2 savedLedger :=
  (Ledger.Reached.create (b := ⟨2,[],[],[],-1⟩) rfl).op (o := .add [7] 0 1) trivial

/-- The restored group is for the step behind the first. -/
def aheadLedger : Ledger (Trajectory ℕ) := (BufferOp.add [7] 0 2).apply ⟨⟨2,[],[],[],-1⟩,[],[]⟩

theorem aheadLedger_reached : Ledger.Reached (fun _ => false) 2 aheadLedger :=
  (Ledger.Reached.create (b := ⟨2,[],[],[],-1⟩) rfl).op (o := .add [7] 0 2) trivial

theorem resumed_exact_iff_ahead : ∃ w,
    run (machine resumedConfig singleLoader (restore (fun _ => false) ⟨2,[],[],[],-1⟩ aheadLedger.buffer))
        noStopCheck
        (start resumedConfig (restore (fun _ => false) ⟨2,[],[],[],-1⟩ aheadLedger.buffer))
        [.wake,.pullDone,.rolloutDone none,.bufferAdd,.addReply] = some w ∧
      w.collector.nextTarget = 2 ∧
      (restore (fun _ => false) ⟨2,[],[],[],-1⟩ aheadLedger.buffer).entries.map (·.target) = [2] ∧
      ∀ T : ℤ, resumedConfig.startStep ≤ T → T < w.collector.nextTarget →
        restoredFor (restore (fun _ => false) ⟨2,[],[],[],-1⟩ aheadLedger.buffer) T + addedFor w T = 1 := by
  obtain ⟨w,hw,hnext⟩ : ∃ w, run (machine resumedConfig singleLoader
      (restore (fun _ => false) ⟨2,[],[],[],-1⟩ aheadLedger.buffer)) noStopCheck
      (start resumedConfig (restore (fun _ => false) ⟨2,[],[],[],-1⟩ aheadLedger.buffer))
      [.wake,.pullDone,.rolloutDone none,.bufferAdd,.addReply] = some w ∧
        w.collector.nextTarget = 2 := ⟨_,rfl,rfl⟩
  have hentries : (restore (fun _ => false) ⟨2,[],[],[],-1⟩ aheadLedger.buffer).entries.map (·.target) =
      [2] := rfl
  have hfresh : ReplayBuffer.create 2 = .ok (⟨2,[],[],[],-1⟩ : ReplayBuffer (Trajectory ℕ)) := rfl
  refine ⟨w,hw,hnext,hentries,(resumed_exact_iff hfresh aheadLedger_reached
    (reach_of_run noStop_of_check (.start rfl) hw)).1.mpr fun x hx _ => ?_⟩
  have htarget : x.target ∈ [2] := hentries ▸ List.mem_map_of_mem hx
  rw [hnext,List.mem_singleton.mp htarget]

/-- The restored group is sampled, a second one for step 1 is generated after it, and
goes stale two steps later. -/
def resumedSchedule : List Event :=
  [.deliver,.trainerSample,.wake,.pullDone,.rolloutDone none,.bufferAdd,.addReply,.pullDone,
    .rolloutDone none,.bufferAdd,.addReply,.trainerPrepare,.deliver,.quiesced,.trainerSync,.deliver,
    .deliver,.trainerSample,.trainerPrepare,.deliver,.quiesced,.trainerSync,.trainerSample]

theorem resumed_duplicate :
    Ledger.Reached (fun _ => false) 2 savedLedger ∧ ∃ w, Reach (machine resumedConfig singleLoader
        (restore (fun _ => false) ⟨2,[],[],[],-1⟩ savedLedger.buffer)) noStop w ∧
      (resumedConfig.startStep : ℤ) ≤ 1 ∧ 1 < w.collector.nextTarget ∧
      restoredFor (restore (fun _ => false) ⟨2,[],[],[],-1⟩ savedLedger.buffer) 1 + addedFor w 1 ≠
        resumedConfig.numPromptsPerStep ∧
      w.trainer = ⟨3,.crashed⟩ := by
  have hrun : (run (machine resumedConfig singleLoader
      (restore (fun _ => false) ⟨2,[],[],[],-1⟩ savedLedger.buffer)) noStopCheck
      (start resumedConfig (restore (fun _ => false) ⟨2,[],[],[],-1⟩ savedLedger.buffer))
      resumedSchedule).map (fun w => (w.collector.nextTarget,addedFor w 1,w.trainer)) =
      some (3,1,⟨3,.crashed⟩) := by
    decide
  obtain ⟨w,hw,hstate⟩ := Option.map_eq_some_iff.mp hrun
  simp only [Prod.mk.injEq] at hstate
  obtain ⟨hnext,hadded,htrainer⟩ := hstate
  refine ⟨savedLedger_reached,w,reach_of_run noStop_of_check (.start rfl) hw,by decide,by omega,?_,
    htrainer⟩
  rw [hadded]
  decide

end World
end AsyncGrpo
end DockyardRL
