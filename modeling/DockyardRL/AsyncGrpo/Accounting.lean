import DockyardRL.AsyncGrpo.Protocol
import Mathlib.Algebra.Order.Ring.Int
import Mathlib.Tactic.Zify

/-! Accounting of targets. Along a run nobody stops, the collector numbers its
groups slot by slot, and the trainer takes them out slot by slot. Three
invariants carry this: the versions in flight, the filling of the targets, and
the queue between the two. -/
namespace DockyardRL
namespace AsyncGrpo

open Transition Slots

variable {π : Type*}

namespace Pc

def idle : Pc π → Bool
  | .holdOff | .generationBackoff | .scoringBackoff | .halted => true
  | _ => false

def version : Pc π → Option ℤ
  | .generating _ v => some v
  | .scoring f | .adding f _ | .added f _ _ | .retrying f _ => some f.genVersion
  | _ => none

def target : Pc π → Option ℤ
  | .adding _ t | .added _ t _ | .retrying _ t => some t
  | _ => none

/-- Groups the buffer accepted whose reply is still on its way. -/
def uncounted : Pc π → ℕ
  | .added _ _ .success => 1
  | _ => 0

end Pc

namespace Collector

variable (cfg : CollectorConfig)

/-- The next target is within the age bound. -/
def Near (c : Collector π) : Prop := c.nextTarget ≤ c.weightVersion + cfg.maxTrajectoryAgeSteps

/-- `c'` is `c` run on to an await without counting a group, with a batch
generated at version `v` in hand. -/
structure Onward (c : Collector π) (v : Option ℤ) (c' : Collector π) : Prop where
  weightVersion : c'.weightVersion = c.weightVersion
  nextTarget : c'.nextTarget = c.nextTarget
  groupsForTarget : c'.groupsForTarget = c.groupsForTarget
  stopped : c'.stopped = true → c.stopped = true ∨ c'.pc = .halted
  uncounted : c'.pc.uncounted = 0
  target : ∀ t ∈ c'.pc.target, t = c.nextTarget
  version : ∀ x ∈ c'.pc.version, v = some x
  near : c'.pc.idle = true ∨ Near cfg c

theorem onward_loopTop (c : Collector π) (v : Option ℤ) : Onward cfg c v (loopTop cfg c) := by
  obtain ⟨p,hp,hcases⟩ := loopTop_spec cfg c
  rw [hp]
  rcases hcases with ⟨rfl,hs⟩ | rfl | ⟨rfl,hnear⟩
  · exact ⟨rfl,rfl,rfl,.inl,rfl,by simp [Pc.target],by simp [Pc.version],.inl rfl⟩
  · exact ⟨rfl,rfl,rfl,.inl,rfl,by simp [Pc.target],by simp [Pc.version],.inl rfl⟩
  · exact ⟨rfl,rfl,rfl,.inl,rfl,by simp [Pc.target],by simp [Pc.version],.inr hnear⟩

theorem onward_finishBatch (c : Collector π) (v : Option ℤ) :
    Onward cfg c v (finishBatch cfg c) := by
  have h := onward_loopTop cfg
    { c with health := c.health.recordSuccess, enqueuedDataloaderState := some c.pulls } v
  exact ⟨h.weightVersion,h.nextTarget,h.groupsForTarget,h.stopped,h.uncounted,h.target,h.version,
    h.near⟩

variable {cfg}

theorem onward_pulled {c : Collector π} (hnear : Near cfg c) (item : Option (List π)) :
    Onward cfg c (some c.weightVersion) (pulled cfg c item) := by
  have hskip := onward_loopTop cfg { c with pulls := c.pulls + 1 } (some c.weightVersion)
  have hloop : Onward cfg c (some c.weightVersion) (loopTop cfg { c with pulls := c.pulls + 1 }) :=
    ⟨hskip.weightVersion,hskip.nextTarget,hskip.groupsForTarget,hskip.stopped,hskip.uncounted,
      hskip.target,hskip.version,hskip.near⟩
  cases item with
  | none => exact hloop
  | some batch =>
    simp only [pulled]
    split_ifs
    · exact hloop
    · exact ⟨rfl,rfl,rfl,.inl,rfl,by simp [Pc.target],by simp [Pc.version],.inr hnear⟩

theorem onward_enqueueGroup {c : Collector π} (hnear : Near cfg c) (f : Flight π) :
    Onward cfg c (some f.genVersion) (enqueueGroup cfg c f) := by
  rcases enqueueGroup_spec cfg c f with ⟨-,he⟩ | ⟨-,he⟩
  · rw [he]
    exact ⟨rfl,rfl,rfl,.inl,rfl,by simp [Pc.target],by simp [Pc.version],.inr hnear⟩
  · rw [he]
    exact onward_finishBatch cfg c _

theorem onward_failed {c : Collector π} (v : Option ℤ) (stage : String) (exn : Exn)
    {backoff : Pc π} (hb : backoff = .generationBackoff ∨ backoff = .scoringBackoff) :
    Onward cfg c v (failed cfg c stage exn backoff) := by
  obtain ⟨s,p,hf,⟨rfl,rfl⟩ | ⟨rfl,rfl⟩⟩ := failed_spec cfg c stage exn backoff
  · rw [hf]
    rcases hb with rfl | rfl <;>
      exact ⟨rfl,rfl,rfl,.inl,rfl,by simp [Pc.target],by simp [Pc.version],.inl rfl⟩
  · rw [hf]
    exact ⟨rfl,rfl,rfl,fun _ => .inr rfl,rfl,by simp [Pc.target],by simp [Pc.version],.inl rfl⟩

theorem onward_generated {c : Collector π} (hnear : Near cfg c) (batch : List π) (v : ℤ)
    (exn : Option Exn) : Onward cfg c (some v) (generated cfg c batch v exn) := by
  cases exn with
  | some exn => exact onward_failed _ _ _ (.inl rfl)
  | none =>
    simp only [generated]
    split_ifs
    · exact ⟨rfl,rfl,rfl,.inl,rfl,by simp [Pc.target],by simp [Pc.version],.inr hnear⟩
    · exact onward_enqueueGroup hnear ⟨_,v,0⟩

theorem onward_scored {c : Collector π} (hnear : Near cfg c) (f : Flight π) (exn : Option Exn) :
    Onward cfg c (some f.genVersion) (scored cfg c f exn) := by
  cases exn with
  | some exn => exact onward_failed _ _ _ (.inr rfl)
  | none => exact onward_enqueueGroup hnear f

variable (cfg)

/-- After the buffer's reply the group is sent again, or counted and the loop goes on. -/
theorem addReplied_cases (c : Collector π) (f : Flight π) (target : ℤ) (status : AddStatus) :
    (status = .full ∧ c.stopped = false ∧
      addReplied cfg c f target status = { c with pc := .retrying f target }) ∨
    ((status = .success ∨ c.stopped = true) ∧
      Onward cfg (countGroup cfg c) (some f.genVersion) (addReplied cfg c f target status)) := by
  rcases addReplied_spec cfg c f target status with h | ⟨hdone,-,h⟩ | ⟨hdone,hb,h⟩
  · exact .inl h
  · rw [h]
    exact .inr ⟨hdone,onward_finishBatch cfg _ _⟩
  · have hfar : (countGroup cfg c).tooFarAhead cfg = false := by
      simp only [breaks,Bool.or_eq_false_iff] at hb
      exact hb.2
    rw [h]
    exact .inr ⟨hdone,
      onward_enqueueGroup ((tooFarAhead_eq_false cfg).mp hfar) { f with group := f.group + 1 }⟩

end Collector

def Control.version : Control → Option ℤ
  | .setWeightVersion v => some v
  | _ => none

def Trainer.unsampled (t : Trainer) : ℤ :=
  match t.pc with
  | .sampling | .crashed => t.weightVersion
  | _ => t.weightVersion + 1

theorem Trainer.weightVersion_le_unsampled (t : Trainer) : t.weightVersion ≤ t.unsampled := by
  rcases t with ⟨v,pc⟩
  cases pc <;> simp [unsampled]

namespace World

variable (cfg : CollectorConfig)

def versions (w : World π) : List ℤ :=
  w.collector.weightVersion :: w.inbox.filterMap Control.version

/-- Versions arrive in order, none is ahead of the trainer, and a batch in hand
carries one the collector has seen. -/
structure Versioned (w : World π) : Prop where
  running : Control.stop ∉ w.inbox
  halted : w.collector.stopped = true → w.collector.pc = .halted
  ordered : (versions w).Pairwise (· ≤ ·)
  bounds : ∀ v ∈ versions w, (cfg.startStep : ℤ) ≤ v ∧ v ≤ w.trainer.weightVersion
  inHand : ∀ x ∈ w.collector.pc.version, (cfg.startStep : ℤ) ≤ x ∧ x ≤ w.collector.weightVersion

/-- Every accepted group has the next free place in the sequence of targets. -/
structure Filling (w : World π) : Prop where
  opened : (cfg.startStep : ℤ) ≤ w.collector.nextTarget
  numbered : w.history.appended.map (fun x => x.entry.target) =
    slots cfg.startStep cfg.numPromptsPerStep w.history.appended.length
  counted : (w.history.appended.length : ℤ) =
    (w.collector.nextTarget - cfg.startStep) * cfg.numPromptsPerStep +
      w.collector.groupsForTarget + w.collector.pc.uncounted
  underway : w.collector.groupsForTarget < cfg.numPromptsPerStep
  inHand : ∀ t ∈ w.collector.pc.target, t = w.collector.nextTarget
  near : Collector.Near cfg w.collector ∨
    (w.collector.pc.idle = true ∧ w.collector.groupsForTarget = 0 ∧
      w.collector.nextTarget = w.collector.weightVersion + cfg.maxTrajectoryAgeSteps + 1)

variable {cfg} {dataloader : Dataloader π}

theorem Versioned.start (b : ReplayBuffer (Trajectory π)) : Versioned cfg (start cfg b) := by
  constructor <;> simp [World.start,Collector.initial,versions,Control.version,Pc.version]

theorem Filling.start (b : ReplayBuffer (Trajectory π)) : Filling cfg (start cfg b) := by
  constructor <;> simp [World.start,Collector.initial,Pc.uncounted,Pc.target,slots,Collector.Near,
    cfg.prompts_pos]

theorem Versioned.onward {w : World π} (h : Versioned cfg w) {c c' : Collector π} {v : Option ℤ}
    (hgo : Collector.Onward cfg c v c') (hw : c.weightVersion = w.collector.weightVersion)
    (hs : c.stopped = w.collector.stopped) (hpc : w.collector.pc ≠ .halted)
    (hv : ∀ x ∈ v, (cfg.startStep : ℤ) ≤ x ∧ x ≤ w.collector.weightVersion)
    (history : History π) : Versioned cfg { w with collector := c', history := history } := by
  have hversions : versions { w with collector := c', history := history } = versions w := by
    simp only [versions,hgo.weightVersion,hw]
  refine ⟨h.running,?_,hversions ▸ h.ordered,hversions ▸ h.bounds,?_⟩
  · intro hstop
    rcases hgo.stopped hstop with hc | hc
    · exact absurd (h.halted (hs ▸ hc)) hpc
    · exact hc
  · intro x hx
    have hvx := hv x (hgo.version x hx)
    rw [← hw,← hgo.weightVersion] at hvx
    exact hvx

theorem Versioned.moved {w : World π} (h : Versioned cfg w) {p : Pc π}
    (hs : w.collector.pc ≠ .halted) (hp : ∀ x ∈ p.version, x ∈ w.collector.pc.version)
    (buffer : ReplayBuffer (Trajectory π)) (history : History π) :
    Versioned cfg { w with
      collector := { w.collector with pc := p }, buffer := buffer, history := history } :=
  ⟨h.running,fun hstop => absurd (h.halted hstop) hs,h.ordered,h.bounds,
    fun x hx => h.inHand x (hp x hx)⟩

theorem Versioned.sent {w : World π} (h : Versioned cfg w) {c : Control} (hc : c ≠ .stop)
    (hv : c.version = none) {t : Trainer} (ht : t.weightVersion = w.trainer.weightVersion) :
    Versioned cfg { w with inbox := w.inbox ++ [c], trainer := t } := by
  have hversions : versions { w with inbox := w.inbox ++ [c], trainer := t } = versions w := by
    simp [versions,hv]
  refine ⟨?_,h.halted,hversions ▸ h.ordered,?_,h.inHand⟩
  · have hrun := h.running
    simp only [List.mem_append,List.mem_singleton,not_or]
    exact ⟨hrun,fun heq => hc heq.symm⟩
  · intro v hv'
    have hb := h.bounds v (hversions ▸ hv')
    exact ⟨hb.1,by rw [ht]; exact hb.2⟩

theorem Versioned.synced {w : World π} (h : Versioned cfg w) :
    Versioned cfg { w with
      inbox := w.inbox ++ [.setWeightVersion (w.trainer.weightVersion + 1),.resumeAfterRefit]
      trainer := ⟨w.trainer.weightVersion + 1,.sampling⟩ } := by
  have hversions : versions { w with
      inbox := w.inbox ++ [.setWeightVersion (w.trainer.weightVersion + 1),.resumeAfterRefit]
      trainer := ⟨w.trainer.weightVersion + 1,.sampling⟩ } =
      versions w ++ [w.trainer.weightVersion + 1] := by
    simp [versions,Control.version]
  refine ⟨?_,h.halted,?_,?_,h.inHand⟩
  · have hrun := h.running
    simp [hrun]
  · rw [hversions,List.pairwise_append]
    refine ⟨h.ordered,List.pairwise_singleton _ _,?_⟩
    intro v hv u hu
    have hb := (h.bounds v hv).2
    rw [List.mem_singleton.mp hu]
    omega
  · intro v hv
    rw [hversions,List.mem_append,List.mem_singleton] at hv
    have hstart := (h.bounds w.collector.weightVersion (by simp [versions]))
    rcases hv with hv | rfl
    · have hb := h.bounds v hv
      exact ⟨hb.1,by simp only; omega⟩
    · exact ⟨by omega,le_refl _⟩

theorem Versioned.delivered {w : World π} (h : Versioned cfg w) {c : Control} {rest : List Control}
    (hin : w.inbox = c :: rest) (b : Bool) :
    Versioned cfg { w with
      collector := w.collector.control c, inbox := rest, refitWaiting := b } ∧
    w.collector.weightVersion ≤ (w.collector.control c).weightVersion := by
  have hrun := h.running
  have hord := h.ordered
  have hb := h.bounds
  have hhand := h.inHand
  rw [hin,List.mem_cons,not_or] at hrun
  simp only [versions,hin] at hord hb
  cases c with
  | stop => exact absurd rfl hrun.1
  | setWeightVersion v =>
    rw [List.filterMap_cons_some (show Control.version (.setWeightVersion v) = some v from rfl)]
      at hord hb
    have hle : w.collector.weightVersion ≤ v := (List.pairwise_cons.mp hord).1 v (by simp)
    refine ⟨⟨hrun.2,h.halted,(List.pairwise_cons.mp hord).2,?_,?_⟩,hle⟩
    · exact fun u hu => hb u (List.mem_cons_of_mem _ hu)
    · intro x hx
      have hxw := hhand x hx
      exact ⟨hxw.1,hxw.2.trans hle⟩
  | prepareForRefit => exact ⟨⟨hrun.2,h.halted,hord,hb,hhand⟩,le_refl _⟩
  | resumeAfterRefit => exact ⟨⟨hrun.2,h.halted,hord,hb,hhand⟩,le_refl _⟩
  | pause => exact ⟨⟨hrun.2,h.halted,hord,hb,hhand⟩,le_refl _⟩
  | resume => exact ⟨⟨hrun.2,h.halted,hord,hb,hhand⟩,le_refl _⟩

theorem Filling.near_of_busy {w : World π} (h : Filling cfg w) (hp : w.collector.pc.idle = false) :
    Collector.Near cfg w.collector := by
  rcases h.near with hnear | ⟨hidle,-,-⟩
  · exact hnear
  · simp [hp] at hidle

theorem Versioned.step {w w' : World π} {e : Event} (h : Versioned cfg w) (hf : Filling cfg w)
    (he : noStop w e) (hs : Steps cfg dataloader w e w') : Versioned cfg w' := by
  have hnone : ∀ x ∈ (none : Option ℤ), (cfg.startStep : ℤ) ≤ x ∧ x ≤ w.collector.weightVersion := by
    simp
  cases hs with
  | resume hp =>
    refine h.onward (Collector.onward_loopTop cfg _ none) rfl rfl ?_ hnone _
    rcases hp with hp | hp | hp <;> simp [hp]
  | retry hp => exact h.moved (by simp [hp]) (by simp [hp,Pc.version]) w.buffer w.history
  | pullDone hp =>
    have hnear := hf.near_of_busy (by simp [hp,Pc.idle])
    have hlive := h.bounds w.collector.weightVersion (by simp [versions])
    refine h.onward (Collector.onward_pulled hnear _) rfl rfl (by simp [hp]) ?_ _
    intro x hx
    obtain rfl := Option.some.inj hx
    exact ⟨hlive.1,le_refl _⟩
  | @rolloutDone batch v exn hp =>
    have hnear := hf.near_of_busy (by simp [hp,Pc.idle])
    have hhand : ∀ x ∈ some v, (cfg.startStep : ℤ) ≤ x ∧ x ≤ w.collector.weightVersion :=
      fun x hx => h.inHand x (by simpa [hp,Pc.version] using hx)
    exact h.onward (Collector.onward_generated hnear _ _ _) rfl rfl (by simp [hp]) hhand _
  | @scoringDone f exn hp =>
    have hnear := hf.near_of_busy (by simp [hp,Pc.idle])
    have hhand : ∀ x ∈ some f.genVersion, (cfg.startStep : ℤ) ≤ x ∧ x ≤ w.collector.weightVersion :=
      fun x hx => h.inHand x (by simpa [hp,Pc.version] using hx)
    exact h.onward (Collector.onward_scored hnear _ _) rfl rfl (by simp [hp]) hhand _
  | @addReply f target status hp =>
    have hhand : ∀ x ∈ some f.genVersion, (cfg.startStep : ℤ) ≤ x ∧ x ≤ w.collector.weightVersion :=
      fun x hx => h.inHand x (by simpa [hp,Pc.version] using hx)
    rcases Collector.addReplied_cases cfg w.collector f target status with
      ⟨-,-,hr⟩ | ⟨-,hgo⟩
    · rw [hr]
      exact h.moved (by simp [hp]) (by simp [hp,Pc.version]) w.buffer _
    · rcases Collector.countGroup_spec cfg w.collector with ⟨-,hc⟩ | ⟨-,hc⟩
      · rw [hc] at hgo
        exact h.onward hgo rfl rfl (by simp [hp]) hhand _
      · rw [hc] at hgo
        exact h.onward hgo rfl rfl (by simp [hp]) hhand _
  | addRefused hp => exact h.moved (by simp [hp]) (by simp [hp,Pc.version]) w.buffer w.history
  | addAccepted hp => exact h.moved (by simp [hp]) (by simp [hp,Pc.version]) _ _
  | deliver hin => exact (h.delivered hin _).1
  | quiesced => exact ⟨h.running,h.halted,h.ordered,h.bounds,h.inHand⟩
  | sampleWaits => exact h
  | sampleRaises => exact ⟨h.running,h.halted,h.ordered,h.bounds,h.inHand⟩
  | sampled => exact ⟨h.running,h.halted,h.ordered,h.bounds,h.inHand⟩
  | prepare => exact h.sent (by simp) rfl rfl
  | sync => exact h.synced
  | callPause => exact h.sent (by simp) rfl rfl
  | callResume => exact h.sent (by simp) rfl rfl
  | callStop => exact absurd rfl he

theorem Filling.onward {w : World π} (h : Filling cfg w) {c' : Collector π} {v : Option ℤ}
    (hgo : Collector.Onward cfg w.collector v c') (hu : w.collector.pc.uncounted = 0)
    (abandoned : List (ℕ × ℕ)) :
    Filling cfg { w with collector := c', history := ⟨w.history.appended,abandoned⟩ } := by
  have hcounted := h.counted
  rw [hu] at hcounted
  refine ⟨?_,h.numbered,?_,?_,?_,?_⟩
  · simpa only [hgo.nextTarget] using h.opened
  · simpa only [hgo.nextTarget,hgo.groupsForTarget,hgo.uncounted] using hcounted
  · simpa only [hgo.groupsForTarget] using h.underway
  · simpa only [hgo.nextTarget] using hgo.target
  · simp only [Collector.Near,hgo.nextTarget,hgo.weightVersion,hgo.groupsForTarget]
    rcases h.near with hnear | ⟨-,hzero,hnext⟩
    · exact .inl hnear
    · rcases hgo.near with hidle | hnear
      · exact .inr ⟨hidle,hzero,hnext⟩
      · exact .inl hnear

theorem Filling.counts {w : World π} (h : Filling cfg w) {c' : Collector π} {v : Option ℤ}
    (hgo : Collector.Onward cfg (Collector.countGroup cfg w.collector) v c')
    (hu : w.collector.pc.uncounted = 1) (hnear : Collector.Near cfg w.collector)
    (abandoned : List (ℕ × ℕ)) :
    Filling cfg { w with collector := c', history := ⟨w.history.appended,abandoned⟩ } := by
  have hcounted := h.counted
  have hunder := h.underway
  have hopened := h.opened
  have hn := cfg.prompts_pos
  rw [hu] at hcounted
  unfold Collector.Near at hnear
  rcases Collector.countGroup_spec cfg w.collector with ⟨hfull,hc⟩ | ⟨hpart,hc⟩
  · have hnext : c'.nextTarget = w.collector.nextTarget + 1 := by rw [hgo.nextTarget,hc]
    have hgroups : c'.groupsForTarget = 0 := by rw [hgo.groupsForTarget,hc]
    have hweight : c'.weightVersion = w.collector.weightVersion := by rw [hgo.weightVersion,hc]
    have hring : (w.collector.nextTarget + 1 - cfg.startStep) * (cfg.numPromptsPerStep : ℤ) =
        (w.collector.nextTarget - cfg.startStep) * cfg.numPromptsPerStep + cfg.numPromptsPerStep := by
      ring
    refine ⟨?_,h.numbered,?_,?_,?_,?_⟩
    · simp only [hnext]
      omega
    · simp only [hnext,hgroups,hgo.uncounted,hring]
      omega
    · simp only [hgroups]
      exact hn
    · intro t ht
      rw [hgo.target t ht,hgo.nextTarget]
    · simp only [Collector.Near,hnext,hweight,hgroups]
      rcases hgo.near with hidle | hnear'
      · by_cases hlt : w.collector.nextTarget + 1 ≤ w.collector.weightVersion + cfg.maxTrajectoryAgeSteps
        · exact .inl hlt
        · exact .inr ⟨hidle,trivial,by omega⟩
      · rw [hc] at hnear'
        exact .inl hnear'
  · have hnext : c'.nextTarget = w.collector.nextTarget := by rw [hgo.nextTarget,hc]
    have hgroups : c'.groupsForTarget = w.collector.groupsForTarget + 1 := by
      rw [hgo.groupsForTarget,hc]
    have hweight : c'.weightVersion = w.collector.weightVersion := by rw [hgo.weightVersion,hc]
    refine ⟨?_,h.numbered,?_,?_,?_,?_⟩
    · simpa only [hnext] using hopened
    · simp only [hnext,hgroups,hgo.uncounted]
      omega
    · simp only [hgroups]
      exact hpart
    · intro t ht
      rw [hgo.target t ht,hgo.nextTarget]
    · simp only [Collector.Near,hnext,hweight]
      exact .inl hnear

theorem Filling.accepted {w : World π} (h : Filling cfg w) {f : Flight π} {target : ℤ}
    (hp : w.collector.pc = .adding f target) (x : Appended π) (hx : x.entry.target = target)
    (buffer : ReplayBuffer (Trajectory π)) (abandoned : List (ℕ × ℕ)) :
    Filling cfg { w with
      collector := { w.collector with pc := .added f target .success }
      buffer := buffer
      history := ⟨w.history.appended ++ [x],abandoned⟩ } := by
  have hnear := h.near_of_busy (by simp [hp,Pc.idle])
  have hcounted := h.counted
  have hopened := h.opened
  have htarget : target = w.collector.nextTarget := h.inHand target (by simp [hp,Pc.target])
  obtain ⟨k,hk⟩ := Int.eq_ofNat_of_zero_le (by omega : 0 ≤ w.collector.nextTarget - cfg.startStep)
  have hlen : w.history.appended.length = cfg.numPromptsPerStep * k + w.collector.groupsForTarget := by
    simp only [hp,Pc.uncounted,hk] at hcounted
    rw [Nat.mul_comm]
    exact_mod_cast hcounted
  refine ⟨hopened,?_,?_,h.underway,?_,.inl hnear⟩
  · simp only [List.map_append,List.map_singleton,List.length_append,List.length_singleton,slots_succ]
    rw [h.numbered,hx,hlen,slot_of _ _ h.underway,htarget,← hk]
    simp
  · simp only [List.length_append,List.length_singleton,Pc.uncounted]
    simp only [hp,Pc.uncounted] at hcounted
    push_cast
    omega
  · intro t ht
    rw [← htarget]
    simpa [Pc.target] using ht.symm

theorem Filling.step {w w' : World π} {e : Event} (h : Filling cfg w) (hv : Versioned cfg w)
    (he : noStop w e) (hs : Steps cfg dataloader w e w') : Filling cfg w' := by
  cases hs with
  | resume hp =>
    refine h.onward (Collector.onward_loopTop cfg _ none) ?_ w.history.abandoned
    rcases hp with hp | hp | hp <;> simp [hp,Pc.uncounted]
  | retry hp =>
    have hnear := h.near_of_busy (by simp [hp,Pc.idle])
    exact ⟨h.opened,h.numbered,by simpa [hp,Pc.uncounted] using h.counted,h.underway,
      by simpa [hp,Pc.target] using h.inHand,.inl hnear⟩
  | pullDone hp =>
    have hnear := h.near_of_busy (by simp [hp,Pc.idle])
    exact h.onward (Collector.onward_pulled hnear _) (by simp [hp,Pc.uncounted]) _
  | rolloutDone exn hp =>
    have hnear := h.near_of_busy (by simp [hp,Pc.idle])
    exact h.onward (Collector.onward_generated hnear _ _ _) (by simp [hp,Pc.uncounted]) _
  | scoringDone exn hp =>
    have hnear := h.near_of_busy (by simp [hp,Pc.idle])
    exact h.onward (Collector.onward_scored hnear _ _) (by simp [hp,Pc.uncounted]) _
  | @addReply f target status hp =>
    have hnear := h.near_of_busy (by simp [hp,Pc.idle])
    rcases Collector.addReplied_cases cfg w.collector f target status with
      ⟨hfull,-,hr⟩ | ⟨hdone,hgo⟩
    · rw [hr]
      exact ⟨h.opened,h.numbered,by simpa [hp,hfull,Pc.uncounted] using h.counted,h.underway,
        by simpa [hp,Pc.target] using h.inHand,.inl hnear⟩
    · have hsucc : status = .success := by
        rcases hdone with hsucc | hstop
        · exact hsucc
        · have := hv.halted hstop
          simp [hp] at this
      exact h.counts hgo (by simp [hp,hsucc,Pc.uncounted]) hnear _
  | addRefused hp =>
    have hnear := h.near_of_busy (by simp [hp,Pc.idle])
    exact ⟨h.opened,h.numbered,by simpa [hp,Pc.uncounted] using h.counted,h.underway,
      by simpa [hp,Pc.target] using h.inHand,.inl hnear⟩
  | addAccepted hp => exact h.accepted hp _ rfl _ _
  | @deliver c rest hin =>
    have hle := (hv.delivered hin (w.refitWaiting || decide (c = .prepareForRefit))).2
    have hnear := h.near
    cases c with
    | setWeightVersion v =>
      refine ⟨h.opened,h.numbered,h.counted,h.underway,h.inHand,?_⟩
      simp only [Collector.control,Collector.Near] at hnear hle ⊢
      rcases hnear with hnear | ⟨hidle,hzero,hnext⟩
      · exact .inl (by omega)
      · by_cases hmoved : w.collector.weightVersion = v
        · exact .inr ⟨hidle,hzero,by omega⟩
        · exact .inl (by omega)
    | prepareForRefit => exact ⟨h.opened,h.numbered,h.counted,h.underway,h.inHand,hnear⟩
    | resumeAfterRefit => exact ⟨h.opened,h.numbered,h.counted,h.underway,h.inHand,hnear⟩
    | pause => exact ⟨h.opened,h.numbered,h.counted,h.underway,h.inHand,hnear⟩
    | resume => exact ⟨h.opened,h.numbered,h.counted,h.underway,h.inHand,hnear⟩
    | stop => exact ⟨h.opened,h.numbered,h.counted,h.underway,h.inHand,hnear⟩
  | quiesced => exact ⟨h.opened,h.numbered,h.counted,h.underway,h.inHand,h.near⟩
  | sampleWaits => exact h
  | sampleRaises => exact ⟨h.opened,h.numbered,h.counted,h.underway,h.inHand,h.near⟩
  | sampled => exact ⟨h.opened,h.numbered,h.counted,h.underway,h.inHand,h.near⟩
  | prepare => exact ⟨h.opened,h.numbered,h.counted,h.underway,h.inHand,h.near⟩
  | sync => exact ⟨h.opened,h.numbered,h.counted,h.underway,h.inHand,h.near⟩
  | callPause => exact ⟨h.opened,h.numbered,h.counted,h.underway,h.inHand,h.near⟩
  | callResume => exact ⟨h.opened,h.numbered,h.counted,h.underway,h.inHand,h.near⟩
  | callStop => exact absurd rfl he

/-- The two invariants hold along every run nobody stops, over any buffer. -/
theorem accounted {b : ReplayBuffer (Trajectory π)} {w : World π}
    (h : Reach (machine cfg dataloader b) noStop w) : Versioned cfg w ∧ Filling cfg w := by
  refine h.invariant (P := fun w => Versioned cfg w ∧ Filling cfg w) ?_ ?_
  · rintro w rfl
    exact ⟨Versioned.start b,Filling.start b⟩
  · rintro w e w' ⟨hv,hf⟩ he hstep
    have hs := steps_of_step hstep
    exact ⟨hv.step hf he hs,hf.step hv he hs⟩

variable (cfg)

/-- Over a buffer that was empty at the start: the trainer has taken the groups of
its first `m` steps, which are the first `n * m` accepted, and the rest is buffered. -/
structure Queued (w : World π) (m : ℕ) : Prop where
  unsampled : w.trainer.unsampled = cfg.startStep + m
  taken : cfg.numPromptsPerStep * m ≤ w.history.appended.length
  columns : w.buffer.Columns
    ((w.history.appended.map Appended.entry).drop (cfg.numPromptsPerStep * m))

variable {cfg}

theorem Queued.start {b : ReplayBuffer (Trajectory π)} (hb : b.Columns []) :
    Queued cfg (start cfg b) 0 := by
  constructor <;> simp [World.start,Trainer.unsampled,hb]

theorem Queued.same {w w' : World π} {m : ℕ} (h : Queued cfg w m) (hb : w'.buffer = w.buffer)
    (ha : w'.history.appended = w.history.appended)
    (ht : w'.trainer.unsampled = w.trainer.unsampled) : Queued cfg w' m :=
  ⟨ht.trans h.unsampled,ha ▸ h.taken,by rw [hb,ha]; exact h.columns⟩

/-- Buffered groups are meant for steps not sampled yet, the oldest ones for the next step. -/
theorem Queued.target_le {w : World π} {m k : ℕ} (h : Queued cfg w m) (hf : Filling cfg w)
    {x : Entry (Trajectory π)}
    (hx : x ∈ ((w.history.appended.map Appended.entry).drop (cfg.numPromptsPerStep * m)).drop
      (cfg.numPromptsPerStep * k)) : w.trainer.unsampled + k ≤ x.target := by
  have htargets : (w.history.appended.map Appended.entry).map Entry.target =
      slots cfg.startStep cfg.numPromptsPerStep w.history.appended.length := by
    rw [List.map_map]
    exact hf.numbered
  have hmem : x.target ∈ (slots cfg.startStep cfg.numPromptsPerStep
      w.history.appended.length).drop (cfg.numPromptsPerStep * (m + k)) := by
    rw [← htargets,← List.map_drop,Nat.mul_add,← List.drop_drop]
    exact List.mem_map_of_mem hx
  have hle := le_of_mem_drop cfg.prompts_pos hmem
  rw [h.unsampled]
  push_cast at hle
  omega

theorem Queued.accepted {w : World π} {m : ℕ} (h : Queued cfg w m) {c : Collector π}
    {rows : Trajectory π} {v target : ℤ} {k g : ℕ} (hs : (w.buffer.add rows v target).1 = .success)
    (abandoned : List (ℕ × ℕ)) :
    Queued cfg { w with
      collector := c
      buffer := (w.buffer.add rows v target).2
      history := ⟨w.history.appended ++ [⟨k,g,⟨rows,v,target⟩⟩],abandoned⟩ } m := by
  have htaken := h.taken
  refine ⟨h.unsampled,?_,?_⟩
  · simp only [List.length_append]
    omega
  · have hcols := h.columns.add hs
    simp only [List.map_append,List.map_singleton]
    rw [List.drop_append_of_le_length (by simpa using htaken)]
    exact hcols

theorem Queued.sampled {w : World π} {m : ℕ} (h : Queued cfg w m) (hf : Filling cfg w)
    (hp : w.trainer.pc = .sampling) {r : SampleResult (Trajectory π)}
    (hok : (w.buffer.sample cfg.numPromptsPerStep w.trainer.weightVersion
      cfg.maxTrajectoryAgeSteps).1 = .ok (some r)) :
    Queued cfg { w with
      buffer := (w.buffer.sample cfg.numPromptsPerStep w.trainer.weightVersion
        cfg.maxTrajectoryAgeSteps).2
      trainer := { w.trainer with pc := .training } } (m + 1) := by
  have hunsampled : w.trainer.unsampled = w.trainer.weightVersion := by
    simp [Trainer.unsampled,hp]
  obtain ⟨hlen,-,-,-,-,hcols⟩ := ReplayBuffer.sample_success h.columns hok
  have hrest : ∀ x ∈ ((w.history.appended.map Appended.entry).drop
      (cfg.numPromptsPerStep * m)).drop cfg.numPromptsPerStep,
      x.eligible w.trainer.weightVersion cfg.maxTrajectoryAgeSteps = false := by
    intro x hx
    have hle := h.target_le (k := 1) hf (by simpa using hx)
    have hne : x.target ≠ w.trainer.weightVersion := by
      rw [hunsampled] at hle
      push_cast at hle
      omega
    simp [Entry.eligible,hne]
  have hpick := Select.pick_eq_take hlen hrest
  rw [hpick,List.drop_drop,← Nat.mul_succ] at hcols
  refine ⟨?_,?_,hcols⟩
  · have hu := h.unsampled
    rw [hunsampled] at hu
    simp only [Trainer.unsampled,hu]
    push_cast
    omega
  · have hle := List.length_filter_le (Entry.eligible w.trainer.weightVersion
      cfg.maxTrajectoryAgeSteps) ((w.history.appended.map Appended.entry).drop
        (cfg.numPromptsPerStep * m))
    have htaken := h.taken
    rw [List.length_drop,List.length_map] at hle
    rw [Nat.mul_succ]
    simp only
    omega

theorem Queued.step {w w' : World π} {e : Event} {m : ℕ} (h : Queued cfg w m) (hf : Filling cfg w)
    (hs : Steps cfg dataloader w e w') : ∃ m', Queued cfg w' m' := by
  cases hs with
  | addAccepted hp hsucc => exact ⟨m,h.accepted hsucc _⟩
  | sampled hp hok => exact ⟨m + 1,h.sampled hf hp hok⟩
  | sampleRaises hp => exact ⟨m,h.same rfl rfl (by simp [Trainer.unsampled,hp])⟩
  | quiesced _ hp => exact ⟨m,h.same rfl rfl (by simp [Trainer.unsampled,hp])⟩
  | prepare hp => exact ⟨m,h.same rfl rfl (by simp [Trainer.unsampled,hp])⟩
  | sync hp => exact ⟨m,h.same rfl rfl (by simp [Trainer.unsampled,hp])⟩
  | resume => exact ⟨m,h.same rfl rfl rfl⟩
  | retry => exact ⟨m,h.same rfl rfl rfl⟩
  | pullDone => exact ⟨m,h.same rfl rfl rfl⟩
  | rolloutDone => exact ⟨m,h.same rfl rfl rfl⟩
  | scoringDone => exact ⟨m,h.same rfl rfl rfl⟩
  | addReply => exact ⟨m,h.same rfl rfl rfl⟩
  | addRefused => exact ⟨m,h.same rfl rfl rfl⟩
  | deliver => exact ⟨m,h.same rfl rfl rfl⟩
  | sampleWaits => exact ⟨m,h⟩
  | callPause => exact ⟨m,h.same rfl rfl rfl⟩
  | callResume => exact ⟨m,h.same rfl rfl rfl⟩
  | callStop => exact ⟨m,h.same rfl rfl rfl⟩

theorem queued {b : ReplayBuffer (Trajectory π)} (hb : b.Columns []) {w : World π}
    (h : Reach (machine cfg dataloader b) noStop w) : ∃ m, Queued cfg w m := by
  refine h.invariant_of (P := fun w => ∃ m, Queued cfg w m) (Q := Filling cfg)
    (fun w hw => (accounted hw).2) ?_ ?_
  · rintro w rfl
    exact ⟨0,Queued.start hb⟩
  · rintro w e w' hf ⟨m,hm⟩ - hstep
    exact hm.step hf (steps_of_step hstep)

theorem buffer_maxSize {ok : World π → Event → Prop} {b : ReplayBuffer (Trajectory π)} {w : World π}
    (h : Reach (machine cfg dataloader b) ok w) : w.buffer.maxSize = b.maxSize := by
  refine h.invariant (P := fun w => w.buffer.maxSize = b.maxSize) ?_ ?_
  · rintro w rfl
    rfl
  · intro w e w' hw _ hstep
    cases steps_of_step hstep with
    | addAccepted hp hsucc => rw [(ReplayBuffer.add_success hsucc).2]; exact hw
    | sampled hp hok =>
      rcases ReplayBuffer.sample_cases w.buffer cfg.numPromptsPerStep w.trainer.weightVersion
        cfg.maxTrajectoryAgeSteps with ⟨_,hb⟩ | ⟨_,hb⟩ | ⟨_,_,_,hb⟩
      · rw [hb]; exact hw
      · rw [hb]; exact hw
      · rw [hb]; exact hw
    | _ => exact hw

theorem Queued.size_eq {w : World π} {m : ℕ} (hq : Queued cfg w m) (hf : Filling cfg w) :
    (w.buffer.size : ℤ) =
      (w.collector.nextTarget - w.trainer.unsampled) * cfg.numPromptsPerStep +
        w.collector.groupsForTarget + w.collector.pc.uncounted := by
  have htaken := hq.taken
  have hcounted := hf.counted
  have hlen : w.buffer.size = w.history.appended.length - cfg.numPromptsPerStep * m := by
    rw [ReplayBuffer.size,hq.columns.length.1,List.length_drop,List.length_map]
  have hring : (w.collector.nextTarget - (cfg.startStep + m)) * (cfg.numPromptsPerStep : ℤ) =
      (w.collector.nextTarget - cfg.startStep) * cfg.numPromptsPerStep -
        cfg.numPromptsPerStep * m := by
    ring
  rw [hlen,hq.unsampled,hring,Nat.cast_sub htaken]
  push_cast
  omega

theorem Versioned.ahead_le {w : World π} (hv : Versioned cfg w) {k : ℤ}
    (hk : w.collector.nextTarget ≤ w.collector.weightVersion + k) :
    (w.collector.nextTarget - w.trainer.unsampled) * (cfg.numPromptsPerStep : ℤ) ≤
      k * cfg.numPromptsPerStep := by
  have hw := (hv.bounds w.collector.weightVersion (by simp [versions])).2
  have ht := w.trainer.weightVersion_le_unsampled
  exact mul_le_mul_of_nonneg_right (by omega) (by omega)

theorem Pc.uncounted_le (p : Pc π) : p.uncounted ≤ 1 := by
  unfold Pc.uncounted
  split <;> omega

theorem size_le {w : World π} {m : ℕ} (hq : Queued cfg w m) (hv : Versioned cfg w)
    (hf : Filling cfg w) :
    w.buffer.size ≤ (cfg.maxTrajectoryAgeSteps + 1) * cfg.numPromptsPerStep := by
  have hsize := hq.size_eq hf
  have hunder := hf.underway
  have hone := Pc.uncounted_le w.collector.pc
  zify
  rcases hf.near with hnear | ⟨hidle,hzero,hnext⟩
  · have hle := hv.ahead_le hnear
    rw [add_mul]
    omega
  · have hle := hv.ahead_le (k := cfg.maxTrajectoryAgeSteps + 1) (by omega)
    have hunc : w.collector.pc.uncounted = 0 := by
      cases hp : w.collector.pc <;> simp_all [Pc.idle,Pc.uncounted]
    rw [hsize,hzero,hunc]
    push_cast at hle ⊢
    omega

theorem size_lt_of_adding {w : World π} {m : ℕ} (hq : Queued cfg w m) (hv : Versioned cfg w)
    (hf : Filling cfg w) {f : Flight π} {target : ℤ} (hp : w.collector.pc = .adding f target) :
    w.buffer.size < (cfg.maxTrajectoryAgeSteps + 1) * cfg.numPromptsPerStep := by
  have hsize := hq.size_eq hf
  have hunder := hf.underway
  have hle := hv.ahead_le (hf.near_of_busy (by simp [hp,Pc.idle]))
  have hunc : w.collector.pc.uncounted = 0 := by simp [hp,Pc.uncounted]
  rw [hunc] at hsize
  zify
  rw [add_mul]
  omega

/-- The groups whose `success` the collector has seen. -/
def acknowledged (w : World π) : List (Appended π) :=
  w.history.appended.take (w.history.appended.length - w.collector.pc.uncounted)

/-- Every target below the next one has its full number of groups. -/
theorem Filling.count_target {w : World π} (h : Filling cfg w) {T : ℤ} (hT : cfg.startStep ≤ T)
    (hnext : T < w.collector.nextTarget) :
    (w.history.appended.map fun x => x.entry.target).count T = cfg.numPromptsPerStep := by
  have hcounted := h.counted
  have hone := Pc.uncounted_le w.collector.pc
  have hunder := h.underway
  obtain ⟨k,hk⟩ := Int.eq_ofNat_of_zero_le (by omega : 0 ≤ w.collector.nextTarget - cfg.startStep)
  have hlen : w.history.appended.length = cfg.numPromptsPerStep * k +
      (w.collector.groupsForTarget + w.collector.pc.uncounted) := by
    rw [hk] at hcounted
    rw [Nat.mul_comm,← Nat.add_assoc]
    exact_mod_cast hcounted
  rw [h.numbered,hlen,count_slots _ _ (by omega) cfg.prompts_pos,if_pos ⟨hT,by omega⟩]

/-- A fresh run over the buffer the trainer allocates fills the targets one after
the other, runs at most `a + 1` targets ahead, and is never refused. -/
theorem targets_accounted {b : ReplayBuffer (Trajectory π)} (hage : 1 ≤ cfg.maxTrajectoryAgeSteps)
    (hb : ReplayBuffer.create (cfg.numPromptsPerStep * cfg.maxTrajectoryAgeSteps * 2) = .ok b)
    {w : World π} (h : Reach (machine cfg dataloader b) noStop w) :
    (w.history.appended.map fun x => x.entry.target).Pairwise (· ≤ ·) ∧
    ((acknowledged w).length : ℤ) =
      (w.collector.nextTarget - cfg.startStep) * cfg.numPromptsPerStep +
        w.collector.groupsForTarget ∧
    w.collector.groupsForTarget < cfg.numPromptsPerStep ∧
    (∀ T : ℤ, cfg.startStep ≤ T → T < w.collector.nextTarget →
      (w.history.appended.map fun x => x.entry.target).count T = cfg.numPromptsPerStep) ∧
    w.collector.nextTarget ≤ w.collector.weightVersion + cfg.maxTrajectoryAgeSteps + 1 ∧
    w.buffer.size ≤ (cfg.maxTrajectoryAgeSteps + 1) * cfg.numPromptsPerStep ∧
    ∀ f target, w.collector.pc = .adding f target →
      (w.buffer.add (Collector.groupBatch cfg f) f.genVersion target).1 = .success := by
  have hfresh : b.Columns [] ∧
      (b.maxSize : ℤ) = cfg.numPromptsPerStep * cfg.maxTrajectoryAgeSteps * 2 := by
    simp only [ReplayBuffer.create] at hb
    split_ifs at hb with hle
    obtain rfl := Except.ok.inj hb
    have hnonneg : (0 : ℤ) ≤ cfg.numPromptsPerStep * cfg.maxTrajectoryAgeSteps * 2 := by omega
    exact ⟨⟨rfl,rfl,rfl⟩,Int.toNat_of_nonneg hnonneg⟩
  obtain ⟨hv,hf⟩ := accounted h
  obtain ⟨m,hq⟩ := queued hfresh.1 h
  have hone := Pc.uncounted_le w.collector.pc
  have hcounted := hf.counted
  refine ⟨?_,?_,hf.underway,fun T => hf.count_target,?_,size_le hq hv hf,?_⟩
  · rw [hf.numbered]
    exact slots_sorted _ _ _
  · have hlen : (acknowledged w).length = w.history.appended.length - w.collector.pc.uncounted := by
      simp [acknowledged]
    have hnonneg : 0 ≤ (w.collector.nextTarget - cfg.startStep) * (cfg.numPromptsPerStep : ℤ) :=
      mul_nonneg (by have := hf.opened; omega) (by omega)
    omega
  · rcases hf.near with hnear | ⟨-,-,hnext⟩
    · unfold Collector.Near at hnear
      omega
    · omega
  · intro f target hp
    have hlt := size_lt_of_adding hq hv hf hp
    have hmax := buffer_maxSize h
    have hroom : (cfg.maxTrajectoryAgeSteps + 1) * cfg.numPromptsPerStep ≤ b.maxSize := by
      have hmul : cfg.numPromptsPerStep * 1 ≤ cfg.numPromptsPerStep * cfg.maxTrajectoryAgeSteps :=
        Nat.mul_le_mul_left _ hage
      have hcomm : (cfg.maxTrajectoryAgeSteps + 1) * cfg.numPromptsPerStep =
          cfg.numPromptsPerStep * cfg.maxTrajectoryAgeSteps + cfg.numPromptsPerStep := by ring
      have hsize : b.maxSize = cfg.numPromptsPerStep * cfg.maxTrajectoryAgeSteps * 2 := by
        exact_mod_cast hfresh.2
      omega
    by_cases hfull : (w.buffer.add (Collector.groupBatch cfg f) f.genVersion target).1 = .full
    · have hle := (ReplayBuffer.add_full_iff _ _ _ _).mp hfull
      simp only [ReplayBuffer.size] at hlt
      omega
    · cases hs : (w.buffer.add (Collector.groupBatch cfg f) f.genVersion target).1 with
      | success => rfl
      | full => exact absurd hs hfull

def pairConfig : CollectorConfig := ⟨1,2,1,20,false,0,by decide,by decide⟩

def pairLoader : Dataloader ℕ := fun k => some [2 * k,2 * k + 1]

/-- The first batch is enqueued and sampled, the second one is half enqueued. -/
def pairSchedule : List Event :=
  [.wake,.pullDone,.rolloutDone none,.bufferAdd,.addReply,.bufferAdd,.addReply,
    .trainerSample,.pullDone,.rolloutDone none,.bufferAdd]

theorem targets_accounted_pair :
    ((run (machine pairConfig pairLoader ⟨4,[],[],[],-1⟩) noStopCheck
      (start pairConfig ⟨4,[],[],[],-1⟩) pairSchedule).map fun w =>
        (w.collector.nextTarget,w.history.appended.length,w.buffer.size)) = some (1,3,1) ∧
    ∀ w, run (machine pairConfig pairLoader ⟨4,[],[],[],-1⟩) noStopCheck
      (start pairConfig ⟨4,[],[],[],-1⟩) pairSchedule = some w →
      ((acknowledged w).length : ℤ) = (w.collector.nextTarget - 0) * 2 + w.collector.groupsForTarget ∧
        w.buffer.size ≤ 4 := by
  refine ⟨by decide,fun w hw => ?_⟩
  have hstart : Reach (machine pairConfig pairLoader ⟨4,[],[],[],-1⟩) noStop
      (start pairConfig ⟨4,[],[],[],-1⟩) := .start rfl
  have hreach := reach_of_run noStop_of_check hstart hw
  obtain ⟨-,hcount,-,-,-,hsize,-⟩ :=
    targets_accounted (b := ⟨4,[],[],[],-1⟩) (by decide) rfl hreach
  exact ⟨hcount,hsize⟩

end World
end AsyncGrpo
end DockyardRL
