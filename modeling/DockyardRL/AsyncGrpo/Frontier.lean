import DockyardRL.AsyncGrpo.Accounting

/-! The checkpoint frontier. The loop's cursor is the live position of the
dataloader, taken whenever a batch leaves `_enqueue_groups`; every batch given up
before that is skipped. The collector refines an intake of numbered prompts. -/
namespace DockyardRL
namespace AsyncGrpo

open Transition

variable {π : Type*}

namespace Pc

def position : Pc π → Option ℕ
  | .generating _ _ => some 0
  | .scoring f | .adding f _ | .retrying f _ | .added f _ .full => some f.group
  | .added f _ .success => some (f.group + 1)
  | _ => none

/-- The batch in hand is the pulled `batch`, with a valid group index while enqueueing. -/
def Carries (n : ℕ) (batch : List π) : Pc π → Prop
  | .generating b _ => b = batch
  | .scoring f => f.repeatedBatch = Collector.repeatInterleave n batch ∧ f.group = 0
  | .adding f _ | .retrying f _ | .added f _ _ =>
    f.repeatedBatch = Collector.repeatInterleave n batch ∧ f.group < batch.length
  | _ => True

end Pc

namespace Collector

variable (cfg : CollectorConfig)

@[simp] theorem length_repeatInterleave (n : ℕ) (batch : List π) :
    (repeatInterleave n batch).length = n * batch.length := by
  induction batch with
  | nil => rfl
  | cons p batch ih =>
    rw [repeatInterleave,List.flatMap_cons,List.length_append,List.length_replicate,← repeatInterleave,
      ih,List.length_cons,Nat.mul_succ,Nat.add_comm]

theorem numGroups_eq {f : Flight π} {batch : List π}
    (h : f.repeatedBatch = repeatInterleave cfg.numGenerationsPerPrompt batch) :
    numGroups cfg f = batch.length := by
  rw [numGroups,h,length_repeatInterleave,Nat.mul_div_cancel_left _ cfg.generations_pos]

theorem slice_repeatInterleave (n : ℕ) (batch : List π) {g : ℕ} (hg : g < batch.length) :
    ((repeatInterleave n batch).drop (g * n)).take n = List.replicate n batch[g] := by
  induction batch generalizing g with
  | nil => simp at hg
  | cons p batch ih =>
    have hcons : repeatInterleave n (p :: batch) = List.replicate n p ++ repeatInterleave n batch := by
      rw [repeatInterleave,List.flatMap_cons,← repeatInterleave]
    rw [hcons]
    cases g with
    | zero => simp
    | succ g =>
      have hlen : (List.replicate n p).length = n := List.length_replicate
      have hdrop : (List.replicate n p ++ repeatInterleave n batch).drop ((g + 1) * n) =
          (repeatInterleave n batch).drop (g * n) := by
        rw [Nat.succ_mul,Nat.add_comm,← List.drop_drop,List.drop_left' hlen]
      rw [hdrop,List.getElem_cons_succ]
      exact ih (by simpa using hg)

theorem groupBatch_eq {f : Flight π} {batch : List π}
    (h : f.repeatedBatch = repeatInterleave cfg.numGenerationsPerPrompt batch)
    (hg : f.group < batch.length) :
    groupBatch cfg f = List.replicate cfg.numGenerationsPerPrompt batch[f.group] := by
  rw [groupBatch,h]
  exact slice_repeatInterleave _ _ hg

end Collector

namespace World

variable (cfg : CollectorConfig) (dataloader : Dataloader π)

/-- What `get_dataloader_state` returns, `None` being the beginning. -/
def cursor (w : World π) : ℕ := w.collector.enqueuedDataloaderState.getD 0

def promptsAt (k : ℕ) : ℕ := ((dataloader k).getD []).length

def intakeOf (c : Collector π) (h : History π) : Intake where
  drawn := c.pulls
  position := c.pc.position
  kept := h.appended.map fun x => (x.batch,x.group)
  lost := h.abandoned
  cursor := c.enqueuedDataloaderState.getD 0

def intake (w : World π) : Intake := intakeOf w.collector w.history

/-- The batch in hand is the one pulled last. -/
def InHand (c : Collector π) : Prop :=
  c.pc.position ≠ none → 0 < c.pulls ∧ ∃ batch, dataloader (c.pulls - 1) = some batch ∧
    c.pc.Carries cfg.numGenerationsPerPrompt batch

/-- Accepted groups hold the samples of their prompt. -/
def RowsSampled (h : History π) : Prop :=
  ∀ x ∈ h.appended, ∃ batch p, dataloader x.batch = some batch ∧ batch[x.group]? = some p ∧
    x.entry.trajectory = List.replicate cfg.numGenerationsPerPrompt p

theorem promptsAt_eq {dataloader : Dataloader π} {k : ℕ} {batch : List π} (h : dataloader k = some batch) :
    promptsAt dataloader k = batch.length := by
  rw [promptsAt,h,Option.getD_some]

theorem loopTop_intake (c : Collector π) (h : History π) :
    intakeOf (c.loopTop cfg) h = { intakeOf c h with position := none } ∧
      InHand cfg dataloader (c.loopTop cfg) := by
  obtain ⟨p,hp,⟨rfl,-⟩ | rfl | ⟨rfl,-⟩⟩ := Collector.loopTop_spec cfg c
  · rw [hp]; exact ⟨rfl,fun hpos => absurd rfl hpos⟩
  · rw [hp]; exact ⟨rfl,fun hpos => absurd rfl hpos⟩
  · rw [hp]; exact ⟨rfl,fun hpos => absurd rfl hpos⟩

theorem finishBatch_intake (c : Collector π) (h : History π) :
    intakeOf (c.finishBatch cfg) h =
        { intakeOf c h with position := none, cursor := c.pulls } ∧
      InHand cfg dataloader (c.finishBatch cfg) := by
  obtain ⟨heq,hhand⟩ := loopTop_intake cfg dataloader
    { c with health := c.health.recordSuccess, enqueuedDataloaderState := some c.pulls } h
  exact ⟨heq,hhand⟩

variable {cfg} {dataloader}

theorem enqueueGroup_intake {c : Collector π} {f : Flight π} {batch : List π} (h : History π)
    (hpulls : 0 < c.pulls) (hbatch : dataloader (c.pulls - 1) = some batch)
    (hf : f.repeatedBatch = Collector.repeatInterleave cfg.numGenerationsPerPrompt batch)
    (hg : f.group ≤ batch.length) :
    Relation.ReflTransGen (Intake.Move (promptsAt dataloader))
        { intakeOf c h with position := some f.group } (intakeOf (c.enqueueGroup cfg f) h) ∧
      InHand cfg dataloader (c.enqueueGroup cfg f) := by
  have hnum := Collector.numGroups_eq cfg hf
  rcases Collector.enqueueGroup_spec cfg c f with ⟨hlt,he⟩ | ⟨hge,he⟩
  · rw [he]
    exact ⟨.refl,fun _ => ⟨hpulls,batch,hbatch,hf,hnum ▸ hlt⟩⟩
  · obtain ⟨heq,hhand⟩ := finishBatch_intake cfg dataloader c h
    have hsize : promptsAt dataloader (c.pulls - 1) = f.group := by
      rw [promptsAt_eq hbatch]
      omega
    have hclose := @Intake.Move.close (promptsAt dataloader)
      { intakeOf c h with position := some f.group } f.group rfl
    simp only [intakeOf,hsize,Intake.items_self,List.append_nil] at hclose
    rw [he,heq]
    exact ⟨.single hclose,hhand⟩

theorem failed_intake {c : Collector π} {g : ℕ} {batch : List π} (h : History π)
    (hpos : c.pc.position = some g) (hbatch : dataloader (c.pulls - 1) = some batch)
    (stage : String) (exn : Exn) {backoff : Pc π}
    (hb : backoff = .generationBackoff ∨ backoff = .scoringBackoff) :
    Intake.Move (promptsAt dataloader) (intakeOf c h)
        (intakeOf (c.failed cfg stage exn backoff)
          ⟨h.appended,h.abandoned ++ Intake.items (c.pulls - 1) g batch.length⟩) ∧
      InHand cfg dataloader (c.failed cfg stage exn backoff) := by
  have hdrop := @Intake.Move.drop (promptsAt dataloader) (intakeOf c h) g hpos
  have hsize : promptsAt dataloader (intakeOf c h).drawn.pred = batch.length := promptsAt_eq hbatch
  have hidle : backoff.position = none := by
    rcases hb with rfl | rfl
    · rfl
    · rfl
  obtain ⟨s,p,hf,hcases⟩ := Collector.failed_spec cfg c stage exn backoff
  have hp : p.position = none := by
    rcases hcases with ⟨-,rfl⟩ | ⟨-,rfl⟩
    · exact hidle
    · rfl
  rw [hf]
  refine ⟨?_,fun hne => absurd hp hne⟩
  simp only [Nat.pred_eq_sub_one] at hsize
  rw [hsize] at hdrop
  simp only [intakeOf,hp] at hdrop ⊢
  exact hdrop

theorem countGroup_fields (cfg : CollectorConfig) (c : Collector π) : (c.countGroup cfg).pulls = c.pulls ∧
    (c.countGroup cfg).enqueuedDataloaderState = c.enqueuedDataloaderState := by
  rcases Collector.countGroup_spec cfg c with ⟨-,hc⟩ | ⟨-,hc⟩
  · rw [hc]; exact ⟨rfl,rfl⟩
  · rw [hc]; exact ⟨rfl,rfl⟩

theorem settled_intake {c : Collector π} {f : Flight π} {target : ℤ} {status : AddStatus}
    {batch : List π} (h : History π) (hp : c.pc = .added f target status)
    (hbatch : dataloader (c.pulls - 1) = some batch) (hg : f.group < batch.length) :
    Relation.ReflTransGen (Intake.Move (promptsAt dataloader)) (intakeOf c h)
      { intakeOf c h with
        position := some (f.group + 1)
        lost := h.abandoned ++ if status = .full then [(c.pulls - 1,f.group)] else [] } := by
  cases status with
  | success =>
    have hsame : intakeOf c h = { intakeOf c h with
        position := some (f.group + 1)
        lost := h.abandoned ++ if AddStatus.success = .full then [(c.pulls - 1,f.group)] else [] } := by
      simp [intakeOf,hp,Pc.position]
    rw [← hsame]
  | full =>
    have hpos : (intakeOf c h).position = some f.group := by simp [intakeOf,hp,Pc.position]
    have hsize : f.group < promptsAt dataloader ((intakeOf c h).drawn - 1) := by
      have heq : promptsAt dataloader ((intakeOf c h).drawn - 1) = batch.length := promptsAt_eq hbatch
      omega
    exact .single (Intake.Move.lose hpos hsize)

theorem abandons_counted (cfg : CollectorConfig) (dataloader : Dataloader π) {w : World π} {f : Flight π} {target : ℤ} {status : AddStatus}
    (hp : w.collector.pc = .added f target status)
    (hdone : status = .success ∨ w.collector.stopped = true) :
    abandons cfg dataloader w .addReply =
      (if status = .full then [(w.collector.pulls - 1,f.group)] else []) ++
      (if Collector.breaks cfg (Collector.countGroup cfg w.collector) then
        Intake.items (w.collector.pulls - 1) (f.group + 1) (Collector.numGroups cfg f)
      else []) := by
  have hnot : ¬ (status = .full ∧ w.collector.stopped = false) := by
    rintro ⟨hfull,hs⟩
    rcases hdone with hd | hd
    · rw [hfull] at hd; cases hd
    · rw [hs] at hd; cases hd
  simp only [abandons,hp,if_neg hnot,currentBatch]

theorem addReplied_intake {w : World π} {f : Flight π} {target : ℤ} {status : AddStatus}
    (hp : w.collector.pc = .added f target status) (hl : InHand cfg dataloader w.collector) :
    Relation.ReflTransGen (Intake.Move (promptsAt dataloader)) (intake w)
        (intakeOf (w.collector.addReplied cfg f target status) ⟨w.history.appended,
          w.history.abandoned ++ abandons cfg dataloader w .addReply⟩) ∧
      InHand cfg dataloader (w.collector.addReplied cfg f target status) := by
  have hpos : w.collector.pc.position ≠ none := by
    rw [hp]
    cases status <;> simp [Pc.position]
  obtain ⟨hpulls,batch,hbatch,hcarries⟩ := hl hpos
  rw [hp] at hcarries
  obtain ⟨hf,hg⟩ := hcarries
  have hnum := Collector.numGroups_eq cfg hf
  obtain ⟨hcp,hcd⟩ := countGroup_fields cfg w.collector
  have hsettled := settled_intake w.history hp hbatch hg
  rcases Collector.addReplied_spec cfg w.collector f target status with
    ⟨hfull,hs,hr⟩ | ⟨hdone,hb,hr⟩ | ⟨hdone,hb,hr⟩
  · have hnone : abandons cfg dataloader w .addReply = [] := by simp [abandons,hp,hfull,hs]
    have hsame : intakeOf { w.collector with pc := .retrying f target }
        ⟨w.history.appended,w.history.abandoned ++ []⟩ = intake w := by
      simp [intake,intakeOf,hp,hfull,Pc.position]
    rw [hr,hnone,hsame]
    exact ⟨.refl,fun _ => ⟨hpulls,batch,hbatch,hf,hg⟩⟩
  · have hgiven := abandons_counted cfg dataloader hp hdone
    rw [if_pos hb,hnum] at hgiven
    obtain ⟨heq,hhand⟩ := finishBatch_intake cfg dataloader (w.collector.countGroup cfg)
      ⟨w.history.appended,w.history.abandoned ++ abandons cfg dataloader w .addReply⟩
    have hclose := @Intake.Move.close (promptsAt dataloader)
      { intakeOf w.collector w.history with
        position := some (f.group + 1)
        lost := w.history.abandoned ++
          if status = .full then [(w.collector.pulls - 1,f.group)] else [] } (f.group + 1) rfl
    simp only [intakeOf,promptsAt_eq hbatch] at hclose
    rw [hr,heq]
    refine ⟨hsettled.tail ?_,hhand⟩
    simpa only [intakeOf,hcp,hcd,hgiven,List.append_assoc] using hclose
  · have hgiven := abandons_counted cfg dataloader hp hdone
    have hgoes : ¬ Collector.breaks cfg (Collector.countGroup cfg w.collector) = true := by
      rw [hb]
      exact Bool.false_ne_true
    rw [if_neg hgoes,List.append_nil] at hgiven
    have hpulls' : 0 < (w.collector.countGroup cfg).pulls := hcp ▸ hpulls
    have hbatch' : dataloader ((w.collector.countGroup cfg).pulls - 1) = some batch := hcp ▸ hbatch
    obtain ⟨hmoves,hhand⟩ := @enqueueGroup_intake π cfg dataloader _ { f with group := f.group + 1 } batch
      ⟨w.history.appended,w.history.abandoned ++ abandons cfg dataloader w .addReply⟩
      hpulls' hbatch' hf hg
    rw [hr]
    refine ⟨hsettled.trans ?_,hhand⟩
    simpa only [intakeOf,hcp,hcd,hgiven] using hmoves

theorem generated_intake {w : World π} {batch : List π} {v : ℤ}
    (hp : w.collector.pc = .generating batch v) (hl : InHand cfg dataloader w.collector)
    (exn : Option Exn) :
    Relation.ReflTransGen (Intake.Move (promptsAt dataloader)) (intake w)
        (intakeOf (w.collector.generated cfg batch v exn) ⟨w.history.appended,
          w.history.abandoned ++ abandons cfg dataloader w (.rolloutDone exn)⟩) ∧
      InHand cfg dataloader (w.collector.generated cfg batch v exn) := by
  have hpos : w.collector.pc.position = some 0 := by rw [hp]; rfl
  obtain ⟨hpulls,batch',hbatch,hcarries⟩ := hl (by simp [hpos])
  rw [hp] at hcarries
  obtain rfl : batch = batch' := hcarries
  cases exn with
  | some exn =>
    have hgiven : abandons cfg dataloader w (.rolloutDone (some exn)) =
        Intake.items (w.collector.pulls - 1) 0 batch.length := by
      simp only [abandons,hp,currentBatch]
    obtain ⟨hmove,hhand⟩ := @failed_intake π cfg dataloader _ 0 batch w.history hpos hbatch
      "generation" exn _ (.inl rfl)
    rw [hgiven]
    exact ⟨.single hmove,hhand⟩
  | none =>
    have hgiven : abandons cfg dataloader w (.rolloutDone none) = [] := by simp only [abandons]
    have hsame : { intakeOf w.collector w.history with position := some 0 } = intake w := by
      simp only [intake,intakeOf,hpos]
    rw [hgiven,List.append_nil]
    simp only [Collector.generated]
    split_ifs
    · refine ⟨?_,fun _ => ⟨hpulls,batch,hbatch,rfl,rfl⟩⟩
      rw [← hsame]
      exact .refl
    · rw [← hsame]
      exact enqueueGroup_intake (f := ⟨_,v,0⟩) w.history hpulls hbatch rfl (Nat.zero_le _)

theorem scored_intake {w : World π} {f : Flight π} (hp : w.collector.pc = .scoring f)
    (hl : InHand cfg dataloader w.collector) (exn : Option Exn) :
    Relation.ReflTransGen (Intake.Move (promptsAt dataloader)) (intake w)
        (intakeOf (w.collector.scored cfg f exn) ⟨w.history.appended,
          w.history.abandoned ++ abandons cfg dataloader w (.scoringDone exn)⟩) ∧
      InHand cfg dataloader (w.collector.scored cfg f exn) := by
  have hpos : w.collector.pc.position = some f.group := by rw [hp]; rfl
  obtain ⟨hpulls,batch,hbatch,hcarries⟩ := hl (by simp [hpos])
  rw [hp] at hcarries
  obtain ⟨hf,hzero⟩ := hcarries
  have hnum := Collector.numGroups_eq cfg hf
  cases exn with
  | some exn =>
    have hgiven : abandons cfg dataloader w (.scoringDone (some exn)) =
        Intake.items (w.collector.pulls - 1) f.group batch.length := by
      simp only [abandons,hp,currentBatch,hnum]
    obtain ⟨hmove,hhand⟩ := @failed_intake π cfg dataloader _ f.group batch w.history hpos hbatch
      "teacher_scoring" exn _ (.inr rfl)
    rw [hgiven]
    exact ⟨.single hmove,hhand⟩
  | none =>
    have hgiven : abandons cfg dataloader w (.scoringDone none) = [] := by simp only [abandons]
    have hsame : { intakeOf w.collector w.history with position := some f.group } = intake w := by
      simp only [intake,intakeOf,hpos]
    rw [hgiven,List.append_nil,← hsame]
    exact enqueueGroup_intake w.history hpulls hbatch hf (by omega)

theorem pulled_intake {w : World π} (hp : w.collector.pc = .pulling) :
    Relation.ReflTransGen (Intake.Move (promptsAt dataloader)) (intake w)
        (intakeOf (w.collector.pulled cfg (dataloader w.collector.pulls)) ⟨w.history.appended,
          w.history.abandoned ++ abandons cfg dataloader w .pullDone⟩) ∧
      InHand cfg dataloader (w.collector.pulled cfg (dataloader w.collector.pulls)) := by
  have hpos : w.collector.pc.position = none := by rw [hp]; rfl
  have hdiscard := @Intake.Move.discard (promptsAt dataloader) (intake w) hpos
  have hskip := loopTop_intake cfg dataloader
    { w.collector with pulls := w.collector.pulls + 1 } ⟨w.history.appended,
      w.history.abandoned ++ Intake.items w.collector.pulls 0 (promptsAt dataloader w.collector.pulls)⟩
  have hdropped : Intake.Move (promptsAt dataloader) (intake w)
      (intakeOf (Collector.loopTop cfg { w.collector with pulls := w.collector.pulls + 1 })
        ⟨w.history.appended,w.history.abandoned ++
          Intake.items w.collector.pulls 0 (promptsAt dataloader w.collector.pulls)⟩) := by
    rw [hskip.1]
    simpa only [intake,intakeOf,hpos] using hdiscard
  cases hitem : dataloader w.collector.pulls with
  | none =>
    have hempty : promptsAt dataloader w.collector.pulls = 0 := by simp [promptsAt,hitem]
    have hgiven : abandons cfg dataloader w .pullDone = [] := by simp only [abandons,hp,hitem]
    rw [hempty,Intake.items_self] at hdropped
    rw [hgiven]
    exact ⟨.single hdropped,hskip.2⟩
  | some batch =>
    rw [promptsAt_eq hitem] at hdropped
    simp only [abandons,hp,hitem,Collector.pulled]
    split_ifs with hheld
    · exact ⟨.single hdropped,hskip.2⟩
    · have hdraw := @Intake.Move.draw (promptsAt dataloader) (intake w) hpos
      rw [List.append_nil]
      refine ⟨.single hdraw,fun _ => ⟨Nat.succ_pos _,batch,?_,rfl⟩⟩
      simpa using hitem

theorem steps_intake {w w' : World π} {e : Event} (hl : InHand cfg dataloader w.collector)
    (hs : Steps cfg dataloader w e w') :
    Relation.ReflTransGen (Intake.Move (promptsAt dataloader)) (intake w) (intake w') ∧
      InHand cfg dataloader w'.collector := by
  cases hs with
  | resume hp =>
    have hpos : w.collector.pc.position = none := by
      rcases hp with hp | hp | hp
      · rw [hp]; rfl
      · rw [hp]; rfl
      · rw [hp]; rfl
    obtain ⟨heq,hhand⟩ := loopTop_intake cfg dataloader w.collector w.history
    have hsame : { intakeOf w.collector w.history with position := none } = intake w := by
      simp only [intake,intakeOf,hpos]
    rw [hsame] at heq
    refine ⟨?_,hhand⟩
    rw [← heq]
    exact .refl
  | @retry f target hp =>
    obtain ⟨hpulls,batch,hbatch,hcarries⟩ := hl (by simp [hp,Pc.position])
    rw [hp] at hcarries
    refine ⟨?_,fun _ => ⟨hpulls,batch,hbatch,hcarries⟩⟩
    have hsame : intake w = intakeOf { w.collector with pc := .adding f target } w.history := by
      simp only [intake,intakeOf,hp,Pc.position]
    rw [hsame]
    exact .refl
  | pullDone hp => exact pulled_intake hp
  | rolloutDone exn hp => exact generated_intake hp hl exn
  | scoringDone exn hp => exact scored_intake hp hl exn
  | addReply hp => exact addReplied_intake hp hl
  | @addRefused f target hp =>
    obtain ⟨hpulls,batch,hbatch,hcarries⟩ := hl (by simp [hp,Pc.position])
    rw [hp] at hcarries
    refine ⟨?_,fun _ => ⟨hpulls,batch,hbatch,hcarries⟩⟩
    have hsame : intake w = intakeOf { w.collector with pc := .added f target .full } w.history := by
      simp only [intake,intakeOf,hp,Pc.position]
    rw [hsame]
    exact .refl
  | @addAccepted f target hp =>
    obtain ⟨hpulls,batch,hbatch,hcarries⟩ := hl (by simp [hp,Pc.position])
    rw [hp] at hcarries
    refine ⟨.single ?_,fun _ => ⟨hpulls,batch,hbatch,hcarries⟩⟩
    have hpos : (intake w).position = some f.group := by simp [intake,intakeOf,hp,Pc.position]
    have hsize : f.group < promptsAt dataloader ((intake w).drawn - 1) := by
      have heq : promptsAt dataloader ((intake w).drawn - 1) = batch.length := promptsAt_eq hbatch
      have hlt := hcarries.2
      omega
    have hkeep := Intake.Move.keep hpos hsize
    simpa only [intake,intakeOf,Pc.position,List.map_append,List.map_singleton,currentBatch] using hkeep
  | @deliver c rest hin => cases c <;> exact ⟨.refl,hl⟩
  | _ => exact ⟨.refl,hl⟩

theorem steps_rows {w w' : World π} {e : Event} (hl : InHand cfg dataloader w.collector)
    (hr : RowsSampled cfg dataloader w.history) (hs : Steps cfg dataloader w e w') :
    RowsSampled cfg dataloader w'.history := by
  cases hs with
  | @addAccepted f target hp =>
    obtain ⟨hpulls,batch,hbatch,hcarries⟩ := hl (by simp [hp,Pc.position])
    rw [hp] at hcarries
    obtain ⟨hf,hg⟩ := hcarries
    intro x hx
    rcases List.mem_append.mp hx with hx | hx
    · exact hr x hx
    · rw [List.mem_singleton.mp hx]
      exact ⟨batch,batch[f.group],hbatch,List.getElem?_eq_getElem hg,
        Collector.groupBatch_eq cfg hf hg⟩
  | _ => exact hr

theorem taken_in {b : ReplayBuffer (Trajectory π)} {ok : World π → Event → Prop} {w : World π}
    (h : Reach (machine cfg dataloader b) ok w) :
    Intake.Sound (promptsAt dataloader) (intake w) ∧ RowsSampled cfg dataloader w.history := by
  suffices hall : Intake.Sound (promptsAt dataloader) (intake w) ∧
      RowsSampled cfg dataloader w.history ∧ InHand cfg dataloader w.collector from
    ⟨hall.1,hall.2.1⟩
  refine h.invariant (P := fun w => Intake.Sound (promptsAt dataloader) (intake w) ∧
    RowsSampled cfg dataloader w.history ∧ InHand cfg dataloader w.collector) ?_ ?_
  · rintro w rfl
    exact ⟨.empty,fun x hx => absurd hx (by simp [start]),fun hpos => absurd rfl hpos⟩
  · rintro w e w' ⟨hsound,hrows,hhand⟩ - hstep
    have hs := steps_of_step hstep
    obtain ⟨hmoves,hhand'⟩ := steps_intake hhand hs
    exact ⟨hsound.moves hmoves,steps_rows hhand hrows hs,hhand'⟩

variable (cfg dataloader)

/-- Every prompt pulled before the cursor has its group in the buffer's intake. -/
def Frontier (w : World π) : Prop :=
  ∀ k < cursor w, ∀ batch, dataloader k = some batch → ∀ g (hg : g < batch.length),
    ∃ x ∈ w.history.appended, x.batch = k ∧ x.group = g ∧
      x.entry.trajectory = List.replicate cfg.numGenerationsPerPrompt batch[g]

def resumedLoader (k : ℕ) : Dataloader π := fun i => dataloader (k + i)

/-- The runs in which no step gives up a prompt. -/
def keepsAll : World π → Event → Prop := fun w e => abandons cfg dataloader w e = []

variable {cfg dataloader}

theorem nothing_abandoned {b : ReplayBuffer (Trajectory π)} {w : World π}
    (h : Reach (machine cfg dataloader b) (keepsAll cfg dataloader) w) : w.history.abandoned = [] := by
  refine h.invariant (P := fun w => w.history.abandoned = []) ?_ ?_
  · rintro w rfl
    rfl
  · intro w e w' hw hkeeps hstep
    have hgiven : abandons cfg dataloader w e = [] := hkeeps
    cases steps_of_step hstep with
    | pullDone => simp [hw,hgiven]
    | rolloutDone => simp [hw,hgiven]
    | scoringDone => simp [hw,hgiven]
    | addReply => simp [hw,hgiven]
    | _ => exact hw

theorem frontier_iff_kept {w : World π} (hrows : RowsSampled cfg dataloader w.history) :
    Frontier cfg dataloader w ↔
      ∀ k < cursor w, ∀ g < promptsAt dataloader k, (k,g) ∈ (intake w).kept := by
  constructor
  · intro hfrontier k hk g hg
    cases hitem : dataloader k with
    | none => simp [promptsAt,hitem] at hg
    | some batch =>
      rw [promptsAt_eq hitem] at hg
      obtain ⟨x,hx,hbatch,hgroup,-⟩ := hfrontier k hk batch hitem g hg
      exact List.mem_map.mpr ⟨x,hx,by rw [hbatch,hgroup]⟩
  · intro hkept k hk batch hitem g hg
    have hmem := hkept k hk g (by rw [promptsAt_eq hitem]; exact hg)
    obtain ⟨x,hx,hpair⟩ := List.mem_map.mp hmem
    obtain ⟨hbatch,hgroup⟩ := Prod.mk.inj hpair
    obtain ⟨batch',p,hitem',hprompt,htraj⟩ := hrows x hx
    rw [hbatch,hitem] at hitem'
    obtain rfl := Option.some.inj hitem'
    rw [hgroup,List.getElem?_eq_getElem hg] at hprompt
    obtain rfl := Option.some.inj hprompt
    exact ⟨x,hx,hbatch,hgroup,htraj⟩

/-- The cursor covers the buffer exactly while no prompt before it was given up;
what was accepted behind the cursor is yielded again; and a run that gives up
nothing keeps the frontier. -/
theorem frontier_iff {b : ReplayBuffer (Trajectory π)} {w : World π}
    (h : Reach (machine cfg dataloader b) anyStep w) :
    (Frontier cfg dataloader w ↔ ∀ y ∈ w.history.abandoned, cursor w ≤ y.1) ∧
    (∀ x ∈ w.history.appended, cursor w ≤ x.batch →
      ∃ i batch p, resumedLoader dataloader (cursor w) i = some batch ∧ cursor w + i = x.batch ∧
        batch[x.group]? = some p ∧
        x.entry.trajectory = List.replicate cfg.numGenerationsPerPrompt p) ∧
    (Reach (machine cfg dataloader b) (keepsAll cfg dataloader) w → Frontier cfg dataloader w) := by
  obtain ⟨hsound,hrows⟩ := taken_in h
  have hiff : Frontier cfg dataloader w ↔ ∀ y ∈ w.history.abandoned, cursor w ≤ y.1 :=
    (frontier_iff_kept hrows).trans hsound.covered_iff
  refine ⟨hiff,?_,?_⟩
  · intro x hx hle
    obtain ⟨batch,p,hitem,hprompt,htraj⟩ := hrows x hx
    refine ⟨x.batch - cursor w,batch,p,?_,by omega,hprompt,htraj⟩
    rw [resumedLoader,Nat.add_sub_cancel' hle]
    exact hitem
  · intro hkeeps
    rw [hiff,nothing_abandoned hkeeps]
    simp

def failedSchedule : List Event :=
  [.wake,.pullDone,.rolloutDone (some ⟨"TimeoutError","rollout timed out"⟩),.wake,.pullDone,
    .rolloutDone none,.bufferAdd,.addReply,.bufferAdd,.addReply]

theorem frontier_iff_pair :
    ((run (machine pairConfig pairLoader ⟨4,[],[],[],-1⟩) noStopCheck
      (start pairConfig ⟨4,[],[],[],-1⟩) pairSchedule).map fun w =>
        (cursor w,w.history.abandoned)) = some (1,[]) ∧
    ∀ w, run (machine pairConfig pairLoader ⟨4,[],[],[],-1⟩) noStopCheck
      (start pairConfig ⟨4,[],[],[],-1⟩) pairSchedule = some w →
      (Frontier pairConfig pairLoader w ↔ ∀ y ∈ w.history.abandoned, cursor w ≤ y.1) := by
  refine ⟨by decide,fun w hw => ?_⟩
  have hstart : Reach (machine pairConfig pairLoader ⟨4,[],[],[],-1⟩) noStop
      (start pairConfig ⟨4,[],[],[],-1⟩) := .start rfl
  have hreach := (reach_of_run noStop_of_check hstart hw).mono fun _ _ _ => trivial
  exact (frontier_iff hreach).1

theorem frontier_skips :
    ∃ w, Reach (machine pairConfig pairLoader ⟨4,[],[],[],-1⟩) noStop w ∧ cursor w = 2 ∧
      pairLoader 0 = some [0,1] ∧ ¬ Frontier pairConfig pairLoader w := by
  have hrun : (run (machine pairConfig pairLoader ⟨4,[],[],[],-1⟩) noStopCheck
      (start pairConfig ⟨4,[],[],[],-1⟩) failedSchedule).map (fun w =>
        (cursor w,w.history.appended.map fun x => (x.batch,x.group))) =
      some (2,[(1,0),(1,1)]) := by
    decide
  obtain ⟨w,hw,hstate⟩ := Option.map_eq_some_iff.mp hrun
  obtain ⟨hcursor,happended⟩ := Prod.mk.inj hstate
  refine ⟨w,reach_of_run noStop_of_check (.start rfl) hw,hcursor,rfl,fun hfrontier => ?_⟩
  obtain ⟨x,hx,hbatch,hgroup,-⟩ := hfrontier 0 (by omega) [0,1] rfl 0 (by decide)
  have hmem : (x.batch,x.group) ∈ w.history.appended.map fun x => (x.batch,x.group) :=
    List.mem_map_of_mem hx
  rw [happended,hbatch,hgroup] at hmem
  exact absurd hmem (by decide)

end World
end AsyncGrpo
end DockyardRL
