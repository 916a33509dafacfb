import DockyardRL.Rollouts.BatchTurn

/-! Logs that samples hold by reference. Where no two samples hold the same list, a turn is that of
samples with logs of their own; where two do, the log of each gets the messages of both. -/
namespace DockyardRL
namespace Rollouts

open Gather SharedLists

variable {ι R : Type}

section Reading

variable {s : SharedBatch ι R} {n g : ℕ}

/-- Every one of `n` samples has a row and a log. -/
structure SharedBatch.Held (s : SharedBatch ι R) (n : ℕ) : Prop where
  logs : s.logs.length = n
  rows : s.rows.Indexed n

theorem batch_at {y : Sample ι R} {log : ℕ} (hy : s.rows.samples[g]? = some y)
    (hlog : s.logs[g]? = some log) :
    s.batch.samples[g]? = some { y with messageLog := s.contents log } := by
  unfold SharedBatch.batch
  rw [List.getElem?_zipWith,hy,hlog]

theorem SharedBatch.Held.exists_at (h : s.Held n) (hg : g < n) :
    ∃ y log, s.rows.samples[g]? = some y ∧ s.logs[g]? = some log :=
  ⟨_,_,List.getElem?_eq_getElem (h.rows.samples.symm ▸ hg),
    List.getElem?_eq_getElem (h.logs.symm ▸ hg)⟩

theorem SharedBatch.Held.batch (h : s.Held n) : s.batch.Indexed n where
  samples := by
    unfold SharedBatch.batch
    rw [List.length_zipWith,h.rows.samples,h.logs,Nat.min_self]
  nodup := h.rows.nodup
  within := h.rows.within
  components := h.rows.components

theorem SharedBatch.Held.batch_eq (h : s.Held n) (hread : ∀ (g : ℕ) (y : Sample ι R) (log : ℕ),
    s.rows.samples[g]? = some y → s.logs[g]? = some log → s.contents log = y.messageLog) : s.batch = s.rows := by
  suffices hsamples : s.batch.samples = s.rows.samples by
    show { s.rows with samples := s.batch.samples } = s.rows
    rw [hsamples]
  refine List.ext_getElem? fun g => ?_
  by_cases hg : g < n
  · obtain ⟨y,log,hy,hlog⟩ := h.exists_at hg
    rw [batch_at hy hlog,hy,hread g y log hy hlog]
  · rw [List.getElem?_eq_none (by rw [h.batch.samples]; omega),
      List.getElem?_eq_none (by rw [h.rows.samples]; omega)]

theorem length_activeLogs (h : s.Held n) : s.activeLogs.length = s.rows.activeIndices.length :=
  length_gather (h.logs.symm ▸ h.rows.within)

theorem activeLogs_at (h : s.Held n) {p : ℕ} (hp : p < s.rows.activeIndices.length) :
    s.activeLogs[p]? = s.logs[s.rows.activeIndices[p]]? := by
  rw [SharedBatch.activeLogs,getElem?_gather (h.logs.symm ▸ h.rows.within),
    List.getElem?_eq_getElem hp,Option.bind_some]

theorem nodup_activeLogs (h : s.Held n) (hlogs : s.logs.Nodup) : s.activeLogs.Nodup := by
  refine List.Nodup.filterMap (fun g g' log hg hg' => ?_) h.rows.nodup
  have hlt := (List.getElem?_eq_some_iff.mp hg).1
  exact (List.getElem?_inj hlt hlogs).mp (Eq.trans hg (Eq.symm hg'))

theorem notMem_activeLogs (hlogs : s.logs.Nodup) {log : ℕ} (hlog : s.logs[g]? = some log)
    (hg : g ∉ s.rows.activeIndices) : log ∉ s.activeLogs := by
  intro hmem
  obtain ⟨g',hg',hlog'⟩ := List.mem_filterMap.mp hmem
  have hlt := (List.getElem?_eq_some_iff.mp hlog).1
  rw [(List.getElem?_inj hlt hlogs).mp (hlog.trans (Eq.symm hlog'))] at hg
  exact hg hg'

end Reading

section Turn

variable {cfg : RolloutConfig} {world : World ι R} {s next : SharedBatch ι R} {n g : ℕ}
  {responses : Responses}

theorem responses_spec {b : Batch ι R} (hb : b.Indexed n) (h : b.responses cfg world = .ok responses) :
    responses.generatedIds.length = b.activeIndices.length ∧
      responses.messageLogs = List.zipWith (fun log generated =>
        log ++ [assistantMessage cfg generated]) (b.active.map Sample.messageLog)
          responses.generatedIds := by
  obtain ⟨outputs,_,h⟩ := Fallible.bind_eq_ok.mp h
  obtain ⟨generatedIds,hgenerated,h⟩ := Fallible.bind_eq_ok.mp h
  obtain rfl := Except.ok.inj h
  refine ⟨?_,rfl⟩
  rw [← (Fallible.mapM_eq_ok.mp hgenerated).length_eq,List.length_range]
  show (((b.active.map Sample.messageLog).map tokensOf).map List.length).length = _
  rw [List.length_map,List.length_map,List.length_map,length_active hb]

/-- What the environments are shown when no two samples hold the same list. -/
theorem answered_eq (h : s.Held n) (hlogs : s.logs.Nodup)
    (hresponses : s.batch.responses cfg world = .ok responses) :
    s.activeLogs.map (s.answered cfg responses) = responses.messageLogs := by
  obtain ⟨hlength,hmessages⟩ := responses_spec h.batch hresponses
  have hactive := length_active h.batch
  rw [hmessages]
  refine List.ext_getElem? fun p => ?_
  by_cases hp : p < s.rows.activeIndices.length
  · obtain ⟨y,log,hy,hlog⟩ := h.exists_at (h.rows.within _ (List.getElem_mem hp))
    have hlogAt := (activeLogs_at h hp).trans hlog
    have hx := (active_at h.batch hp).trans (batch_at hy hlog)
    have hgenerated : responses.generatedIds[p]? = some _ :=
      List.getElem?_eq_getElem (by rw [hlength]; exact hp)
    rw [List.getElem?_map,hlogAt,Option.map_some,List.getElem?_zipWith,List.getElem?_map,hx,
      Option.map_some,hgenerated]
    refine congrArg some ?_
    exact appendEach_at (nodup_activeLogs h hlogs) _ hlogAt
      ((List.getElem?_map ..).trans (congrArg (Option.map _) hgenerated))
  · rw [List.getElem?_eq_none (by rw [List.length_map,length_activeLogs h]; omega),
      List.getElem?_eq_none]
    rw [List.length_zipWith,List.length_map,hactive,hlength]
    show min s.rows.activeIndices.length s.rows.activeIndices.length ≤ p
    omega

/-- The turn of one sample, whose environment is shown what all samples have appended to its log. -/
def SharedBatch.turnFor (cfg : RolloutConfig) (world : World ι R) (s : SharedBatch ι R) (g : ℕ) :
    Option (SampleTurn ι R) :=
  s.batch.turnShown cfg world (fun responses => s.activeLogs.map (s.answered cfg responses)) g

theorem turnFor_eq (h : s.Held n) (hlogs : s.logs.Nodup) :
    s.turnFor cfg world g = s.batch.turnFor cfg world g := by
  refine Option.bind_congr fun p _ => Option.bind_congr fun x _ =>
    Option.bind_congr fun responses hsome => ?_
  cases hresponses : s.batch.responses cfg world with
  | error e =>
    rw [hresponses] at hsome
    cases hsome
  | ok responses' =>
    rw [hresponses] at hsome
    obtain rfl := Option.some.inj hsome
    beta_reduce
    rw [answered_eq h hlogs hresponses]

variable [AddCommMonoid R]

theorem turn_ok {s next : SharedBatch ι R} (h : turn cfg world s = .ok next) :
    ∃ responses settled, s.batch.responses cfg world = .ok responses ∧
      s.batch.settle cfg world responses (s.activeLogs.map (s.answered cfg responses)) = .ok settled ∧
        next = ⟨appendEach (s.answered cfg responses) s.activeLogs
          (settled.1.map TurnResult.message),s.logs,settled.2⟩ := by
  obtain ⟨responses,hresponses,h⟩ := Fallible.bind_eq_ok.mp h
  obtain ⟨settled,hsettled,h⟩ := Fallible.bind_eq_ok.mp h
  exact ⟨responses,settled,hresponses,hsettled,(Except.ok.inj h).symm⟩

theorem SharedBatch.Held.turn (h : s.Held n) (hturn : turn cfg world s = .ok next) : next.Held n := by
  obtain ⟨responses,settled,_,hsettled,rfl⟩ := turn_ok hturn
  exact ⟨h.logs,(settle_written h.batch hsettled).2.1⟩

/-- A turn appends what was generated and what was observed. -/
theorem written_messageLog (x : Sample ι R) (r : TurnResult ι R) :
    (if r.done then x.record cfg r else (x.record cfg r).carry r.outcome).messageLog =
      x.messageLog ++ [assistantMessage cfg r.generated] ++ [r.message] := by
  rw [List.append_assoc]
  split_ifs <;> rfl

/-- If no two samples hold the same list then a turn is that of samples with logs of their own. -/
theorem turn_apart (h : s.Held n) (hlogs : s.logs.Nodup) (hturn : turn cfg world s = .ok next) :
    turnApart cfg world s.batch = .ok next.batch := by
  have hheld := h.turn hturn
  obtain ⟨responses,settled,hresponses,hsettled,rfl⟩ := turn_ok hturn
  obtain ⟨hlength,_,hgenerated,hothers,hwritten⟩ := settle_written h.batch hsettled
  have hcount := (responses_spec h.batch hresponses).1
  have hbatch := hheld.batch_eq fun g y log hy hlog => by
    obtain ⟨y',log',hy',hlog'⟩ := h.exists_at (hheld.rows.samples ▸ (List.getElem?_eq_some_iff.mp hy).1)
    obtain rfl := Option.some.inj (hlog.symm.trans hlog')
    have hx := batch_at hy' hlog'
    show appendEach (s.answered cfg responses) s.activeLogs (settled.1.map TurnResult.message) log = _
    by_cases hactive : g ∈ s.rows.activeIndices
    · obtain ⟨p,hp,rfl⟩ := List.mem_iff_getElem.mp hactive
      obtain ⟨r,hr⟩ : ∃ r, settled.1[p]? = some r :=
        ⟨_,List.getElem?_eq_getElem (by rw [hlength]; exact hp)⟩
      have hlogAt := (activeLogs_at h hp).trans hlog
      have hnodup := nodup_activeLogs h hlogs
      have hassistant : (responses.generatedIds.map (assistantMessage cfg))[p]? =
          some (assistantMessage cfg r.generated) := by
        rw [List.getElem?_map,hgenerated p r hr,Option.map_some]
      have hmessage : (settled.1.map TurnResult.message)[p]? = some r.message := by
        rw [List.getElem?_map,hr,Option.map_some]
      obtain rfl := Option.some.inj (hy.symm.trans (hwritten p hp _ r hx hr))
      rw [written_messageLog,appendEach_at hnodup _ hlogAt hmessage,SharedBatch.answered,
        appendEach_at hnodup _ hlogAt hassistant]
    · have hnot := notMem_activeLogs hlogs hlog hactive
      obtain rfl := Option.some.inj (hy.symm.trans ((hothers g hactive).trans hx))
      rw [appendEach_of_notMem hnot,SharedBatch.answered,appendEach_of_notMem hnot]
  rw [hbatch]
  unfold turnApart
  rw [hresponses]
  show Except.bind (s.batch.settle cfg world responses responses.messageLogs) _ = _
  rw [← answered_eq h hlogs hresponses,hsettled]
  rfl

def SharedBatch.turnCount (s : SharedBatch ι R) (g : ℕ) : ℕ :=
  (s.rows.samples[g]?.map Sample.turnCount).getD 0

theorem count_add_count_le {p : ℕ → Bool} {g g' : ℕ} (hne : g ≠ g') (hg : p g = true)
    (hg' : p g' = true) (idx : List ℕ) : idx.count g + idx.count g' ≤ idx.countP p := by
  induction idx with
  | nil => exact le_rfl
  | cons i idx ih =>
    rw [List.count_cons,List.count_cons,List.countP_cons]
    by_cases h : i = g
    · subst h
      simp only [beq_self_eq_true,if_true,hg,beq_iff_eq,hne,if_false]
      omega
    · by_cases h' : i = g'
      · subst h'
        simp only [beq_self_eq_true,if_true,hg',beq_iff_eq,h,if_false]
        omega
      · simp only [beq_iff_eq,h,h',if_false]
        omega

/-- A turn counts one more for every active sample. -/
theorem turnCount_turn (h : s.Held n) (hturn : turn cfg world s = .ok next) (hg : g < n) :
    next.turnCount g = s.turnCount g + s.rows.activeIndices.count g := by
  obtain ⟨responses,settled,_,hsettled,rfl⟩ := turn_ok hturn
  obtain ⟨hlength,_,_,hothers,hwritten⟩ := settle_written h.batch hsettled
  obtain ⟨y,log,hy,hlog⟩ := h.exists_at hg
  have hx := batch_at hy hlog
  unfold SharedBatch.turnCount
  by_cases hactive : g ∈ s.rows.activeIndices
  · rw [List.count_eq_one_of_mem h.rows.nodup hactive,hy]
    obtain ⟨p,hp,rfl⟩ := List.mem_iff_getElem.mp hactive
    obtain ⟨r,hr⟩ : ∃ r, settled.1[p]? = some r :=
      ⟨_,List.getElem?_eq_getElem (by rw [hlength]; exact hp)⟩
    have hat : settled.2.samples[s.rows.activeIndices[p]]? = some _ := hwritten p hp _ r hx hr
    show (settled.2.samples[s.rows.activeIndices[p]]?.map Sample.turnCount).getD 0 = _
    rw [hat]
    show (if r.done then _ else _ : Sample ι R).turnCount = _
    split_ifs <;> rfl
  · rw [List.count_eq_zero_of_not_mem hactive,hothers g hactive,hx,hy]
    rfl

/-- A list that two samples hold gets the messages of both. -/
theorem turn_grows (h : s.Held n) (hturn : turn cfg world s = .ok next) {g g' log : ℕ} (hne : g ≠ g')
    (hlog : s.logs[g]? = some log) (hlog' : s.logs[g']? = some log) :
    (s.contents log).length + 2 * (next.turnCount g + next.turnCount g') ≤
      (next.contents log).length + 2 * (s.turnCount g + s.turnCount g') := by
  have hg := h.logs ▸ (List.getElem?_eq_some_iff.mp hlog).1
  have hg' := h.logs ▸ (List.getElem?_eq_some_iff.mp hlog').1
  rw [turnCount_turn h hturn hg,turnCount_turn h hturn hg']
  obtain ⟨responses,settled,hresponses,hsettled,rfl⟩ := turn_ok hturn
  have hanswers := (responses_spec h.batch hresponses).1
  have hresults := (settle_written h.batch hsettled).1
  have hlength : (appendEach (s.answered cfg responses) s.activeLogs
      (settled.1.map TurnResult.message) log).length =
        (s.contents log).length + s.activeLogs.count log + s.activeLogs.count log := by
    rw [length_appendEach _ (by rw [List.length_map,hresults,length_activeLogs h]; rfl),
      SharedBatch.answered,
      length_appendEach _ (by rw [List.length_map,hanswers,length_activeLogs h]; rfl)]
  have hcount : s.activeLogs.count log =
      s.rows.activeIndices.countP fun i => s.logs[i]? == some log := by
    rw [SharedBatch.activeLogs,gather,List.count,List.countP_filterMap]
    congr 1
    funext i
    cases s.logs[i]? <;> rfl
  have hboth := count_add_count_le (p := fun i => s.logs[i]? == some log) hne (by rw [hlog]; simp)
    (by rw [hlog']; simp) s.rows.activeIndices
  rw [← hcount] at hboth
  show _ ≤ (appendEach (s.answered cfg responses) s.activeLogs
    (settled.1.map TurnResult.message) log).length + _
  rw [hlength]
  omega

end Turn

end Rollouts
end DockyardRL
