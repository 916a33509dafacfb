import DockyardRL.Rollouts.LogObjects
import Mathlib.Algebra.Ring.Nat

/-! What a rollout has counted, paid and appended for a sample is what its own turns brought. -/
namespace DockyardRL
namespace Rollouts

variable {ι R : Type}

/-- What a rollout keeps of a sample. -/
structure Ledger (ι R : Type) where
  messageLog : List Message
  extraEnvInfo : Info ι
  stopStrings : Option (List String)
  totalReward : R
  turnCount : ℕ
  tokenCount : ℕ
  assistantTokenCount : ℕ
  envTokenCount : ℕ
  truncated : Bool

def Sample.ledger (x : Sample ι R) : Ledger ι R :=
  ⟨x.messageLog,x.extraEnvInfo,x.stopStrings,x.totalReward,x.turnCount,x.tokenCount,
    x.assistantTokenCount,x.envTokenCount,x.truncated⟩

def SampleRun.ledger (s : SampleRun ι R) : Ledger ι R :=
  ⟨s.messageLog,s.extraEnvInfo,s.stopStrings,s.totalReward,s.turnCount,s.tokenCount,
    s.assistantTokenCount,s.envTokenCount,s.truncated⟩

def Ledger.initial [Zero R] (messageLog : List Message) (extraEnvInfo : Info ι)
    (stopStrings : Option (List String)) : Ledger ι R :=
  ⟨messageLog,extraEnvInfo,stopStrings,0,0,0,0,0,false⟩

theorem tokensOf_append (log more : List Message) :
    tokensOf (log ++ more) = tokensOf log ++ tokensOf more := List.flatMap_append

theorem tokensOf_messages (cfg : RolloutConfig) (t : SampleTurn ι R) :
    (tokensOf (t.messages cfg)).length = t.generated.length + t.observed.1.length := by
  simp [tokensOf,SampleTurn.messages,assistantMessage]

section Turns

variable {cfg : RolloutConfig} {world : World ι R} {b : Batch ι R} {g : ℕ}

theorem observe_fits {inputLength generated : ℕ} {content : String} {observed : List ℕ × Bool}
    (h : observe cfg inputLength generated content = .ok observed) :
    inputLength + generated + observed.1.length ≤ cfg.maxSeqLen := by
  unfold observe at h
  dsimp only at h
  split_ifs at h with hover hnegative
  · obtain rfl := Except.ok.inj h
    dsimp only
    rw [List.length_take]
    omega
  · obtain rfl := Except.ok.inj h
    dsimp only
    omega

/-- The turn of a sample stays within the sequence. -/
theorem turnFor_fits {x : Sample ι R} {t : SampleTurn ι R} (hx : b.samples[g]? = some x)
    (h : b.turnFor cfg world g = some t) :
    (tokensOf x.messageLog).length + t.generated.length + t.observed.1.length ≤ cfg.maxSeqLen := by
  unfold Batch.turnFor Batch.turnShown at h
  obtain ⟨p,_,h⟩ := Option.bind_eq_some_iff.mp h
  obtain ⟨x',hx',h⟩ := Option.bind_eq_some_iff.mp h
  obtain rfl := Option.some.inj (hx.symm.trans hx')
  obtain ⟨responses,_,h⟩ := Option.bind_eq_some_iff.mp h
  obtain ⟨generated,_,h⟩ := Option.bind_eq_some_iff.mp h
  obtain ⟨flag,_,h⟩ := Option.bind_eq_some_iff.mp h
  obtain ⟨outcome,_,h⟩ := Option.bind_eq_some_iff.mp h
  obtain ⟨reward,_,h⟩ := Option.bind_eq_some_iff.mp h
  obtain ⟨observed,hobserved,h⟩ := Option.bind_eq_some_iff.mp h
  obtain rfl := Option.some.inj h
  cases hobserve : observe cfg (tokensOf x.messageLog).length generated.length
      outcome.observation.content with
  | error e =>
    rw [hobserve] at hobserved
    cases hobserved
  | ok observed' =>
    rw [hobserve] at hobserved
    obtain rfl := Option.some.inj hobserved
    exact observe_fits hobserve

theorem turnFor_of_notMem (h : g ∉ b.activeIndices) : b.turnFor cfg world g = none := by
  have hnone : b.position? g = none := if_neg h
  unfold Batch.turnFor Batch.turnShown
  rw [hnone]
  rfl

end Turns

section TurnsAlone

variable {cfg : RolloutConfig} {world : World ι R} {s : SampleRun ι R}

/-- The turn of a sample on its own. -/
def turnForAlone (cfg : RolloutConfig) (world : World ι R) (s : SampleRun ι R) :
    Option (SampleTurn ι R) := do
  let responses ← (generateAlone cfg world.generate s.messageLog s.stopStrings).toOption
  let responseTruncated ← (responses.truncatedAt 0).toOption
  let outcome ← outcomeFor world.taskToEnv [s.taskName] [responses.messageLogs.headD s.messageLog]
    [s.extraEnvInfo] 0
  let reward ← rewardFor world.taskToEnv [s.taskName] [responses.messageLogs.headD s.messageLog]
    [s.extraEnvInfo] 0
  let generated := responses.generatedIds.headD []
  pure ⟨generated,responseTruncated,outcome,reward,
    observeAlone cfg (tokensOf s.messageLog).length generated.length outcome.observation.content⟩

def SampleTurn.goesOn (t : SampleTurn ι R) : Bool :=
  !(t.outcome.terminated || t.responseTruncated || t.observed.2)

/-- The model answers for one sample, with no more tokens than are left of the sequence. -/
structure Generates (cfg : RolloutConfig) (generate : Generate) : Prop where
  answers : ∀ log stops, ∃ responses flag, generateAlone cfg generate log stops = .ok responses ∧
    responses.truncatedAt 0 = .ok flag
  fits : ∀ log stops responses, generateAlone cfg generate log stops = .ok responses →
    (tokensOf log).length ≤ cfg.maxSeqLen →
      (tokensOf log).length + (responses.generatedIds.headD []).length ≤ cfg.maxSeqLen

/-- The response for a sample on its own. -/
theorem generateAlone_spec {generate : Generate} {log : List Message} {stops : Option (List String)}
    {responses : Responses} (h : generateAlone cfg generate log stops = .ok responses) :
    ∃ generated, responses.generatedIds = [generated] ∧
      responses.messageLogs = [log ++ [assistantMessage cfg generated]] := by
  unfold generateAlone generateResponses at h
  obtain ⟨outputs,_,h⟩ := Fallible.bind_eq_ok.mp h
  obtain ⟨generatedIds,hgenerated,h⟩ := Fallible.bind_eq_ok.mp h
  obtain rfl := Except.ok.inj h
  have hlength : generatedIds.length = 1 := by
    rw [← (Fallible.mapM_eq_ok.mp hgenerated).length_eq,List.length_range]
    rfl
  obtain ⟨generated,rfl⟩ := List.length_eq_one_iff.mp hlength
  exact ⟨generated,rfl,rfl⟩

theorem SampleTurn.done_of_goesOn {t : SampleTurn ι R} (h : t.goesOn = true) : t.done = false := by
  unfold SampleTurn.goesOn at h
  unfold SampleTurn.done
  simp only [Bool.not_eq_true',Bool.or_eq_false_iff] at h
  rw [h.2,h.1.1,Bool.or_false]

theorem observeAlone_fits {inputLength generated : ℕ} (content : String)
    (h : inputLength + generated ≤ cfg.maxSeqLen) :
    inputLength + generated + (observeAlone cfg inputLength generated content).1.length
      ≤ cfg.maxSeqLen := by
  unfold observeAlone
  dsimp only
  split_ifs with hover hleft
  · rw [List.length_take]
    omega
  · exact h
  · dsimp only
    omega

theorem turnForAlone_fits (hgenerates : Generates cfg world.generate)
    (hlog : (tokensOf s.messageLog).length ≤ cfg.maxSeqLen) {t : SampleTurn ι R}
    (h : turnForAlone cfg world s = some t) :
    (tokensOf s.messageLog).length + t.generated.length + t.observed.1.length ≤ cfg.maxSeqLen := by
  unfold turnForAlone at h
  obtain ⟨responses,hresponses,h⟩ := Option.bind_eq_some_iff.mp h
  obtain ⟨flag,_,h⟩ := Option.bind_eq_some_iff.mp h
  obtain ⟨outcome,_,h⟩ := Option.bind_eq_some_iff.mp h
  obtain ⟨reward,_,h⟩ := Option.bind_eq_some_iff.mp h
  obtain rfl := Option.some.inj h
  cases hgenerated : generateAlone cfg world.generate s.messageLog s.stopStrings with
  | error e =>
    rw [hgenerated] at hresponses
    cases hresponses
  | ok responses' =>
    rw [hgenerated] at hresponses
    obtain rfl := Option.some.inj hresponses
    exact observeAlone_fits _ (hgenerates.fits _ _ _ hgenerated hlog)

end TurnsAlone

variable [AddCommMonoid R]

def SampleTurn.cuts (t : SampleTurn ι R) : Bool := t.responseTruncated || t.observed.2

/-- The ledger of a sample is that of its turns: one pair of messages for each, within the sequence
length, with their rewards and their tokens, no turn behind one that ended the sample, and nothing of
another sample. -/
structure Accounted (cfg : RolloutConfig) (messageLog : List Message) (extraEnvInfo : Info ι)
    (stopStrings : Option (List String)) (x : Ledger ι R) (turns : List (SampleTurn ι R)) : Prop where
  log : x.messageLog = messageLog ++ turns.flatMap (SampleTurn.messages cfg)
  count : x.turnCount = turns.length
  fits : (tokensOf x.messageLog).length ≤ cfg.maxSeqLen
  once : ∀ t ∈ turns.dropLast, t.done = false
  reward : x.totalReward = (turns.map (·.reward.total)).sum
  assistantTokens : x.assistantTokenCount = (turns.map (·.generated.length)).sum
  envTokens : x.envTokenCount = (turns.map (·.observed.1.length)).sum
  tokens : x.tokenCount = x.assistantTokenCount + x.envTokenCount
  truncated : x.truncated = turns.any SampleTurn.cuts
  stops : x.stopStrings = stopStrings ∨ ∃ t ∈ turns, x.stopStrings = t.outcome.nextStopStrings
  info : x.extraEnvInfo = extraEnvInfo ∨ ∃ t ∈ turns, x.extraEnvInfo = popEnvFlags t.outcome.metadata

section Ledgers

variable {cfg : RolloutConfig} {messageLog : List Message} {extraEnvInfo : Info ι}
  {stopStrings : Option (List String)} {x y : Ledger ι R} {turns : List (SampleTurn ι R)}

theorem accounted_initial (h : (tokensOf messageLog).length ≤ cfg.maxSeqLen) :
    Accounted cfg messageLog extraEnvInfo stopStrings
      (.initial messageLog extraEnvInfo stopStrings : Ledger ι R) [] :=
  ⟨by simp [Ledger.initial],rfl,h,fun t ht => absurd ht List.not_mem_nil,rfl,rfl,rfl,rfl,rfl,.inl rfl,
    .inl rfl⟩

theorem Accounted.turn (h : Accounted cfg messageLog extraEnvInfo stopStrings x turns)
    {t : SampleTurn ι R} (hopen : ∀ u ∈ turns, u.done = false)
    (hfits : (tokensOf x.messageLog).length + t.generated.length + t.observed.1.length ≤ cfg.maxSeqLen)
    (hlog : y.messageLog = x.messageLog ++ t.messages cfg) (hcount : y.turnCount = x.turnCount + 1)
    (hreward : y.totalReward = x.totalReward + t.reward.total)
    (hassistant : y.assistantTokenCount = x.assistantTokenCount + t.generated.length)
    (henv : y.envTokenCount = x.envTokenCount + t.observed.1.length)
    (htokens : y.tokenCount = x.tokenCount + t.generated.length + t.observed.1.length)
    (htruncated : y.truncated = (x.truncated || t.cuts))
    (hstops : y.stopStrings = x.stopStrings ∨ y.stopStrings = t.outcome.nextStopStrings)
    (hinfo : y.extraEnvInfo = x.extraEnvInfo ∨ y.extraEnvInfo = popEnvFlags t.outcome.metadata) :
    Accounted cfg messageLog extraEnvInfo stopStrings y (turns ++ [t]) := by
  refine ⟨?_,?_,?_,fun u hu => ?_,?_,?_,?_,?_,?_,?_,?_⟩
  · rw [hlog,h.log,List.flatMap_append,List.append_assoc,List.flatMap_singleton]
  · rw [hcount,h.count,List.length_append]
    rfl
  · rw [hlog,tokensOf_append,List.length_append,tokensOf_messages]
    omega
  · rw [List.dropLast_concat] at hu
    exact hopen u hu
  · rw [hreward,h.reward,List.map_append,List.sum_append,List.map_singleton,List.sum_singleton]
  · rw [hassistant,h.assistantTokens,List.map_append,List.sum_append,List.map_singleton,
      List.sum_singleton]
  · rw [henv,h.envTokens,List.map_append,List.sum_append,List.map_singleton,List.sum_singleton]
  · have htotal := h.tokens
    omega
  · rw [htruncated,h.truncated,List.any_append,List.any_cons,List.any_nil,Bool.or_false]
  · rcases hstops with hold | hnew
    · rcases h.stops with hstart | ⟨u,hu,hown⟩
      · exact .inl (hold.trans hstart)
      · exact .inr ⟨u,List.mem_append_left _ hu,hold.trans hown⟩
    · exact .inr ⟨t,List.mem_append_right _ (List.mem_singleton_self t),hnew⟩
  · rcases hinfo with hold | hnew
    · rcases h.info with hstart | ⟨u,hu,hown⟩
      · exact .inl (hold.trans hstart)
      · exact .inr ⟨u,List.mem_append_left _ hu,hold.trans hown⟩
    · exact .inr ⟨t,List.mem_append_right _ (List.mem_singleton_self t),hnew⟩

end Ledgers

section Batch

variable {cfg : RolloutConfig} {world : World ι R} {b next : Batch ι R} {n g : ℕ}

/-- The turns that a run brings for one sample. -/
def turnsOf (cfg : RolloutConfig) :
    List (World ι R) → SharedBatch ι R → ℕ → List (SampleTurn ι R)
  | [],_,_ => []
  | world :: worlds,s,g =>
    if s.rows.activeIndices.length = 0 then []
    else match turn cfg world s with
      | .error _ => []
      | .ok next => (s.turnFor cfg world g).toList ++ turnsOf cfg worlds next g

theorem sum_toList (t : Option (SampleTurn ι R)) (f : SampleTurn ι R → R) :
    (t.toList.map f).sum = (t.map f).getD 0 := by
  cases t <;> simp

/-- What a turn does to the ledger of a sample. -/
theorem advance_ledger (cfg : RolloutConfig) (x : Sample ι R) (t : SampleTurn ι R) :
    (x.advance cfg t).messageLog = x.messageLog ++ t.messages cfg ∧
    (x.advance cfg t).turnCount = x.turnCount + 1 ∧
    (x.advance cfg t).totalReward = x.totalReward + t.reward.total ∧
    (x.advance cfg t).assistantTokenCount = x.assistantTokenCount + t.generated.length ∧
    (x.advance cfg t).envTokenCount = x.envTokenCount + t.observed.1.length ∧
    (x.advance cfg t).tokenCount = x.tokenCount + t.generated.length + t.observed.1.length ∧
    (x.advance cfg t).truncated = (x.truncated || t.cuts) ∧
    ((x.advance cfg t).stopStrings = x.stopStrings ∨
      (x.advance cfg t).stopStrings = t.outcome.nextStopStrings) ∧
    ((x.advance cfg t).extraEnvInfo = x.extraEnvInfo ∨
      (x.advance cfg t).extraEnvInfo = popEnvFlags t.outcome.metadata) := by
  have hcuts : (x.truncated || t.responseTruncated || t.observed.2) = (x.truncated || t.cuts) :=
    Bool.or_assoc _ _ _
  unfold Sample.advance
  split_ifs
  · exact ⟨rfl,rfl,rfl,rfl,rfl,rfl,hcuts,.inl rfl,.inl rfl⟩
  · refine ⟨rfl,rfl,rfl,rfl,rfl,rfl,hcuts,.inr rfl,?_⟩
    unfold Sample.carry
    dsimp only
    cases popEnvFlags t.outcome.metadata with
    | none => exact .inl rfl
    | some metadata => exact .inr rfl

variable {messageLog : List Message} {extraEnvInfo : Info ι} {stopStrings : Option (List String)}

/-- What is known of a sample of the batch before a turn. -/
structure Tracked (cfg : RolloutConfig) (messageLog : List Message) (extraEnvInfo : Info ι)
    (stopStrings : Option (List String)) (b : Batch ι R) (g : ℕ) (turns : List (SampleTurn ι R)) :
    Prop where
  sample : ∃ x, b.samples[g]? = some x ∧
    Accounted cfg messageLog extraEnvInfo stopStrings x.ledger turns
  active : g ∈ b.activeIndices ↔ ∀ t ∈ turns, t.done = false
  components : ∀ name, b.component name g = (turns.map (·.reward.component name)).sum

theorem Tracked.turn (hb : b.Indexed n) (hg : g < n) {turns : List (SampleTurn ι R)}
    (h : Tracked cfg messageLog extraEnvInfo stopStrings b g turns)
    (hnext : turnApart cfg world b = .ok next) :
    Tracked cfg messageLog extraEnvInfo stopStrings next g
      (turns ++ (b.turnFor cfg world g).toList) := by
  obtain ⟨_,_,hmoved,hothers,hactive,hcomponents⟩ := turn_spec hb hnext
  obtain ⟨x,hx,haccounted⟩ := h.sample
  have hsum : ∀ name, next.component name g =
      ((turns ++ (b.turnFor cfg world g).toList).map (·.reward.component name)).sum := by
    intro name
    rw [hcomponents name g hg,h.components,List.map_append,List.sum_append,sum_toList]
  by_cases hmem : g ∈ b.activeIndices
  · obtain ⟨x',t,hx',ht,hnextAt⟩ := hmoved g hmem
    obtain rfl := Option.some.inj (hx.symm.trans hx')
    rw [ht]
    rw [ht] at hsum
    have hopen := h.active.mp hmem
    refine ⟨⟨x.advance cfg t,hnextAt,?_⟩,?_,hsum⟩
    · have hfits := turnFor_fits hx ht
      obtain ⟨hlog,hcount,hreward,hassistant,henv,htokens,htruncated,hstops,hinfo⟩ :=
        advance_ledger cfg x t
      exact haccounted.turn hopen hfits hlog hcount hreward hassistant henv htokens htruncated
        hstops hinfo
    · rw [hactive]
      constructor
      · rintro ⟨_,t',ht',hdone⟩
        obtain rfl := Option.some.inj (ht.symm.trans ht')
        intro u hu
        rcases List.mem_append.mp hu with hold | hlast
        · exact hopen u hold
        · rw [List.mem_singleton.mp hlast,hdone]
      · intro hall
        exact ⟨hmem,t,ht,hall t (List.mem_append_right _ (List.mem_singleton_self t))⟩
  · have hnone := @turnFor_of_notMem _ _ cfg world b g hmem
    rw [hnone] at hsum ⊢
    rw [Option.toList_none,List.append_nil] at hsum ⊢
    refine ⟨⟨x,(hothers g hmem).trans hx,haccounted⟩,?_,hsum⟩
    rw [← h.active,hactive]
    exact ⟨fun hin => hin.1,fun hin => absurd hin hmem⟩

theorem Tracked.run {s last : SharedBatch ι R} {worlds : List (World ι R)} (hs : s.Held n)
    (hlogs : s.logs.Nodup) (hg : g < n) {turns : List (SampleTurn ι R)}
    (h : Tracked cfg messageLog extraEnvInfo stopStrings s.batch g turns)
    (hrun : runTurns cfg worlds s = .ok last) :
    Tracked cfg messageLog extraEnvInfo stopStrings last.batch g
      (turns ++ turnsOf cfg worlds s g) := by
  induction worlds generalizing s turns with
  | nil =>
    obtain rfl := Except.ok.inj hrun
    rwa [turnsOf,List.append_nil]
  | cons world worlds ih =>
    unfold runTurns at hrun
    unfold turnsOf
    split_ifs at hrun ⊢ with hidle
    · obtain rfl := Except.ok.inj hrun
      rwa [List.append_nil]
    · obtain ⟨middle,hmiddle,hrun⟩ := Fallible.bind_eq_ok.mp hrun
      have hkept : middle.logs.Nodup := by
        obtain ⟨_,_,_,_,rfl⟩ := turn_ok hmiddle
        exact hlogs
      rw [hmiddle]
      dsimp only
      rw [← List.append_assoc,turnFor_eq hs hlogs]
      exact ih (hs.turn hmiddle) hkept (h.turn hs.batch hg (turn_apart hs hlogs hmiddle)) hrun

def InputBatch.stopsFor (input : InputBatch ι) (g : ℕ) : Option (List String) :=
  (input.stopStrings.bind (·[g]?)).getD none

theorem sample_spec {input : InputBatch ι} {x : Sample ι R} (h : input.sample g = .ok x) :
    ∃ log taskName info, input.messageLog[g]? = some log ∧ input.extraEnvInfo[g]? = some info ∧
      x = .initial (input.contents log) taskName info (input.stopsFor g) := by
  unfold InputBatch.sample at h
  obtain ⟨log,hlog,h⟩ := Fallible.bind_eq_ok.mp h
  obtain ⟨taskName,_,h⟩ := Fallible.bind_eq_ok.mp h
  obtain ⟨info,hinfo,h⟩ := Fallible.bind_eq_ok.mp h
  refine ⟨log,taskName,info,readAt_eq_ok.mp hlog,readAt_eq_ok.mp hinfo,?_⟩
  unfold InputBatch.stopsFor
  cases hstops : input.stopStrings with
  | none =>
    rw [hstops] at h
    exact (Except.ok.inj h).symm
  | some stops =>
    rw [hstops] at h
    obtain ⟨stop,hstop,h⟩ := Fallible.bind_eq_ok.mp h
    rw [Option.bind_some,readAt_eq_ok.mp hstop]
    exact (Except.ok.inj h).symm

/-- The batch before its first turn. -/
theorem start_spec {input : InputBatch ι} {start : SharedBatch ι R} (h : input.start = .ok start) :
    start.Held input.messageLog.length ∧ start.logs = input.messageLog ∧
      start.contents = input.contents ∧
      start.rows.activeIndices = List.range input.messageLog.length ∧ start.rows.multiRewards = none ∧
      ∀ g < input.messageLog.length, ∃ log taskName info, input.messageLog[g]? = some log ∧
        input.extraEnvInfo[g]? = some info ∧ start.rows.samples[g]? =
          some (.initial (input.contents log) taskName info (input.stopsFor g)) := by
  unfold InputBatch.start at h
  obtain ⟨samples,hsamples,h⟩ := Fallible.bind_eq_ok.mp h
  obtain rfl := Except.ok.inj h
  have hall := Fallible.mapM_eq_ok.mp hsamples
  have hlength : samples.length = input.messageLog.length := by
    rw [← hall.length_eq,List.length_range]
  refine ⟨⟨rfl,hlength,List.nodup_range,fun i hi => List.mem_range.mp hi,fun _ hnone => ?_⟩,rfl,rfl,rfl,
    rfl,fun g hg => ?_⟩
  · cases hnone
  · have hg' : g < samples.length := by rwa [hlength]
    have hat := hall.get (by rwa [List.length_range]) hg'
    simp only [List.get_eq_getElem,List.getElem_range] at hat
    obtain ⟨log,taskName,info,hlog,hinfo,hx⟩ := sample_spec hat
    exact ⟨log,taskName,info,hlog,hinfo,by rw [List.getElem?_eq_getElem hg',hx]⟩

/-- The turns of a sample in a whole rollout. -/
def InputBatch.turns (cfg : RolloutConfig) (worlds : List (World ι R)) (input : InputBatch ι) (g : ℕ) :
    List (SampleTurn ι R) :=
  match (input.start : Except RolloutError (SharedBatch ι R)) with
  | .error _ => []
  | .ok start => turnsOf cfg worlds start g

/-- Every sample has the account of its own turns. -/
def AccountsExact (cfg : RolloutConfig) (worlds : List (World ι R)) (input : InputBatch ι)
    (last : SharedBatch ι R) : Prop :=
  ∀ g < input.messageLog.length, ∃ log info, input.messageLog[g]? = some log ∧
    input.extraEnvInfo[g]? = some info ∧
      Tracked cfg (input.contents log) info (input.stopsFor g) last.batch g (input.turns cfg worlds g)

def InputBatch.Fits (cfg : RolloutConfig) (input : InputBatch ι) : Prop :=
  ∀ log ∈ input.messageLog, (tokensOf (input.contents log)).length ≤ cfg.maxSeqLen

instance (cfg : RolloutConfig) (input : InputBatch ι) : Decidable (input.Fits cfg) :=
  inferInstanceAs (Decidable (∀ log ∈ input.messageLog, _))

variable {input : InputBatch ι} {worlds : List (World ι R)} {last : SharedBatch ι R}

theorem tracked_start {start : SharedBatch ι R} (hstart : input.start = .ok start)
    (hfits : input.Fits cfg) (hg : g < input.messageLog.length) : ∃ log info,
      input.messageLog[g]? = some log ∧ input.extraEnvInfo[g]? = some info ∧
        Tracked cfg (input.contents log) info (input.stopsFor g) start.batch g [] := by
  obtain ⟨_,hlogs,hcontents,hactive,hmulti,hsamples⟩ := start_spec hstart
  obtain ⟨log,taskName,info,hlog,hinfo,hx⟩ := hsamples g hg
  refine ⟨log,info,hlog,hinfo,⟨⟨_,batch_at hx (hlogs ▸ hlog),?_⟩,?_,fun name => ?_⟩⟩
  · rw [hcontents]
    exact accounted_initial (hfits log (List.mem_of_getElem? hlog))
  · refine iff_of_true ?_ fun t ht => absurd ht List.not_mem_nil
    show g ∈ start.rows.activeIndices
    rw [hactive]
    exact List.mem_range.mpr hg
  · show ((start.rows.multiRewards.bind _).bind _).getD 0 = _
    rw [hmulti]
    rfl

theorem accountsExact_of_apart (hfits : input.Fits cfg)
    (hrun : runMultiTurnRollout cfg worlds input = .ok last)
    (hapart : worlds = [] ∨ input.messageLog.Nodup) : AccountsExact cfg worlds input last := by
  obtain ⟨start,hstart,hrun⟩ := Fallible.bind_eq_ok.mp hrun
  obtain ⟨hheld,hlogs,_⟩ := start_spec hstart
  intro g hg
  obtain ⟨log,info,hlog,hinfo,htracked⟩ := @tracked_start _ _ _ cfg g input start hstart hfits hg
  refine ⟨log,info,hlog,hinfo,?_⟩
  rw [InputBatch.turns,hstart]
  rcases hapart with rfl | hnodup
  · obtain rfl := Except.ok.inj hrun
    exact htracked
  · exact htracked.run hheld (hlogs ▸ hnodup) hg hrun

/-- Over a run a list that two samples hold grows with the turns of both. -/
theorem runTurns_grows {s : SharedBatch ι R} (hs : s.Held n) {g' log : ℕ} (hne : g ≠ g')
    (hlog : s.logs[g]? = some log) (hlog' : s.logs[g']? = some log)
    (hrun : runTurns cfg worlds s = .ok last) : last.Held n ∧ last.logs = s.logs ∧
      s.turnCount g' ≤ last.turnCount g' ∧
      (s.contents log).length + 2 * (last.turnCount g + last.turnCount g') ≤
        (last.contents log).length + 2 * (s.turnCount g + s.turnCount g') := by
  induction worlds generalizing s with
  | nil =>
    obtain rfl := Except.ok.inj hrun
    exact ⟨hs,rfl,le_rfl,le_rfl⟩
  | cons world worlds ih =>
    unfold runTurns at hrun
    split_ifs at hrun with hidle
    · obtain rfl := Except.ok.inj hrun
      exact ⟨hs,rfl,le_rfl,le_rfl⟩
    · obtain ⟨middle,hmiddle,hrun⟩ := Fallible.bind_eq_ok.mp hrun
      have hlogs : middle.logs = s.logs := by
        obtain ⟨_,_,_,_,rfl⟩ := turn_ok hmiddle
        rfl
      have hgrows := turn_grows hs hmiddle hne hlog hlog'
      have hcount := turnCount_turn hs hmiddle (hs.logs ▸ (List.getElem?_eq_some_iff.mp hlog').1)
      rw [← hlogs] at hlog hlog'
      obtain ⟨hheld,hkept,hmore,hlength⟩ := ih (hs.turn hmiddle) hlog hlog' hrun
      exact ⟨hheld,hkept.trans hlogs,by omega,by omega⟩

theorem Accounted.length_messageLog {messageLog : List Message} {extraEnvInfo : Info ι}
    {stopStrings : Option (List String)} {x : Ledger ι R} {turns : List (SampleTurn ι R)}
    (h : Accounted cfg messageLog extraEnvInfo stopStrings x turns) :
    x.messageLog.length = messageLog.length + 2 * x.turnCount := by
  rw [h.log,h.count,List.length_append,List.length_flatMap]
  simp [SampleTurn.messages,Nat.mul_comm]

theorem apart_of_accountsExact (hrun : runMultiTurnRollout cfg worlds input = .ok last)
    (h : AccountsExact cfg worlds input last) : worlds = [] ∨ input.messageLog.Nodup := by
  by_contra hshared
  rw [not_or,List.nodup_iff_getElem?_ne_getElem?] at hshared
  obtain ⟨hworlds,hshared⟩ := hshared
  push Not at hshared
  obtain ⟨g,g',hlt,hg',hsame⟩ := hshared
  obtain ⟨start,hstart,hrun⟩ := Fallible.bind_eq_ok.mp hrun
  obtain ⟨hheld,hlogs,hcontents,hactive,_,hsamples⟩ := start_spec hstart
  have hg : g < input.messageLog.length := hlt.trans hg'
  obtain ⟨log,info,hlog,_,htracked⟩ := h g hg
  have hlog' := hsame.symm.trans hlog
  rw [← hlogs] at hlog hlog'
  have hzero : ∀ i < input.messageLog.length, start.turnCount i = 0 := by
    intro i hi
    obtain ⟨_,_,_,_,_,hx⟩ := hsamples i hi
    unfold SharedBatch.turnCount
    rw [hx]
    rfl
  obtain ⟨hlast,hkept,_,hlength⟩ := runTurns_grows hheld (Nat.ne_of_lt hlt) hlog hlog' hrun
  have hcounted : 1 ≤ last.turnCount g' := by
    obtain ⟨world,worlds,rfl⟩ := List.exists_cons_of_ne_nil hworlds
    unfold runTurns at hrun
    rw [if_neg (by rw [hactive,List.length_range]; omega)] at hrun
    obtain ⟨middle,hmiddle,hrun⟩ := Fallible.bind_eq_ok.mp hrun
    have hcount := turnCount_turn hheld hmiddle hg'
    rw [hactive,List.count_eq_one_of_mem List.nodup_range (List.mem_range.mpr hg')] at hcount
    have hmiddleLogs : middle.logs = start.logs := by
      obtain ⟨_,_,_,_,rfl⟩ := turn_ok hmiddle
      rfl
    obtain ⟨_,_,hmore,_⟩ := runTurns_grows (hheld.turn hmiddle) (Nat.ne_of_lt hlt)
      (hmiddleLogs ▸ hlog) (hmiddleLogs ▸ hlog') hrun
    omega
  obtain ⟨x,hx,haccounted⟩ := htracked.sample
  obtain ⟨y,log'',hy,hlog''⟩ := hlast.exists_at hg
  obtain rfl := Option.some.inj (hlog''.symm.trans (hkept ▸ hlog))
  obtain rfl := Option.some.inj (hx.symm.trans (batch_at hy hlog''))
  have haccount : (last.contents log'').length = (input.contents log'').length + 2 * y.turnCount :=
    haccounted.length_messageLog
  have hown : last.turnCount g = y.turnCount := by
    unfold SharedBatch.turnCount
    rw [hy]
    rfl
  rw [hzero g hg,hzero g' hg',hcontents] at hlength
  omega

end Batch

section Alone

variable {cfg : RolloutConfig} {world : World ι R} {s next : SampleRun ι R}

theorem addAlone_run {entries : List (String × List R)} (hnodup : (entries.map Prod.fst).Nodup)
    {sums after : Dict String R} (h : entries.foldlM addAlone sums = .ok after) :
    (∀ entry ∈ entries, ∃ value, entry.2[0]? = some value ∧
      after.get? entry.1 = some ((sums.get? entry.1).getD 0 + value)) ∧
      ∀ name, name ∉ entries.map Prod.fst → after.get? name = sums.get? name := by
  have hstep : ∀ (d : Dict String R) (entry : String × List R) (next : Dict String R)
      (old : Option R), addAlone d entry = .ok next → d.get? entry.1 = old →
        ∃ sum, (∃ value, entry.2[0]? = some value ∧ sum = old.getD 0 + value) ∧
          next = d.set entry.1 sum := by
    rintro d entry next _ hnext rfl
    obtain ⟨value,hvalue,hnext⟩ := Fallible.bind_eq_ok.mp hnext
    obtain rfl := Except.ok.inj hnext
    exact ⟨_,⟨value,readAt_eq_ok.mp hvalue,rfl⟩,rfl⟩
  obtain ⟨hentries,hothers⟩ := Dict.foldlM_set_spec hstep hnodup h
  refine ⟨fun entry hentry => ?_,hothers⟩
  obtain ⟨_,⟨value,hvalue,rfl⟩,hsum⟩ := hentries entry hentry
  exact ⟨value,hvalue,hsum⟩

theorem rewardAlone_spec {sums : Dict String R} {rewards : Rewards R}
    {own : ℕ → Option (SampleReward R)} (hmatch : RewardsMatch rewards 1 own)
    {paid : R × Dict String R} (h : rewardAlone sums rewards = .ok paid) :
    ∃ reward, own 0 = some reward ∧ paid.1 = reward.total ∧
      (∀ name, name ∈ paid.2.keys ↔ name ∈ sums.keys ∨ reward.Has name) ∧
      ∀ name, (paid.2.get? name).getD 0 = (sums.get? name).getD 0 + reward.component name := by
  obtain ⟨reward,hown,htotal⟩ := turnRewards_at hmatch Nat.one_pos
  refine ⟨reward,hown,?_⟩
  cases rewards with
  | scalar values =>
    obtain ⟨value,hvalue,h⟩ := Fallible.bind_eq_ok.mp h
    obtain rfl := Except.ok.inj h
    obtain ⟨value',hvalue',hown'⟩ := hmatch.2 0 Nat.one_pos
    obtain rfl := Option.some.inj (hown.symm.trans hown')
    obtain rfl := Option.some.inj (hvalue'.symm.trans (readAt_eq_ok.mp hvalue))
    exact ⟨rfl,fun name => (iff_of_eq (or_false _)).symm,fun name => (add_zero _).symm⟩
  | named components =>
    obtain ⟨after,hafter,h⟩ := Fallible.bind_eq_ok.mp h
    obtain ⟨values,hvalues,h⟩ := Fallible.bind_eq_ok.mp h
    obtain rfl := Except.ok.inj h
    obtain ⟨hlengths,hnamed⟩ := hmatch
    obtain ⟨named,hown',hget⟩ := hnamed 0 Nat.one_pos
    obtain rfl := Option.some.inj (hown.symm.trans hown')
    obtain ⟨hentries,hothers⟩ := addAlone_run components.nodup hafter
    have hkeys : ∀ name, name ∈ named.keys ↔ name ∈ components.keys := by
      intro name
      rw [Dict.mem_keys_iff,Dict.mem_keys_iff,hget]
      cases hcolumn : components.get? name with
      | none => rfl
      | some column =>
        rw [Option.bind_some,List.getElem?_eq_getElem (by rw [hlengths _ _ hcolumn]; exact Nat.one_pos)]
        rfl
    refine ⟨?_,fun name => ?_,fun name => ?_⟩
    · have hread : values = components.entries.map fun component => component.2.getD 0 0 := by
        refine Fallible.eq_map_of_mapM hvalues fun component _ value hvalue => ?_
        rw [List.getD_eq_getElem?_getD,readAt_eq_ok.mp hvalue,Option.getD_some]
      rw [hread]
      exact Option.some.inj htotal
    · show name ∈ after.keys ↔ name ∈ sums.keys ∨ name ∈ named.keys
      rw [hkeys]
      by_cases hin : name ∈ components.entries.map Prod.fst
      · obtain ⟨entry,hentry,rfl⟩ := List.mem_map.mp hin
        obtain ⟨value,_,hat⟩ := hentries entry hentry
        exact iff_of_true (mem_keys_of_get? hat) (.inr hin)
      · rw [Dict.mem_keys_iff,hothers name hin,← Dict.mem_keys_iff]
        exact (or_iff_left hin).symm
    · show (after.get? name).getD 0 = _ + (named.get? name).getD 0
      rw [hget]
      by_cases hin : name ∈ components.entries.map Prod.fst
      · obtain ⟨entry,hentry,rfl⟩ := List.mem_map.mp hin
        obtain ⟨value,hvalue,hat⟩ := hentries entry hentry
        rw [hat,Dict.mem_entries_iff.mp hentry,Option.bind_some,hvalue]
        rfl
      · rw [hothers name hin,Dict.get?_eq_none hin]
        exact (add_zero _).symm

/-- What a turn of a sample on its own does. -/
theorem turnAlone_spec (hgenerates : Generates cfg world.generate)
    (hopen : s.terminated = false ∧ s.truncated = false ∧ s.broken = false)
    (h : turnAlone cfg world.generate world.taskToEnv s = .ok next) :
    ∃ t sums, turnForAlone cfg world s = some t ∧
      (∀ name, name ∈ sums.keys ↔ name ∈ s.rewardAccDict.keys ∨ t.reward.Has name) ∧
      (∀ name, (sums.get? name).getD 0 =
        (s.rewardAccDict.get? name).getD 0 + t.reward.component name) ∧
      next =
        { messageLog := s.messageLog ++ t.messages cfg
          taskName := s.taskName
          extraEnvInfo := if t.goesOn ∧ (popEnvFlags t.outcome.metadata).isSome then
            popEnvFlags t.outcome.metadata else s.extraEnvInfo
          stopStrings := if t.goesOn ∧ t.outcome.nextStopStrings ≠ none then
            t.outcome.nextStopStrings else s.stopStrings
          totalReward := s.totalReward + t.reward.total
          rewardAccDict := sums
          turnCount := s.turnCount + 1
          tokenCount := s.tokenCount + t.generated.length + t.observed.1.length
          assistantTokenCount := s.assistantTokenCount + t.generated.length
          envTokenCount := s.envTokenCount + t.observed.1.length
          terminated := t.outcome.terminated
          truncated := t.responseTruncated || t.observed.2
          broken := false } := by
  obtain ⟨responses,flag,hresponses,hflag⟩ := hgenerates.answers s.messageLog s.stopStrings
  obtain ⟨generated,hids,hlogs⟩ := generateAlone_spec hresponses
  unfold turnAlone at h
  dsimp only at h
  rw [hresponses] at h
  dsimp only at h
  rw [hflag] at h
  dsimp only at h
  rw [hids,hlogs,List.headD_cons,List.headD_cons] at h
  unfold stepAlone at h
  obtain ⟨feedback,hfeedback,h⟩ := Fallible.bind_eq_ok.mp h
  obtain ⟨outcome,houtcome,h⟩ := Fallible.bind_eq_ok.mp h
  obtain ⟨paid,hpaid,h⟩ := Fallible.bind_eq_ok.mp h
  have hnext := Except.ok.inj h
  obtain ⟨_,houtcomes,hmatch⟩ := calculateRewards_spec hfeedback
  obtain ⟨outcome',houtcome',hfor⟩ := houtcomes 0 Nat.one_pos
  obtain rfl := Option.some.inj (houtcome'.symm.trans (readAt_eq_ok.mp houtcome))
  obtain ⟨reward,hreward,htotal,hkeys,hsums⟩ := rewardAlone_spec hmatch hpaid
  dsimp only at hfor hreward hkeys hsums
  refine ⟨⟨generated,flag,outcome',reward,observeAlone cfg (tokensOf s.messageLog).length
    generated.length outcome'.observation.content⟩,paid.2,?_,hkeys,hsums,?_⟩
  · unfold turnForAlone
    rw [hresponses]
    show ((responses.truncatedAt 0).toOption.bind _) = _
    rw [hflag]
    show ((outcomeFor _ _ _ _ 0).bind _) = _
    rw [hlogs,List.headD_cons,hfor]
    show ((rewardFor _ _ _ _ 0).bind _) = _
    rw [hreward,hids]
    rfl
  · obtain ⟨hterminated,htruncated,hbroken⟩ := hopen
    have hgoes : ∀ a b c : Bool, (!(a || b || c)) = (!a && !(b || c)) := by decide
    rw [← hnext]
    simp only [htotal,htruncated,hbroken,SampleTurn.goesOn,SampleTurn.messages,List.append_assoc,
      List.singleton_append,hgoes,Bool.false_or]

def turnsOfAlone (cfg : RolloutConfig) : List (World ι R) → SampleRun ι R → List (SampleTurn ι R)
  | [],_ => []
  | world :: worlds,s =>
    if s.terminated || s.truncated || s.broken then []
    else match turnAlone cfg world.generate world.taskToEnv s with
      | .error _ => []
      | .ok next => (turnForAlone cfg world s).toList ++ turnsOfAlone cfg worlds next

/-- What is known of a sample on its own before a turn. -/
structure TrackedAlone (cfg : RolloutConfig) (messageLog : List Message) (extraEnvInfo : Info ι)
    (stopStrings : Option (List String)) (s : SampleRun ι R) (turns : List (SampleTurn ι R)) :
    Prop where
  sample : Accounted cfg messageLog extraEnvInfo stopStrings s.ledger turns
  kept : s.broken = false
  active : (s.terminated = false ∧ s.truncated = false) ↔ ∀ t ∈ turns, t.goesOn = true
  names : ∀ name, name ∈ s.rewardAccDict.keys ↔ ∃ t ∈ turns, t.reward.Has name
  components : ∀ name, (s.rewardAccDict.get? name).getD 0 =
    (turns.map (·.reward.component name)).sum

variable {messageLog : List Message} {extraEnvInfo : Info ι} {stopStrings : Option (List String)}

theorem TrackedAlone.turn (hgenerates : Generates cfg world.generate)
    {turns : List (SampleTurn ι R)}
    (h : TrackedAlone cfg messageLog extraEnvInfo stopStrings s turns)
    (hopen : s.terminated = false ∧ s.truncated = false)
    (hnext : turnAlone cfg world.generate world.taskToEnv s = .ok next) :
    TrackedAlone cfg messageLog extraEnvInfo stopStrings next
      (turns ++ (turnForAlone cfg world s).toList) := by
  obtain ⟨t,sums,ht,hkeys,hsums,rfl⟩ := turnAlone_spec hgenerates ⟨hopen.1,hopen.2,h.kept⟩ hnext
  have hgoes := h.active.mp hopen
  have hfits := turnForAlone_fits hgenerates h.sample.fits ht
  rw [ht,Option.toList_some]
  refine ⟨?_,rfl,?_,fun name => ?_,fun name => ?_⟩
  · refine h.sample.turn (fun u hu => SampleTurn.done_of_goesOn (hgoes u hu)) hfits rfl rfl rfl rfl
      rfl rfl ?_ ?_ ?_
    · show t.cuts = (s.truncated || t.cuts)
      rw [hopen.2,Bool.false_or]
    · show (if _ then _ else _) = _ ∨ (if _ then _ else _) = _
      split_ifs
      · exact .inr rfl
      · exact .inl rfl
    · show (if _ then _ else _) = _ ∨ (if _ then _ else _) = _
      split_ifs
      · exact .inr rfl
      · exact .inl rfl
  · have hlast : (t.outcome.terminated = false ∧ (t.responseTruncated || t.observed.2) = false) ↔
        t.goesOn = true := by
      rw [SampleTurn.goesOn,Bool.not_eq_true',Bool.or_assoc,← Bool.or_eq_false_iff]
    refine hlast.trans ?_
    constructor
    · intro hgo u hu
      rcases List.mem_append.mp hu with hold | hnew
      · exact hgoes u hold
      · rwa [List.mem_singleton.mp hnew]
    · exact fun hall => hall t (List.mem_append_right _ (List.mem_singleton_self t))
  · rw [hkeys,h.names]
    constructor
    · rintro (⟨u,hu,hhas⟩ | hhas)
      · exact ⟨u,List.mem_append_left _ hu,hhas⟩
      · exact ⟨t,List.mem_append_right _ (List.mem_singleton_self t),hhas⟩
    · rintro ⟨u,hu,hhas⟩
      rcases List.mem_append.mp hu with hold | hnew
      · exact .inl ⟨u,hold,hhas⟩
      · exact .inr (List.mem_singleton.mp hnew ▸ hhas)
  · rw [hsums,h.components,List.map_append,List.sum_append,List.map_singleton,List.sum_singleton]

theorem TrackedAlone.run {worlds : List (World ι R)}
    (hgenerates : ∀ world ∈ worlds, Generates cfg world.generate) {turns : List (SampleTurn ι R)}
    (h : TrackedAlone cfg messageLog extraEnvInfo stopStrings s turns)
    (hrun : runTurnsAlone cfg worlds s = .ok next) :
    TrackedAlone cfg messageLog extraEnvInfo stopStrings next (turns ++ turnsOfAlone cfg worlds s) := by
  induction worlds generalizing s turns with
  | nil =>
    obtain rfl := Except.ok.inj hrun
    rwa [turnsOfAlone,List.append_nil]
  | cons world worlds ih =>
    unfold runTurnsAlone at hrun
    unfold turnsOfAlone
    split_ifs at hrun ⊢ with hended
    · obtain rfl := Except.ok.inj hrun
      rwa [List.append_nil]
    · simp only [Bool.not_eq_true,Bool.or_eq_false_iff] at hended
      obtain ⟨middle,hmiddle,hrun⟩ := Fallible.bind_eq_ok.mp hrun
      rw [hmiddle]
      dsimp only
      rw [← List.append_assoc]
      exact ih (fun later hlater => hgenerates later (List.mem_cons_of_mem _ hlater))
        (h.turn (hgenerates world List.mem_cons_self) hended.1 hmiddle) hrun

/-- A sample on its own at the end of any number of turns. -/
theorem alone_accounted {taskName : String} {worlds : List (World ι R)}
    (hfits : (tokensOf messageLog).length ≤ cfg.maxSeqLen)
    (hgenerates : ∀ world ∈ worlds, Generates cfg world.generate)
    (hrun : runTurnsAlone cfg worlds (.initial messageLog taskName extraEnvInfo stopStrings) = .ok next) :
    TrackedAlone cfg messageLog extraEnvInfo stopStrings next
      (turnsOfAlone cfg worlds (.initial messageLog taskName extraEnvInfo stopStrings)) := by
  have hstart : TrackedAlone cfg messageLog extraEnvInfo stopStrings
      (.initial messageLog taskName extraEnvInfo stopStrings : SampleRun ι R) [] :=
    ⟨accounted_initial hfits,rfl,iff_of_true ⟨rfl,rfl⟩ fun t ht => absurd ht List.not_mem_nil,
      fun name => iff_of_false List.not_mem_nil fun ⟨t,ht,_⟩ => absurd ht List.not_mem_nil,
      fun name => rfl⟩
  have hdone := hstart.run hgenerates hrun
  rwa [List.nil_append] at hdone

end Alone

/-- In the batch the accounts are exact at the end of every turn if and only if no turn is made or no
two samples hold the same list for a log. For a sample on its own, whose generation answers with no more
tokens than are left, they always are. -/
theorem rollout_accounting (cfg : RolloutConfig) :
    (∀ (input : InputBatch ι) (worlds : List (World ι R)) (last : SharedBatch ι R), input.Fits cfg →
      runMultiTurnRollout cfg worlds input = .ok last →
        (AccountsExact cfg worlds input last ↔ worlds = [] ∨ input.messageLog.Nodup)) ∧
    (∀ (log : List Message) (taskName : String) (info : Info ι) (stops : Option (List String))
      (worlds : List (World ι R)) (next : SampleRun ι R),
      (tokensOf log).length ≤ cfg.maxSeqLen →
      (∀ world ∈ worlds, Generates cfg world.generate) →
      runTurnsAlone cfg worlds (.initial log taskName info stops) = .ok next →
        TrackedAlone cfg log info stops next
          (turnsOfAlone cfg worlds (.initial log taskName info stops))) :=
  ⟨fun _ _ _ hfits hrun => ⟨apart_of_accountsExact hrun,accountsExact_of_apart hfits hrun⟩,
    fun _ _ _ _ _ _ hfits hgenerates hrun => alone_accounted hfits hgenerates hrun⟩

def twelveTokens : RolloutConfig :=
  ⟨⟨0,fun content => content.toList.map Char.toNat,fun ids => String.ofList (ids.map Char.ofNat)⟩,12,
    false⟩

def oneToken : Generate := fun input => .ok
  { outputIds := List.zipWith (fun row length => row.take length ++
      if length < 12 then [104] else []) input.inputIds input.inputLengths
    unpaddedSequenceLengths := input.inputLengths.map fun length =>
      if length < 12 then length + 1 else length
    truncated := none }

def payLength : Environment ℕ ℕ := fun logs info =>
  ⟨logs.map fun _ => ⟨"environment","ok"⟩,info,none,.scalar (logs.map List.length),
    logs.map fun log => decide (4 < log.length),none⟩

def payWorld : World ℕ ℕ := ⟨oneToken,fun _ => some payLength⟩

def twoPrompts : InputBatch ℕ :=
  ⟨fun log => if log = 0 then [⟨"user","a",[97]⟩] else [⟨"system","b",[98]⟩,⟨"user","cd",[99,100]⟩],
    [0,1],["left","right"],[none,none],none⟩

def onePrompt : InputBatch ℕ := ⟨fun _ => [⟨"user","a",[97]⟩],[0],["left"],[none],none⟩

theorem generateAlone_oneToken (log : List Message) (stops : Option (List String)) :
    ∃ logs, generateAlone twelveTokens oneToken log stops =
      .ok ⟨logs,[if (tokensOf log).length < 12 then [104] else []],none⟩ := by
  unfold generateAlone generateResponses
  by_cases hroom : (tokensOf log).length < 12
  · have hread : ((tokensOf log ++ [104]).take ((tokensOf log).length + 1)).drop
        (tokensOf log).length = [104] := by
      rw [List.take_of_length_le (by simp),List.drop_left]
    refine ⟨[log ++ [assistantMessage twelveTokens [104]]],?_⟩
    simp [generationInput,oneToken,generatedPart,readAt,hroom,hread,Padding.padTo,Padding.longest,Bind.bind,
      Except.bind,pure,Except.pure,List.range_succ]
  · refine ⟨[log ++ [assistantMessage twelveTokens []]],?_⟩
    simp [generationInput,oneToken,generatedPart,readAt,hroom,Padding.padTo,Padding.longest,Bind.bind,
      Except.bind,pure,Except.pure,List.range_succ]

theorem generates_oneToken : Generates twelveTokens oneToken where
  answers log stops := by
    obtain ⟨logs,hrun⟩ := generateAlone_oneToken log stops
    exact ⟨_,false,hrun,rfl⟩
  fits log stops responses hresponses hlog := by
    obtain ⟨logs,hrun⟩ := generateAlone_oneToken log stops
    obtain rfl := Except.ok.inj (hresponses.symm.trans hrun)
    show _ + (if (tokensOf log).length < 12 then [104] else []).length ≤ 12
    split_ifs with hroom
    · exact hroom
    · exact hlog

/-- One prompt with two generations: after a turn its list holds the messages of both. -/
theorem shared_log_miscounted : Generates twelveTokens payWorld.generate ∧
    (onePrompt.repeatInterleave 2).Fits twelveTokens ∧
    ∃ last : SharedBatch ℕ ℕ,
      runMultiTurnRollout twelveTokens [payWorld] (onePrompt.repeatInterleave 2) = .ok last ∧
      last.batch.samples.map (fun x => x.messageLog.map Message.role) =
        List.replicate 2 ["user","assistant","assistant","environment","environment"] ∧
      last.batch.samples.map Sample.turnCount = [1,1] ∧
      ¬ AccountsExact twelveTokens [payWorld] (onePrompt.repeatInterleave 2) last := by
  refine ⟨generates_oneToken,by decide,_,rfl,by decide,by decide,fun h => ?_⟩
  obtain ⟨log,info,hlog,_,htracked⟩ := h 0 (by decide)
  obtain rfl := Option.some.inj hlog
  obtain ⟨x,hx,haccounted⟩ := htracked.sample
  obtain rfl := Option.some.inj hx
  exact absurd haccounted.length_messageLog (by decide)

/-- Two prompts in a batch, and the first of them on its own. -/
theorem rollout_accounting_twoPrompts :
    (∃ last : SharedBatch ℕ ℕ,
      runMultiTurnRollout twelveTokens [payWorld,payWorld,payWorld] twoPrompts = .ok last ∧
        last.batch.samples.map Sample.totalReward = [12,8] ∧
        last.batch.samples.map Sample.turnCount = [3,2] ∧
          AccountsExact twelveTokens [payWorld,payWorld,payWorld] twoPrompts last) ∧
    ∃ next : SampleRun ℕ ℕ, runTurnsAlone twelveTokens [payWorld,payWorld]
        (.initial [⟨"user","a",[97]⟩] "left" none none) = .ok next ∧ next.totalReward = 6 ∧
      TrackedAlone twelveTokens [⟨"user","a",[97]⟩] none none next
        (turnsOfAlone twelveTokens [payWorld,payWorld] (.initial [⟨"user","a",[97]⟩] "left" none none)) := by
  refine ⟨?_,_,rfl,by decide,(rollout_accounting twelveTokens).2 _ _ _ _ _ _ (by decide)
    (fun _ hworld => (List.eq_of_mem_replicate (n := 2) hworld) ▸ generates_oneToken) rfl⟩
  have hruns : (runMultiTurnRollout twelveTokens [payWorld,payWorld,payWorld] twoPrompts).map
      (fun last => (last.batch.samples.map Sample.totalReward,last.batch.samples.map Sample.turnCount)) =
        .ok ([12,8],[3,2]) := by decide +kernel
  obtain ⟨last,hlast,hcounts⟩ := Fallible.map_eq_ok.mp hruns
  rw [Prod.mk.injEq] at hcounts
  exact ⟨last,hlast,hcounts.1,hcounts.2,
    ((rollout_accounting twelveTokens).1 twoPrompts _ _ (by decide) hlast).mpr (.inr (by decide))⟩

end Rollouts
end DockyardRL
