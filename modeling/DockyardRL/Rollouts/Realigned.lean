import DockyardRL.Rollouts.AnsweredGroups

/-! What a batch of several tasks gets back: it is refused when its environments cannot answer it
together, and otherwise every sample has what its own environment returned for it. -/
namespace DockyardRL
namespace Rollouts

open Gather Grouping

variable {ι R : Type}

/-- One of everything for each of `n` samples. -/
structure EnvironmentReturn.Complete (result : EnvironmentReturn ι R) (n : ℕ) : Prop where
  observations : result.observations.length = n
  metadata : result.metadata.length = n
  nextStopStrings : ∀ stops, result.nextStopStrings = some stops → stops.length = n
  scalars : ∀ values, result.rewards = .scalar values → values.length = n
  components : ∀ components, result.rewards = .named components →
    ∀ name values, components.get? name = some values → values.length = n
  terminateds : result.terminateds.length = n
  answers : ∀ answers, result.answers = some answers → answers.length = n

/-- An environment that returns one of everything for each sample it is given. -/
def Environment.Complete (env : Environment ι R) : Prop :=
  ∀ messages infos, messages.length = infos.length → (env messages infos).Complete messages.length

def replyEnvironment (back : List Text → Info ι → Outcome ι × R) : Environment ι R :=
  fun messages infos =>
    let backs := List.zipWith back messages infos
    ⟨backs.map (·.1.observation),backs.map (·.1.metadata),some (backs.map (·.1.nextStopStrings)),
      .scalar (backs.map Prod.snd),backs.map (·.1.terminated),some (backs.map (·.1.answer))⟩

theorem complete_replyEnvironment (back : List Text → Info ι → Outcome ι × R) :
    (replyEnvironment back).Complete := by
  intro messages infos hlength
  have hmap : ∀ {α : Type} (f : Outcome ι × R → α),
      ((List.zipWith back messages infos).map f).length = messages.length := by
    intro α f
    rw [List.length_map,List.length_zipWith,hlength,Nat.min_self]
  refine ⟨hmap _,hmap _,fun _ h => ?_,fun _ h => ?_,fun _ h => ?_,hmap _,fun _ h => ?_⟩
  · cases h
    exact hmap _
  · cases h
    exact hmap _
  · cases h
  · cases h
    exact hmap _

def replyFor (taskToEnv : String → Option (Environment ι R)) (taskNames : List String)
    (messageLogs : List (List Message)) (extraEnvInfo : List (Info ι)) (taskName : String) :
    Option (EnvironmentReturn ι R) :=
  (taskToEnv taskName).map fun env =>
    env (gather (messageLogs.map fun log => log.map Message.text) (positions taskNames taskName))
      (gather extraEnvInfo (positions taskNames taskName))

def Rewards.names : Rewards R → Option (List String)
  | .scalar _ => none
  | .named components => some components.keys

/-- Why a batch is refused: a task has no environment, some rewards are named and others are not, or
the rewards of two environments have different names. -/
inductive Refused (taskToEnv : String → Option (Environment ι R)) (taskNames : List String)
    (messageLogs : List (List Message)) (extraEnvInfo : List (Info ι)) : Prop
  | noEnvironment {task : String} (hmem : task ∈ taskNames) (hnone : taskToEnv task = none)
  | mixedRewards {a b : String} {ra rb : EnvironmentReturn ι R} {names : List String}
      (ha : a ∈ taskNames) (hb : b ∈ taskNames)
      (hra : replyFor taskToEnv taskNames messageLogs extraEnvInfo a = some ra)
      (hrb : replyFor taskToEnv taskNames messageLogs extraEnvInfo b = some rb)
      (hscalar : ra.rewards.names = none) (hnamed : rb.rewards.names = some names)
  | otherNames {a b : String} {ra rb : EnvironmentReturn ι R} {names others : List String}
      {name : String} (ha : a ∈ taskNames) (hb : b ∈ taskNames)
      (hra : replyFor taskToEnv taskNames messageLogs extraEnvInfo a = some ra)
      (hrb : replyFor taskToEnv taskNames messageLogs extraEnvInfo b = some rb)
      (hnames : ra.rewards.names = some names) (hothers : rb.rewards.names = some others)
      (hin : name ∈ names) (hout : name ∉ others)

theorem exists_readAt {α : Type} {l : List α} {n p : ℕ} (h : l.length = n) (hp : p < n) :
    ∃ x, readAt l p = .ok x :=
  ⟨_,readAt_eq_ok.mpr (List.getElem?_eq_getElem (by omega))⟩

theorem EnvironmentReturn.Complete.outcome {result : EnvironmentReturn ι R} {n : ℕ}
    (h : result.Complete n) {p : ℕ} (hp : p < n) : ∃ outcome, result.outcome p = .ok outcome := by
  obtain ⟨observation,hobservation⟩ := exists_readAt h.observations hp
  obtain ⟨terminated,hterminated⟩ := exists_readAt h.terminateds hp
  obtain ⟨metadata,hmetadata⟩ := exists_readAt h.metadata hp
  unfold EnvironmentReturn.outcome
  rw [hobservation,hterminated,hmetadata]
  cases hstops : result.nextStopStrings with
  | none =>
    cases hanswers : result.answers with
    | none => exact ⟨_,rfl⟩
    | some answers =>
      obtain ⟨answer,hanswer⟩ := exists_readAt (h.answers answers hanswers) hp
      exact ⟨⟨observation,metadata,none,terminated,answer⟩,by dsimp only; rw [hanswer]; rfl⟩
  | some stops =>
    obtain ⟨stop,hstop⟩ := exists_readAt (h.nextStopStrings stops hstops) hp
    cases hanswers : result.answers with
    | none => exact ⟨⟨observation,metadata,stop,terminated,none⟩,by dsimp only; rw [hstop]; rfl⟩
    | some answers =>
      obtain ⟨answer,hanswer⟩ := exists_readAt (h.answers answers hanswers) hp
      exact ⟨⟨observation,metadata,stop,terminated,answer⟩,by dsimp only; rw [hstop,hanswer]; rfl⟩

theorem EnvironmentReturn.Complete.conforms {result : EnvironmentReturn ι R} {n : ℕ}
    (h : result.Complete n) {format : Option (List String)}
    (hnone : result.rewards.names = none ↔ format = none)
    (hnames : ∀ names, result.rewards.names = some names → ∀ own, format = some own →
      ∀ name, name ∈ names ↔ name ∈ own) : result.rewards.Conforms format n := by
  cases hrewards : result.rewards with
  | scalar values =>
    rw [hrewards] at hnone
    exact ⟨hnone.mp rfl,h.scalars values hrewards⟩
  | named components =>
    rw [hrewards] at hnone hnames
    cases hformat : format with
    | none => cases hnone.mpr hformat
    | some own =>
      exact ⟨own,rfl,hnames _ rfl own hformat,h.components components hrewards⟩

section Calculate

variable {taskToEnv : String → Option (Environment ι R)} {taskNames : List String}
  {messageLogs : List (List Message)} {extraEnvInfo : List (Info ι)}

theorem stepGroup_complete (hlogs : messageLogs.length = taskNames.length)
    (hinfos : extraEnvInfo.length = taskNames.length) {task : String} {env : Environment ι R}
    (henv : taskToEnv task = some env) (hcomplete : env.Complete) :
    ∃ reply, replyFor taskToEnv taskNames messageLogs extraEnvInfo task = some reply ∧
      reply.Complete (positions taskNames task).length ∧
      stepGroup taskToEnv (messageLogs.map fun log => log.map Message.text) extraEnvInfo
        (task,positions taskNames task) = .ok (positions taskNames task,reply) := by
  have hwithinLogs : Within (positions taskNames task)
      (messageLogs.map fun log => log.map Message.text).length := by
    rw [List.length_map,hlogs]
    exact within_positions taskNames task
  have hwithinInfos : Within (positions taskNames task) extraEnvInfo.length := by
    rw [hinfos]
    exact within_positions taskNames task
  have hlength := length_gather hwithinLogs
  refine ⟨_,by rw [replyFor,henv,Option.map_some],?_,?_⟩
  · have hreply := hcomplete _ _ (hlength.trans (length_gather hwithinInfos).symm)
    rwa [hlength] at hreply
  · unfold stepGroup
    rw [henv]
    dsimp only
    rw [mapM_readAt.mpr ⟨hwithinLogs,rfl⟩,mapM_readAt.mpr ⟨hwithinInfos,rfl⟩]
    rfl

theorem calculateRewards_of_not_refused (hlogs : messageLogs.length = taskNames.length)
    (hinfos : extraEnvInfo.length = taskNames.length)
    (hcomplete : ∀ task env, taskToEnv task = some env → env.Complete)
    (h : ¬Refused taskToEnv taskNames messageLogs extraEnvInfo) :
    ∃ feedback, calculateRewards taskToEnv taskNames messageLogs extraEnvInfo = .ok feedback := by
  have hreply : ∀ task ∈ taskNames, ∃ reply,
      replyFor taskToEnv taskNames messageLogs extraEnvInfo task = some reply ∧
        reply.Complete (positions taskNames task).length ∧
        stepGroup taskToEnv (messageLogs.map fun log => log.map Message.text) extraEnvInfo
          (task,positions taskNames task) = .ok (positions taskNames task,reply) := by
    intro task htask
    cases henv : taskToEnv task with
    | none => exact absurd (.noEnvironment htask henv) h
    | some env => exact stepGroup_complete hlogs hinfos henv (hcomplete task env henv)
  cases htasks : taskNames with
  | nil =>
    refine ⟨⟨[],.scalar []⟩,?_⟩
    simp [calculateRewards,group,Dict.empty,inOrder,SortByKey.sortByKey]
    rfl
  | cons first rest =>
    rw [← htasks]
    have hfirst : first ∈ taskNames := by rw [htasks]; exact List.mem_cons_self
    obtain ⟨given,hgiven,-,-⟩ := hreply first hfirst
    obtain ⟨feedback,hfeedback,-⟩ := @calculateRewards_of_groups ι R taskToEnv taskNames messageLogs
      extraEnvInfo given.rewards.names (by rw [htasks]; exact List.cons_ne_nil _ _) (by
        rintro ⟨task,idx⟩ hentry
        obtain ⟨htask,rfl⟩ := mem_entries_group.mp hentry
        obtain ⟨reply,hrep,hfull,hstep⟩ := hreply task htask
        refine ⟨_,hstep,fun p hp => hfull.outcome hp,hfull.conforms ⟨fun hnone => ?_,fun hnone => ?_⟩ ?_⟩
        · by_contra hnamed
          obtain ⟨names,hnames⟩ := Option.ne_none_iff_exists'.mp hnamed
          exact h (.mixedRewards htask hfirst hrep hgiven hnone hnames)
        · by_contra hnamed
          obtain ⟨names,hnames⟩ := Option.ne_none_iff_exists'.mp hnamed
          exact h (.mixedRewards hfirst htask hgiven hrep hnone hnames)
        · intro names hnames own hown name
          refine ⟨fun hin => ?_,fun hin => ?_⟩
          · by_contra hout
            exact h (.otherNames htask hfirst hrep hgiven hnames hown hin hout)
          · by_contra hout
            exact h (.otherNames hfirst htask hgiven hrep hown hnames hin hout))
    exact ⟨feedback,hfeedback⟩

theorem rewardFor_eq {i : ℕ} {task : String} (htask : taskNames[i]? = some task)
    {reply : EnvironmentReturn ι R}
    (hreply : replyFor taskToEnv taskNames messageLogs extraEnvInfo task = some reply) :
    rewardFor taskToEnv taskNames messageLogs extraEnvInfo i =
      (reply.rewardAt ((positions taskNames task).idxOf i)).toOption := by
  obtain ⟨env,henv,rfl⟩ := Option.map_eq_some_iff.mp hreply
  unfold rewardFor resultFor
  rw [htask]
  show ((taskToEnv task).bind _).bind _ = _
  rw [henv]
  rfl

theorem rewardFor_scalar {i : ℕ} {task : String} (htask : taskNames[i]? = some task)
    {reply : EnvironmentReturn ι R}
    (hreply : replyFor taskToEnv taskNames messageLogs extraEnvInfo task = some reply)
    (hnone : reply.rewards.names = none) (named : Dict String R) :
    rewardFor taskToEnv taskNames messageLogs extraEnvInfo i ≠ some (.named named) := by
  rw [rewardFor_eq htask hreply]
  unfold EnvironmentReturn.rewardAt
  cases hrewards : reply.rewards with
  | named components => rw [hrewards] at hnone; cases hnone
  | scalar values =>
    dsimp only
    cases readAt values ((positions taskNames task).idxOf i) with
    | error e => exact fun heq => by cases heq
    | ok value => exact fun heq => by cases heq

theorem rewardFor_named {i : ℕ} {task : String} (htask : taskNames[i]? = some task)
    {reply : EnvironmentReturn ι R}
    (hreply : replyFor taskToEnv taskNames messageLogs extraEnvInfo task = some reply)
    (hfull : reply.Complete (positions taskNames task).length) {names : List String}
    (hnames : reply.rewards.names = some names) :
    ∃ own : Dict String R,
      rewardFor taskToEnv taskNames messageLogs extraEnvInfo i = some (.named own) ∧
        ∀ name, name ∈ names ↔ (own.get? name).isSome := by
  have hp := List.idxOf_lt_length_iff.mpr (mem_positions.mpr htask)
  cases hrewards : reply.rewards with
  | scalar values => rw [hrewards] at hnames; cases hnames
  | named components =>
    rw [hrewards] at hnames
    obtain rfl := Option.some.inj hnames
    have hlengths := hfull.components components hrewards
    obtain ⟨own,hown,hget⟩ := rewardAt_named hrewards fun name values hvalues =>
      (hlengths name values hvalues).symm ▸ hp
    refine ⟨own,by rw [rewardFor_eq htask hreply,hown]; rfl,fun name => ?_⟩
    rw [hget,Dict.mem_keys_iff]
    cases hvalues : components.get? name with
    | none => simp
    | some values => simp [hlengths name values hvalues,hp]

theorem not_refused_of_ok (hlogs : messageLogs.length = taskNames.length)
    (hinfos : extraEnvInfo.length = taskNames.length)
    (hcomplete : ∀ task env, taskToEnv task = some env → env.Complete) {feedback : Feedback ι R}
    (h : calculateRewards taskToEnv taskNames messageLogs extraEnvInfo = .ok feedback) :
    ¬Refused taskToEnv taskNames messageLogs extraEnvInfo := by
  obtain ⟨-,houtcomes,hrewards⟩ := calculateRewards_spec h
  have hat : ∀ {task : String}, task ∈ taskNames → ∃ i < taskNames.length, taskNames[i]? = some task :=
    fun hmem => by
      obtain ⟨i,hi,heq⟩ := List.mem_iff_getElem.mp hmem
      exact ⟨i,hi,(List.getElem?_eq_getElem hi).trans (congrArg some heq)⟩
  have hfull : ∀ {task : String} {reply : EnvironmentReturn ι R},
      replyFor taskToEnv taskNames messageLogs extraEnvInfo task = some reply →
        reply.Complete (positions taskNames task).length := by
    intro task reply hreply
    obtain ⟨env,henv,-⟩ := Option.map_eq_some_iff.mp hreply
    obtain ⟨reply',hreply',hfull,-⟩ := stepGroup_complete hlogs hinfos henv (hcomplete task env henv)
    obtain rfl := Option.some.inj (hreply.symm.trans hreply')
    exact hfull
  rintro (⟨hmem,hnone⟩ | ⟨ha,hb,hra,hrb,hscalar,hnamed⟩ | ⟨ha,hb,hra,hrb,hnames,hothers,hin,hout⟩)
  · obtain ⟨i,hi,htask⟩ := hat hmem
    obtain ⟨outcome,-,houtcome⟩ := houtcomes i hi
    unfold outcomeFor resultFor at houtcome
    rw [htask] at houtcome
    change ((taskToEnv _).bind _).bind _ = _ at houtcome
    rw [hnone] at houtcome
    cases houtcome
  · obtain ⟨i,hi,htaski⟩ := hat ha
    obtain ⟨j,hj,htaskj⟩ := hat hb
    obtain ⟨own,hown,-⟩ := rewardFor_named htaskj hrb (hfull hrb) hnamed
    unfold RewardsMatch at hrewards
    cases hfeedback : feedback.rewards with
    | scalar values =>
      rw [hfeedback] at hrewards
      obtain ⟨value,-,hvalue⟩ := hrewards.2 j hj
      rw [hown] at hvalue
      cases hvalue
    | named components =>
      rw [hfeedback] at hrewards
      obtain ⟨named,hnamed',-⟩ := hrewards.2 i hi
      exact rewardFor_scalar htaski hra hscalar named hnamed'
  · obtain ⟨i,hi,htaski⟩ := hat ha
    obtain ⟨j,hj,htaskj⟩ := hat hb
    obtain ⟨own,hown,hkeys⟩ := rewardFor_named htaski hra (hfull hra) hnames
    obtain ⟨other,hother,hotherKeys⟩ := rewardFor_named htaskj hrb (hfull hrb) hothers
    unfold RewardsMatch at hrewards
    cases hfeedback : feedback.rewards with
    | scalar values =>
      rw [hfeedback] at hrewards
      obtain ⟨value,-,hvalue⟩ := hrewards.2 i hi
      rw [hown] at hvalue
      cases hvalue
    | named components =>
      rw [hfeedback] at hrewards
      obtain ⟨hlengths,hrows⟩ := hrewards
      obtain ⟨_,hown',hget⟩ := hrows i hi
      obtain rfl := SampleReward.named.inj (Option.some.inj (hown.symm.trans hown'))
      obtain ⟨_,hother',hget'⟩ := hrows j hj
      obtain rfl := SampleReward.named.inj (Option.some.inj (hother.symm.trans hother'))
      have hvalue := (hkeys _).mp hin
      rw [hget] at hvalue
      refine hout ((hotherKeys _).mpr ?_)
      rw [hget']
      cases hcolumn : components.get? _ with
      | none => rw [hcolumn] at hvalue; cases hvalue
      | some values =>
        have hlt : j < values.length := by rw [hlengths _ values hcolumn]; exact hj
        simp [hlt]

/-- A batch is refused exactly for the three reasons, and is otherwise answered with one entry of
everything for each sample, which is what the sample's own environment returned for it. -/
theorem calculateRewards_realigned (hlogs : messageLogs.length = taskNames.length)
    (hinfos : extraEnvInfo.length = taskNames.length)
    (hcomplete : ∀ task env, taskToEnv task = some env → env.Complete) :
    ((∃ e, calculateRewards taskToEnv taskNames messageLogs extraEnvInfo = .error e) ↔
      Refused taskToEnv taskNames messageLogs extraEnvInfo) ∧
    ∀ feedback, calculateRewards taskToEnv taskNames messageLogs extraEnvInfo = .ok feedback →
      feedback.outcomes.length = taskNames.length ∧
      (∀ i < taskNames.length, ∃ outcome, feedback.outcomes[i]? = some outcome ∧
        outcomeFor taskToEnv taskNames messageLogs extraEnvInfo i = some outcome) ∧
      RewardsMatch feedback.rewards taskNames.length
        (rewardFor taskToEnv taskNames messageLogs extraEnvInfo) := by
  refine ⟨⟨fun ⟨e,he⟩ => ?_,fun hrefused => ?_⟩,fun feedback h => calculateRewards_spec h⟩
  · by_contra hnot
    obtain ⟨feedback,hok⟩ := calculateRewards_of_not_refused hlogs hinfos hcomplete hnot
    rw [he] at hok
    cases hok
  · cases hcall : calculateRewards taskToEnv taskNames messageLogs extraEnvInfo with
    | error e => exact ⟨e,rfl⟩
    | ok feedback => exact absurd hrefused (not_refused_of_ok hlogs hinfos hcomplete hcall)

end Calculate

def countingEnvironment : Environment Unit ℕ :=
  replyEnvironment fun messages info => (⟨⟨"environment","done"⟩,info,none,true,none⟩,messages.length)

theorem calculateRewards_realigned_twoTasks :
    let taskToEnv : String → Option (Environment Unit ℕ) :=
      fun name => if name = "math" ∨ name = "code" then some countingEnvironment else none
    let logs : List (List Message) := [[⟨"user","1+1",[1]⟩],[],[⟨"user","2+2",[2]⟩]]
    ((∃ e, calculateRewards taskToEnv ["math","code","math"] logs [none,none,none] = .error e) ↔
      Refused taskToEnv ["math","code","math"] logs [none,none,none]) ∧
    ∀ feedback, calculateRewards taskToEnv ["math","code","math"] logs [none,none,none] = .ok feedback →
      feedback.outcomes.length = 3 ∧
      (∀ i < 3, ∃ outcome, feedback.outcomes[i]? = some outcome ∧
        outcomeFor taskToEnv ["math","code","math"] logs [none,none,none] i = some outcome) ∧
      RewardsMatch feedback.rewards 3
        (rewardFor taskToEnv ["math","code","math"] logs [none,none,none]) := by
  refine calculateRewards_realigned rfl rfl fun task env henv => ?_
  split_ifs at henv
  obtain rfl := Option.some.inj henv
  exact complete_replyEnvironment _

end Rollouts
end DockyardRL
