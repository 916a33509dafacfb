import DockyardRL.Rollouts.BatchRollout

/-! What a turn brings for one sample of the batch, and that the turn gives every active sample its own
and leaves all others as they are. -/
namespace DockyardRL
namespace Rollouts

open Gather

variable {ι R : Type}

namespace SampleReward

variable [AddCommMonoid R]

def total : SampleReward R → R
  | .scalar value => value
  | .named components => (components.entries.map Prod.snd).sum

def component (name : String) : SampleReward R → R
  | .scalar _ => 0
  | .named components => (components.get? name).getD 0

end SampleReward

def SampleReward.Has (name : String) : SampleReward R → Prop
  | .scalar _ => False
  | .named components => name ∈ components.keys

/-- What the model generated and the environment returned for one sample on one turn. -/
structure SampleTurn (ι R : Type) where
  generated : List ℕ
  responseTruncated : Bool
  outcome : Outcome ι
  reward : SampleReward R
  observed : List ℕ × Bool

namespace SampleTurn

def done (t : SampleTurn ι R) : Bool := t.observed.2 || t.outcome.terminated

def result [AddCommMonoid R] (t : SampleTurn ι R) : TurnResult ι R :=
  ⟨t.generated,t.responseTruncated,t.outcome,t.reward.total,t.observed⟩

def messages (cfg : RolloutConfig) (t : SampleTurn ι R) : List Message :=
  [assistantMessage cfg t.generated,
    ⟨t.outcome.observation.role,t.outcome.observation.content,t.observed.1⟩]

end SampleTurn

def Sample.advance [AddCommMonoid R] (cfg : RolloutConfig) (x : Sample ι R) (t : SampleTurn ι R) : Sample ι R :=
  if t.done then x.record cfg t.result else (x.record cfg t.result).carry t.outcome

namespace Batch

variable (cfg : RolloutConfig) (world : World ι R) (b : Batch ι R)

def position? (g : ℕ) : Option ℕ :=
  if g ∈ b.activeIndices then some (b.activeIndices.idxOf g) else none

/-- The turn of one sample when the environments are shown some logs: the answer of the model at its
position and that of the environment of its task at its position among the samples of that task. -/
def turnShown (shown : Responses → List (List Message)) (g : ℕ) : Option (SampleTurn ι R) := do
  let p ← b.position? g
  let x ← b.samples[g]?
  let responses ← (b.responses cfg world).toOption
  let generated ← responses.generatedIds[p]?
  let responseTruncated ← (responses.truncatedAt p).toOption
  let outcome ← outcomeFor world.taskToEnv (b.active.map Sample.taskName) (shown responses)
    (b.active.map Sample.extraEnvInfo) p
  let reward ← rewardFor world.taskToEnv (b.active.map Sample.taskName) (shown responses)
    (b.active.map Sample.extraEnvInfo) p
  let observed ← (observe cfg (tokensOf x.messageLog).length generated.length
    outcome.observation.content).toOption
  pure ⟨generated,responseTruncated,outcome,reward,observed⟩

def turnFor (g : ℕ) : Option (SampleTurn ι R) := b.turnShown cfg world Responses.messageLogs g

def component [Zero R] (b : Batch ι R) (name : String) (g : ℕ) : R :=
  ((b.multiRewards.bind (·.get? name)).bind (·[g]?)).getD 0

/-- The indices of a batch of `n` samples. -/
structure Indexed (b : Batch ι R) (n : ℕ) : Prop where
  samples : b.samples.length = n
  nodup : b.activeIndices.Nodup
  within : Within b.activeIndices n
  components : ∀ total, b.multiRewards = some total → ∀ name values,
    total.get? name = some values → values.length = n

end Batch

theorem position?_eq_some {b : Batch ι R} {g p : ℕ} : b.position? g = some p ↔
    g ∈ b.activeIndices ∧ b.activeIndices.idxOf g = p := by
  unfold Batch.position?
  split_ifs with hg <;> simp [hg]

theorem active_at {b : Batch ι R} {n : ℕ} (hb : b.Indexed n) {p : ℕ} (hp : p < b.activeIndices.length) :
    b.active[p]? = b.samples[b.activeIndices[p]]? := by
  rw [Batch.active,getElem?_gather (by rw [hb.samples]; exact hb.within),
    List.getElem?_eq_getElem hp,Option.bind_some]

theorem length_active {b : Batch ι R} {n : ℕ} (hb : b.Indexed n) : b.active.length = b.activeIndices.length :=
  length_gather (by rw [hb.samples]; exact hb.within)

section Turn

variable [AddCommMonoid R]
variable {cfg : RolloutConfig} {world : World ι R} {b next : Batch ι R} {n : ℕ}

theorem addComponents_run {idx : List ℕ} {entries : List (String × List R)}
    (hnodup : (entries.map Prod.fst).Nodup) {before total : Dict String (List R)}
    (h : entries.foldlM (addComponent idx) before = .ok total) :
    (∀ entry ∈ entries, ∃ values, before.get? entry.1 = some values ∧ total.get? entry.1 =
      some (scatter values idx (List.zipWith (· + ·) (gather values idx) entry.2))) ∧
      ∀ name, name ∉ entries.map Prod.fst → total.get? name = before.get? name := by
  have hstep : ∀ (d : Dict String (List R)) (entry : String × List R) (next : Dict String (List R))
      (old : Option (List R)), addComponent idx d entry = .ok next → d.get? entry.1 = old →
        ∃ new, (∃ values, old = some values ∧
          new = scatter values idx (List.zipWith (· + ·) (gather values idx) entry.2)) ∧
            next = d.set entry.1 new := by
    rintro d entry next _ hnext rfl
    unfold addComponent at hnext
    split at hnext
    · cases hnext
    · rename_i values hvalues
      obtain rfl := Except.ok.inj hnext
      exact ⟨_,⟨values,hvalues,rfl⟩,rfl⟩
  obtain ⟨hentries,hothers⟩ := Dict.foldlM_set_spec hstep hnodup h
  refine ⟨fun entry hentry => ?_,hothers⟩
  obtain ⟨_,⟨values,hvalues,rfl⟩,hnew⟩ := hentries entry hentry
  exact ⟨values,hvalues,hnew⟩

theorem added_at (hb : b.Indexed n) {values added : List R} (hvalues : values.length = n)
    (hadded : added.length = b.activeIndices.length) {g : ℕ} (hg : g < n) :
    ((scatter values b.activeIndices
      (List.zipWith (· + ·) (gather values b.activeIndices) added))[g]?).getD 0 =
        (values[g]?).getD 0 + ((b.position? g).bind (added[·]?)).getD 0 := by
  have hwithin : Within b.activeIndices values.length := by
    rw [hvalues]
    exact hb.within
  by_cases hactive : g ∈ b.activeIndices
  · have hp := List.idxOf_lt_length_iff.mpr hactive
    have hgp : b.activeIndices[b.activeIndices.idxOf g] = g := List.getElem_idxOf hp
    obtain ⟨x,hx⟩ : ∃ x, values[g]? = some x := ⟨_,List.getElem?_eq_getElem (by omega)⟩
    obtain ⟨y,hy⟩ : ∃ y, added[b.activeIndices.idxOf g]? = some y :=
      ⟨_,List.getElem?_eq_getElem (by omega)⟩
    have hread := getElem?_scatter_zipWith (· + ·) hb.nodup hwithin hadded hp (by rwa [hgp]) hy
    rw [hgp] at hread
    rw [hread,position?_eq_some.mpr ⟨hactive,rfl⟩,Option.bind_some,hx,hy]
    rfl
  · have hnone : b.position? g = none := if_neg hactive
    rw [getElem?_scatter_of_notMem _ _ hactive,hnone]
    exact (add_zero _).symm

omit [AddCommMonoid R] in
theorem lt_of_position? {g p : ℕ} (hp : b.position? g = some p) : p < b.activeIndices.length := by
  obtain ⟨hg,rfl⟩ := position?_eq_some.mp hp
  exact List.idxOf_lt_length_iff.mpr hg

/-- The totals that the components of a turn are added to. -/
def Batch.totals (b : Batch ι R) (n : ℕ) (components : Dict String (List R)) : Dict String (List R) :=
  b.multiRewards.getD (components.mapValues fun _ => List.replicate n 0)

theorem length_totals (hb : b.Indexed n) {components : Dict String (List R)} {name : String}
    {values : List R} (h : (b.totals n components).get? name = some values) : values.length = n := by
  rw [Batch.totals] at h
  cases hmulti : b.multiRewards with
  | some total =>
    rw [hmulti,Option.getD_some] at h
    exact hb.components total hmulti name values h
  | none =>
    rw [hmulti,Option.getD_none,Dict.get?_mapValues] at h
    obtain ⟨_,_,rfl⟩ := Option.map_eq_some_iff.mp h
    exact List.length_replicate

theorem totals_at (components : Dict String (List R)) (name : String) (g : ℕ) :
    (((b.totals n components).get? name).bind (·[g]?)).getD 0 = b.component name g := by
  unfold Batch.totals Batch.component
  cases b.multiRewards with
  | some total => rfl
  | none =>
    rw [Option.getD_none,Dict.get?_mapValues]
    cases components.get? name with
    | none => rfl
    | some values =>
      show ((List.replicate n (0 : R))[g]?).getD 0 = 0
      rw [List.getElem?_replicate]
      split_ifs <;> rfl

theorem component_of_scalar {values : List R} {own : ℕ → Option (SampleReward R)}
    (hmatch : RewardsMatch (.scalar values) b.activeIndices.length own) (name : String) (g : ℕ) :
    (((b.position? g).bind own).map (·.component name)).getD 0 = 0 := by
  cases hp : b.position? g with
  | none => rfl
  | some p =>
    obtain ⟨value,_,hown⟩ := hmatch.2 p (lt_of_position? hp)
    rw [Option.bind_some,hown]
    rfl

theorem component_of_named {components : Dict String (List R)} {own : ℕ → Option (SampleReward R)}
    (hmatch : RewardsMatch (.named components) b.activeIndices.length own) (name : String) (g : ℕ) :
    (((b.position? g).bind own).map (·.component name)).getD 0 =
      ((components.get? name).bind fun column => (b.position? g).bind (column[·]?)).getD 0 := by
  cases hp : b.position? g with
  | none => cases components.get? name <;> rfl
  | some p =>
    obtain ⟨named,hnamed,hget⟩ := hmatch.2 p (lt_of_position? hp)
    rw [Option.bind_some,hnamed]
    show ((named.get? name).getD 0) = _
    rw [hget]
    rfl

theorem addComponents_spec (hb : b.Indexed n) {rewards : Rewards R}
    {own : ℕ → Option (SampleReward R)} (hmatch : RewardsMatch rewards b.activeIndices.length own)
    {multiRewards : Option (Dict String (List R))}
    (h : addComponents n b.activeIndices b.multiRewards rewards = .ok multiRewards) :
    (∀ total, multiRewards = some total → ∀ name values, total.get? name = some values →
      values.length = n) ∧
    ∀ name g, g < n → ((multiRewards.bind (·.get? name)).bind (·[g]?)).getD 0 =
      b.component name g + (((b.position? g).bind own).map (·.component name)).getD 0 := by
  cases rewards with
  | scalar values =>
    obtain rfl := Except.ok.inj h
    refine ⟨hb.components,fun name g _ => ?_⟩
    rw [component_of_scalar hmatch,add_zero]
    rfl
  | named components =>
    obtain ⟨total,htotal,rfl⟩ := Fallible.map_eq_ok.mp h
    obtain ⟨hentries,hothers⟩ := addComponents_run components.nodup
      (show components.entries.foldlM (addComponent b.activeIndices) (b.totals n components) = _ from htotal)
    refine ⟨fun total' htotal' name values hvalues => ?_,fun name g hg => ?_⟩
    · obtain rfl := Option.some.inj htotal'
      by_cases hin : name ∈ components.entries.map Prod.fst
      · obtain ⟨entry,hentry,rfl⟩ := List.mem_map.mp hin
        obtain ⟨old,hold,hnew⟩ := hentries entry hentry
        obtain rfl := Option.some.inj (hnew.symm.trans hvalues)
        rw [length_scatter,length_totals hb hold]
      · rw [hothers name hin] at hvalues
        exact length_totals hb hvalues
    · rw [← totals_at (n := n) components,Option.bind_some,component_of_named hmatch]
      by_cases hin : name ∈ components.entries.map Prod.fst
      · obtain ⟨entry,hentry,rfl⟩ := List.mem_map.mp hin
        obtain ⟨old,hold,hnew⟩ := hentries entry hentry
        have hcolumn := Dict.mem_entries_iff.mp hentry
        rw [hnew,hold,hcolumn,Option.bind_some,Option.bind_some,Option.bind_some]
        exact added_at hb (length_totals hb hold) (hmatch.1 _ _ hcolumn) hg
      · rw [hothers name hin,Dict.get?_eq_none hin,Option.bind_none,Option.getD_none,add_zero]

/-- The reward of the turn of a sample. -/
theorem turnRewards_at {rewards : Rewards R} {count : ℕ} {own : ℕ → Option (SampleReward R)}
    (hmatch : RewardsMatch rewards count own) {i : ℕ} (hi : i < count) :
    ∃ reward, own i = some reward ∧ (turnRewards rewards count)[i]? = some reward.total := by
  cases rewards with
  | scalar values =>
    obtain ⟨value,hvalue,hown⟩ := hmatch.2 i hi
    exact ⟨.scalar value,hown,hvalue⟩
  | named components =>
    obtain ⟨hlengths,hnamed⟩ := hmatch
    obtain ⟨named,hown,hget⟩ := hnamed i hi
    have hperm : named.entries.Perm
        (components.entries.map fun component => (component.1,component.2.getD i 0)) := by
      have hnodup : (components.entries.map fun component =>
          (component.1,component.2.getD i 0)).Nodup := by
        refine List.Nodup.of_map Prod.fst ?_
        rw [List.map_map]
        exact components.nodup
      refine (List.perm_ext_iff_of_nodup (List.Nodup.of_map _ named.nodup) hnodup).mpr fun entry => ?_
      obtain ⟨name,value⟩ := entry
      rw [Dict.mem_entries_iff,hget,List.mem_map]
      constructor
      · intro hvalue
        obtain ⟨values,hvalues,hat⟩ := Option.bind_eq_some_iff.mp hvalue
        refine ⟨(name,values),Dict.mem_entries_iff.mpr hvalues,?_⟩
        rw [List.getD_eq_getElem?_getD,hat]
        rfl
      · rintro ⟨⟨name',values⟩,hmem,heq⟩
        obtain ⟨rfl,rfl⟩ := Prod.mk.inj heq
        have hvalues := Dict.mem_entries_iff.mp hmem
        have hlt : i < values.length := by rwa [hlengths _ _ hvalues]
        rw [hvalues,Option.bind_some,List.getElem?_eq_getElem hlt,List.getD_eq_getElem _ _ hlt]
    refine ⟨.named named,hown,?_⟩
    have hsum := (hperm.map Prod.snd).sum_eq
    rw [List.map_map] at hsum
    rw [turnRewards,List.getElem?_map,List.getElem?_range hi,Option.map_some]
    exact congrArg some hsum.symm

theorem results_spec (hb : b.Indexed n) {responses : Responses}
    (hresponses : b.responses cfg world = .ok responses) {feedback : Feedback ι R}
    (hfeedback : calculateRewards world.taskToEnv (b.active.map Sample.taskName)
      responses.messageLogs (b.active.map Sample.extraEnvInfo) = .ok feedback)
    {results : List (TurnResult ι R)}
    (hresults : (List.range b.active.length).mapM (turnResult cfg (b.data cfg).inputLengths responses
      feedback.outcomes (turnRewards feedback.rewards b.active.length)) = .ok results) :
    ∀ p (hp : p < b.activeIndices.length), ∃ x t,
      b.samples[b.activeIndices[p]]? = some x ∧
        b.turnFor cfg world b.activeIndices[p] = some t ∧ results[p]? = some t.result ∧
        rewardFor world.taskToEnv (b.active.map Sample.taskName) responses.messageLogs
          (b.active.map Sample.extraEnvInfo) p = some t.reward := by
  obtain ⟨houtcomeLength,houtcomes,hmatch⟩ := calculateRewards_spec hfeedback
  have hall := Fallible.mapM_eq_ok.mp hresults
  have hlength : results.length = b.activeIndices.length := by
    rw [← hall.length_eq,List.length_range,length_active hb]
  rw [List.length_map,length_active hb] at houtcomes hmatch
  intro p hp
  have hp' : p < results.length := by rwa [hlength]
  have hrun := hall.get (by rwa [List.length_range,length_active hb]) hp'
  simp only [List.get_eq_getElem,List.getElem_range] at hrun
  have hlt : b.activeIndices[p] < b.samples.length := by
    rw [hb.samples]
    exact hb.within _ (List.getElem_mem hp)
  obtain ⟨x,hx⟩ : ∃ x, b.samples[b.activeIndices[p]]? = some x := ⟨_,List.getElem?_eq_getElem hlt⟩
  have hactive : b.active[p]? = some x := (active_at hb hp).trans hx
  have hposition : b.position? b.activeIndices[p] = some p :=
    position?_eq_some.mpr ⟨List.getElem_mem hp,hb.nodup.idxOf_getElem p hp⟩
  obtain ⟨flag,hflag,hrun⟩ := Fallible.bind_eq_ok.mp hrun
  obtain ⟨generated,hgenerated,hrun⟩ := Fallible.bind_eq_ok.mp hrun
  obtain ⟨inputLength,hinputLength,hrun⟩ := Fallible.bind_eq_ok.mp hrun
  obtain ⟨outcome,houtcome,hrun⟩ := Fallible.bind_eq_ok.mp hrun
  obtain ⟨reward,hreward,hrun⟩ := Fallible.bind_eq_ok.mp hrun
  obtain ⟨observed,hobserved,hrun⟩ := Fallible.bind_eq_ok.mp hrun
  have hresult := Except.ok.inj hrun
  have hlengthAt : (b.data cfg).inputLengths[p]? = some (tokensOf x.messageLog).length := by
    show (((b.active.map Sample.messageLog).map tokensOf).map List.length)[p]? = _
    rw [List.getElem?_map,List.getElem?_map,List.getElem?_map,hactive]
    rfl
  obtain rfl := Option.some.inj (hlengthAt.symm.trans (readAt_eq_ok.mp hinputLength))
  obtain ⟨outcome',houtcome',houtcomeFor⟩ := houtcomes p hp
  obtain rfl := Option.some.inj (houtcome'.symm.trans (readAt_eq_ok.mp houtcome))
  obtain ⟨own,hown,htotal⟩ := turnRewards_at hmatch hp
  rw [length_active hb] at hreward
  obtain rfl := Option.some.inj (htotal.symm.trans (readAt_eq_ok.mp hreward))
  refine ⟨x,⟨generated,flag,outcome',own,observed⟩,hx,?_,?_,hown⟩
  · unfold Batch.turnFor Batch.turnShown
    rw [hposition,hx,hresponses]
    show (responses.generatedIds[p]?.bind _) = _
    rw [readAt_eq_ok.mp hgenerated]
    show ((responses.truncatedAt p).toOption.bind _) = _
    rw [hflag]
    show ((outcomeFor _ _ _ _ p).bind _) = _
    rw [houtcomeFor]
    show ((rewardFor _ _ _ _ p).bind _) = _
    rw [hown]
    show ((observe cfg _ _ _).toOption.bind _) = _
    rw [hobserved]
    rfl
  · rw [List.getElem?_eq_getElem hp',← hresult]
    rfl

omit [AddCommMonoid R] in
theorem mem_localNext (hb : b.Indexed n) {results : List (TurnResult ι R)} {localNext : List ℕ}
    (hlocal : localNext = (List.range b.active.length).filter fun i =>
      (results[i]?.map TurnResult.done) = some false) {p : ℕ} :
    p ∈ localNext ↔ p < b.activeIndices.length ∧ ∃ r, results[p]? = some r ∧ r.done = false := by
  rw [hlocal,List.mem_filter,List.mem_range,length_active hb,decide_eq_true_iff,
    Option.map_eq_some_iff]

omit [AddCommMonoid R] in
theorem mem_nextIndices (hb : b.Indexed n) {results : List (TurnResult ι R)} {localNext : List ℕ}
    (hlocal : localNext = (List.range b.active.length).filter fun i =>
      (results[i]?.map TurnResult.done) = some false) {g : ℕ} :
    g ∈ gather b.activeIndices localNext ↔ ∃ p, ∃ hp : p < b.activeIndices.length,
      b.activeIndices[p] = g ∧ ∃ r, results[p]? = some r ∧ r.done = false := by
  rw [mem_gather]
  constructor
  · rintro ⟨p,hp,hat⟩
    obtain ⟨hlt,heq⟩ := List.getElem?_eq_some_iff.mp hat
    exact ⟨p,hlt,heq,((mem_localNext hb hlocal).mp hp).2⟩
  · rintro ⟨p,hlt,heq,hgoes⟩
    exact ⟨p,(mem_localNext hb hlocal).mpr ⟨hlt,hgoes⟩,List.getElem?_eq_some_iff.mpr ⟨hlt,heq⟩⟩

theorem written_spec (hb : b.Indexed n) {results : List (TurnResult ι R)}
    (hlength : results.length = b.activeIndices.length)
    {localNext : List ℕ} (hlocal : localNext = (List.range b.active.length).filter fun i =>
      (results[i]?.map TurnResult.done) = some false)
    {recorded carried : List (Sample ι R)}
    (hrecorded : recorded = scatter b.samples b.activeIndices
      (List.zipWith (Sample.record cfg) b.active results))
    (hcarried : carried = scatter recorded (gather b.activeIndices localNext)
      (List.zipWith Sample.carry (gather recorded (gather b.activeIndices localNext))
        (gather (results.map TurnResult.outcome) localNext))) :
    carried.length = n ∧ (gather b.activeIndices localNext).Nodup ∧
    (∀ g, g ∉ b.activeIndices → carried[g]? = b.samples[g]?) ∧
    ∀ p (hp : p < b.activeIndices.length), ∀ x r, b.samples[b.activeIndices[p]]? = some x →
      results[p]? = some r → carried[b.activeIndices[p]]? =
        some (if r.done then x.record cfg r else (x.record cfg r).carry r.outcome) := by
  have hwithin : Within b.activeIndices b.samples.length := by
    rw [hb.samples]
    exact hb.within
  have hlocalWithin : Within localNext b.activeIndices.length := fun p hp =>
    ((mem_localNext hb hlocal).mp hp).1
  have hnodup : (gather b.activeIndices localNext).Nodup := by
    refine (gather_sublist ?_ b.activeIndices).nodup hb.nodup
    rw [hlocal]
    exact List.pairwise_lt_range.filter _
  have hrecordedLength : recorded.length = n := by rw [hrecorded,length_scatter,hb.samples]
  refine ⟨by rw [hcarried,length_scatter,hrecordedLength],hnodup,fun g hg => ?_,
    fun p hp x r hx hr => ?_⟩
  · have hnext : g ∉ gather b.activeIndices localNext := by
      intro hin
      obtain ⟨p,hp,rfl,_⟩ := (mem_nextIndices hb hlocal).mp hin
      exact hg (List.getElem_mem hp)
    rw [hcarried,getElem?_scatter_of_notMem _ _ hnext,hrecorded,getElem?_scatter_of_notMem _ _ hg]
  · have hrec : recorded[b.activeIndices[p]]? = some (x.record cfg r) := by
      rw [hrecorded]
      exact getElem?_scatter_zipWith _ hb.nodup hwithin hlength hp hx hr
    cases hdone : r.done with
    | true =>
      have hnext : b.activeIndices[p] ∉ gather b.activeIndices localNext := by
        intro hin
        obtain ⟨q,hq,heq,r',hr',hgoes⟩ := (mem_nextIndices hb hlocal).mp hin
        obtain rfl := (hb.nodup.getElem_inj_iff).mp heq
        obtain rfl := Option.some.inj (hr.symm.trans hr')
        rw [hdone] at hgoes
        cases hgoes
      rw [hcarried,getElem?_scatter_of_notMem _ _ hnext,hrec,if_pos rfl]
    | false =>
      have hnextWithin : Within (gather b.activeIndices localNext) recorded.length := by
        intro g hg
        obtain ⟨q,hq,rfl,_⟩ := (mem_nextIndices hb hlocal).mp hg
        rw [hrecordedLength]
        exact hb.within _ (List.getElem_mem hq)
      rw [hcarried]
      refine getElem?_scatter_gather Sample.carry hnodup hnextWithin hlocalWithin ?_
        ((mem_localNext hb hlocal).mpr ⟨hp,r,hr,hdone⟩) (List.getElem?_eq_getElem hp) hrec ?_
      · rw [List.length_map,hlength]
        exact hlocalWithin
      · rw [List.getElem?_map,hr]
        rfl

/-- What was read and computed behind generation. -/
theorem settle_ok {responses : Responses} {messageLogs : List (List Message)}
    {settled : List (TurnResult ι R) × Batch ι R}
    (h : b.settle cfg world responses messageLogs = .ok settled) :
    ∃ feedback, calculateRewards world.taskToEnv (b.active.map Sample.taskName) messageLogs
        (b.active.map Sample.extraEnvInfo) = .ok feedback ∧
      addComponents b.samples.length b.activeIndices b.multiRewards feedback.rewards =
        .ok settled.2.multiRewards ∧
      (List.range b.active.length).mapM (turnResult cfg (b.data cfg).inputLengths responses
        feedback.outcomes (turnRewards feedback.rewards b.active.length)) = .ok settled.1 ∧
      settled.2.hasStopStrings = b.hasStopStrings ∧
      ∃ localNext, localNext = ((List.range b.active.length).filter fun i =>
          (settled.1[i]?.map TurnResult.done) = some false) ∧
        settled.2.activeIndices = gather b.activeIndices localNext ∧
        ∃ recorded, recorded = scatter b.samples b.activeIndices
            (List.zipWith (Sample.record cfg) b.active settled.1) ∧
          settled.2.samples = scatter recorded (gather b.activeIndices localNext)
            (List.zipWith Sample.carry (gather recorded (gather b.activeIndices localNext))
              (gather (settled.1.map TurnResult.outcome) localNext)) := by
  unfold Batch.settle at h
  obtain ⟨feedback,hfeedback,h⟩ := Fallible.bind_eq_ok.mp h
  obtain ⟨multiRewards,hmulti,h⟩ := Fallible.bind_eq_ok.mp h
  obtain ⟨results,hresults,h⟩ := Fallible.bind_eq_ok.mp h
  obtain rfl := Except.ok.inj h
  exact ⟨feedback,hfeedback,hmulti,hresults,rfl,_,rfl,rfl,_,rfl,rfl⟩

/-- Whatever the environments are shown, every active sample is written what was generated for it, and
no other sample changes. -/
theorem settle_written (hb : b.Indexed n) {responses : Responses} {messageLogs : List (List Message)}
    {settled : List (TurnResult ι R) × Batch ι R}
    (h : b.settle cfg world responses messageLogs = .ok settled) :
    settled.1.length = b.activeIndices.length ∧ settled.2.Indexed n ∧
    (∀ (p : ℕ) r, settled.1[p]? = some r → responses.generatedIds[p]? = some r.generated) ∧
    (∀ g, g ∉ b.activeIndices → settled.2.samples[g]? = b.samples[g]?) ∧
    ∀ p (hp : p < b.activeIndices.length), ∀ x r, b.samples[b.activeIndices[p]]? = some x →
      settled.1[p]? = some r → settled.2.samples[b.activeIndices[p]]? =
        some (if r.done then x.record cfg r else (x.record cfg r).carry r.outcome) := by
  obtain ⟨feedback,hfeedback,hmulti,hresults,_,localNext,hlocal,hnext,recorded,hrecorded,hsamples⟩ :=
    settle_ok h
  have hall := Fallible.mapM_eq_ok.mp hresults
  have hlength : settled.1.length = b.activeIndices.length := by
    rw [← hall.length_eq,List.length_range,length_active hb]
  obtain ⟨hcarried,hnodup,hothers,hat⟩ := written_spec hb hlength hlocal hrecorded hsamples
  rw [← hnext] at hnodup
  obtain ⟨_,_,hmatch⟩ := calculateRewards_spec hfeedback
  rw [List.length_map,length_active hb] at hmatch
  rw [hb.samples] at hmulti
  obtain ⟨hcomponents,_⟩ := addComponents_spec hb hmatch hmulti
  refine ⟨hlength,⟨hcarried,hnodup,fun g hg => ?_,hcomponents⟩,fun p r hr => ?_,hothers,hat⟩
  · rw [hnext] at hg
    obtain ⟨p,hp,rfl,_⟩ := (mem_nextIndices hb hlocal).mp hg
    exact hb.within _ (List.getElem_mem hp)
  · obtain ⟨hp,hr⟩ := List.getElem?_eq_some_iff.mp hr
    have hrun := hall.get (by rwa [List.length_range,length_active hb,← hlength]) hp
    simp only [List.get_eq_getElem,List.getElem_range,hr] at hrun
    obtain ⟨flag,_,hrun⟩ := Fallible.bind_eq_ok.mp hrun
    obtain ⟨generated,hgenerated,hrun⟩ := Fallible.bind_eq_ok.mp hrun
    obtain ⟨inputLength,_,hrun⟩ := Fallible.bind_eq_ok.mp hrun
    obtain ⟨outcome,_,hrun⟩ := Fallible.bind_eq_ok.mp hrun
    obtain ⟨reward,_,hrun⟩ := Fallible.bind_eq_ok.mp hrun
    obtain ⟨observed,_,hrun⟩ := Fallible.bind_eq_ok.mp hrun
    obtain rfl := Except.ok.inj hrun
    exact readAt_eq_ok.mp hgenerated

/-- A turn: every active sample moves by its own turn, and no other sample changes. -/
theorem turn_spec (hb : b.Indexed n) (h : turnApart cfg world b = .ok next) :
    next.Indexed n ∧ next.hasStopStrings = b.hasStopStrings ∧
    (∀ g ∈ b.activeIndices, ∃ x t, b.samples[g]? = some x ∧ b.turnFor cfg world g = some t ∧
      next.samples[g]? = some (x.advance cfg t)) ∧
    (∀ g, g ∉ b.activeIndices → next.samples[g]? = b.samples[g]?) ∧
    (∀ g, g ∈ next.activeIndices ↔ g ∈ b.activeIndices ∧
      ∃ t, b.turnFor cfg world g = some t ∧ t.done = false) ∧
    ∀ name g, g < n → next.component name g =
      b.component name g + ((b.turnFor cfg world g).map (·.reward.component name)).getD 0 := by
  obtain ⟨responses,hresponses,h⟩ := Fallible.bind_eq_ok.mp h
  obtain ⟨settled,hsettled,h⟩ := Fallible.bind_eq_ok.mp h
  obtain rfl := Except.ok.inj h
  obtain ⟨feedback,hfeedback,hmulti,hresults,hcolumn,localNext,hlocal,hnext,_⟩ := settle_ok hsettled
  obtain ⟨_,hindexed,_,hothers,hcarried⟩ := settle_written hb hsettled
  have hresultFor := results_spec hb hresponses hfeedback hresults
  obtain ⟨_,_,hmatch⟩ := calculateRewards_spec hfeedback
  rw [List.length_map,length_active hb] at hmatch
  rw [hb.samples] at hmulti
  obtain ⟨_,hcomponents⟩ := addComponents_spec hb hmatch hmulti
  have hposition : ∀ g ∈ b.activeIndices, ∃ p, ∃ hp : p < b.activeIndices.length,
      b.activeIndices[p] = g := fun g hg => List.mem_iff_getElem.mp hg
  refine ⟨hindexed,hcolumn,fun g hg => ?_,hothers,fun g => ?_,fun name g hg => ?_⟩
  · obtain ⟨p,hp,rfl⟩ := hposition g hg
    obtain ⟨x,t,hx,ht,hr,_⟩ := hresultFor p hp
    exact ⟨x,t,hx,ht,hcarried p hp x t.result hx hr⟩
  · rw [hnext,mem_nextIndices hb hlocal]
    constructor
    · rintro ⟨p,hp,rfl,r,hr,hgoes⟩
      obtain ⟨x,t,hx,ht,hr',_⟩ := hresultFor p hp
      obtain rfl := Option.some.inj (hr.symm.trans hr')
      exact ⟨List.getElem_mem hp,t,ht,hgoes⟩
    · rintro ⟨hg,t,ht,hgoes⟩
      obtain ⟨p,hp,rfl⟩ := hposition g hg
      obtain ⟨x,t',hx,ht',hr,_⟩ := hresultFor p hp
      obtain rfl := Option.some.inj (ht.symm.trans ht')
      exact ⟨p,hp,rfl,t.result,hr,hgoes⟩
  · refine (hcomponents name g hg).trans (congrArg (b.component name g + ·) ?_)
    by_cases hactive : g ∈ b.activeIndices
    · obtain ⟨p,hp,rfl⟩ := hposition g hactive
      obtain ⟨x,t,hx,ht,_,hown⟩ := hresultFor p hp
      have hp' := position?_eq_some.mpr ⟨hactive,hb.nodup.idxOf_getElem p hp⟩
      rw [hp',ht,Option.bind_some,hown]
      rfl
    · have hnone : b.position? g = none := if_neg hactive
      have hturn : b.turnFor cfg world g = none := by
        unfold Batch.turnFor Batch.turnShown
        rw [hnone]
        rfl
      rw [hnone,hturn]
      rfl

end Turn

end Rollouts
end DockyardRL
