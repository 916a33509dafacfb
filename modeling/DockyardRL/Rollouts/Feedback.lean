import DockyardRL.Lib.Grouping
import Mathlib.Algebra.BigOperators.Group.List.Basic

/-! The environments of a batch: every one gets the samples of its task, and what they return is put
back in the order of the batch.

Every sample of a batch gets back what the environment of its task returned for it. -/
namespace DockyardRL
namespace Rollouts

section

open Grouping SortByKey

variable {ι R : Type}

inductive RolloutError
  | noEnvironment (taskName : String) | mixedRewards | keyError (name : String) | index
  | negativeTokensLeft
deriving DecidableEq, Repr

/-- What an environment reads and writes of a message. -/
structure Text where
  role : String
  content : String
deriving DecidableEq, Repr

structure Message where
  role : String
  content : String
  tokenIds : List ℕ
deriving DecidableEq, Repr

def Message.text (m : Message) : Text := ⟨m.role,m.content⟩

abbrev Info (ι : Type) := Option (Dict String ι)

/-- Rewards of the samples: one for each, or one of every name for each. -/
inductive Rewards (R : Type)
  | scalar (values : List R)
  | named (components : Dict String (List R))

structure EnvironmentReturn (ι R : Type) where
  observations : List Text
  metadata : List (Info ι)
  nextStopStrings : Option (List (Option (List String)))
  rewards : Rewards R
  terminateds : List Bool
  answers : Option (List (Option String))

/-- `env.step(messages, env_info)`. -/
abbrev Environment (ι R : Type) := List (List Text) → List (Info ι) → EnvironmentReturn ι R

/-- `l[i]`. -/
def readAt {α : Type} (l : List α) (i : ℕ) : Except RolloutError α :=
  match l[i]? with
  | some x => .ok x
  | none => .error .index

/-- What is returned for one sample, apart from its reward. -/
structure Outcome (ι : Type) where
  observation : Text
  metadata : Info ι
  nextStopStrings : Option (List String)
  terminated : Bool
  answer : Option String

/-- The lists that an environment returned, read at one position. -/
def EnvironmentReturn.outcome (result : EnvironmentReturn ι R) (i : ℕ) :
    Except RolloutError (Outcome ι) := do
  let observation ← readAt result.observations i
  let terminated ← readAt result.terminateds i
  let nextStopStrings ← match result.nextStopStrings with
    | none => pure none
    | some nextStopStrings => readAt nextStopStrings i
  let metadata ← readAt result.metadata i
  let answer ← match result.answers with
    | none => pure none
    | some answers => readAt answers i
  pure ⟨observation,metadata,nextStopStrings,terminated,answer⟩

/-- What is gathered from the environments so far. -/
structure Collected (ι R : Type) where
  indicesOrder : List ℕ
  outcomes : List (Outcome ι)
  rewards : List R
  dictRewards : Option (Dict String (List R))

def appendComponent (count : ℕ) (gathered : Dict String (List R)) (component : String × List R) :
    Except RolloutError (Dict String (List R)) :=
  match gathered.get? component.1 with
  | none => .error (.keyError component.1)
  | some values => do
    let next ← (List.range count).mapM (readAt component.2)
    pure (gathered.set component.1 (values ++ next))

/-- The results of one environment. -/
def collect (acc : Collected ι R) (group : List ℕ × EnvironmentReturn ι R) :
    Except RolloutError (Collected ι R) := do
  let outcomes ← (List.range group.1.length).mapM group.2.outcome
  let indicesOrder := acc.indicesOrder ++ group.1
  match group.2.rewards with
  | .scalar values =>
    let next ← (List.range group.1.length).mapM (readAt values)
    pure ⟨indicesOrder,acc.outcomes ++ outcomes,acc.rewards ++ next,acc.dictRewards⟩
  | .named components =>
    let gathered := acc.dictRewards.getD (components.mapValues fun _ => [])
    let next ← components.entries.foldlM (appendComponent group.1.length) gathered
    pure ⟨indicesOrder,acc.outcomes ++ outcomes,acc.rewards,some next⟩

/-- What the batch gets back. -/
structure Feedback (ι R : Type) where
  outcomes : List (Outcome ι)
  rewards : Rewards R

/-- The results in the order of the batch. -/
def inOrder (all : Collected ι R) : Except RolloutError (Feedback ι R) := do
  let sortedIndices := sortByKey (fun k => all.indicesOrder.getD k 0)
    (List.range all.indicesOrder.length)
  let rewards ← match all.dictRewards with
    | some components =>
      if all.rewards.length ≠ 0 then .error .mixedRewards
      else Rewards.named <$> Dict.build components.keys fun name =>
        sortedIndices.mapM (readAt ((components.get? name).getD []))
    | none => Rewards.scalar <$> sortedIndices.mapM (readAt all.rewards)
  let outcomes ← sortedIndices.mapM (readAt all.outcomes)
  pure ⟨outcomes,rewards⟩

/-- The samples of one task go to its environment. -/
def stepGroup (taskToEnv : String → Option (Environment ι R)) (toEnv : List (List Text))
    (extraEnvInfo : List (Info ι)) (group : String × List ℕ) :
    Except RolloutError (List ℕ × EnvironmentReturn ι R) :=
  match taskToEnv group.1 with
  | none => .error (.noEnvironment group.1)
  | some env => do
    let messages ← group.2.mapM (readAt toEnv)
    let envInfo ← group.2.mapM (readAt extraEnvInfo)
    pure (group.2,env messages envInfo)

def calculateRewards (taskToEnv : String → Option (Environment ι R)) (taskNames : List String)
    (messageLogs : List (List Message)) (extraEnvInfo : List (Info ι)) :
    Except RolloutError (Feedback ι R) := do
  let toEnv := messageLogs.map fun log => log.map Message.text
  let results ← (group taskNames).entries.mapM (stepGroup taskToEnv toEnv extraEnvInfo)
  let all ← results.foldlM collect ⟨[],[],[],none⟩
  inOrder all

end

open Gather Grouping SortByKey

variable {ι R : Type}

section Reads

variable {α : Type} {l ys : List α} {idx : List ℕ}

theorem readAt_eq_ok {i : ℕ} {x : α} : readAt l i = .ok x ↔ l[i]? = some x := by
  unfold readAt
  cases l[i]? with
  | none => simp
  | some y => simp

theorem mapM_readAt : idx.mapM (readAt l) = .ok ys ↔ Within idx l.length ∧ ys = gather l idx := by
  rw [Fallible.mapM_eq_ok]
  simp only [readAt_eq_ok]
  constructor
  · intro h
    induction h with
    | nil => exact ⟨fun i hi => absurd hi List.not_mem_nil,rfl⟩
    | @cons i x idx ys hi _ ih =>
      obtain ⟨hlt,_⟩ := List.getElem?_eq_some_iff.mp hi
      refine ⟨fun j hj => ?_,?_⟩
      · rcases List.mem_cons.mp hj with rfl | hj
        · exact hlt
        · exact ih.1 j hj
      · rw [gather,List.filterMap_cons,hi,ih.2]
        rfl
  · rintro ⟨hwithin,rfl⟩
    induction idx with
    | nil => exact .nil
    | cons i idx ih =>
      have hi := hwithin i List.mem_cons_self
      rw [gather_cons hi]
      exact .cons (List.getElem?_eq_getElem hi) (ih fun j hj => hwithin j (List.mem_cons_of_mem i hj))

theorem mapM_readAt_range {n : ℕ} (h : (List.range n).mapM (readAt l) = .ok ys) :
    ys.length = n ∧ ∀ i < n, ys[i]? = l[i]? := by
  obtain ⟨hwithin,rfl⟩ := mapM_readAt.mp h
  refine ⟨by rw [length_gather hwithin,List.length_range],fun i hi => ?_⟩
  rw [getElem?_gather hwithin,List.getElem?_range hi,Option.bind_some]

end Reads

theorem gather_sorted {order : List ℕ} {n : ℕ} (h : order.Perm (List.range n)) :
    gather order (sortByKey (fun k => order.getD k 0) (List.range order.length)) = List.range n := by
  have hperm := sortByKey_perm (fun k => order.getD k 0) (List.range order.length)
  have hwithin : Within (sortByKey (fun k => order.getD k 0) (List.range order.length))
      order.length := fun i hi => List.mem_range.mp (hperm.mem_iff.mp hi)
  have hread : gather order (sortByKey (fun k => order.getD k 0) (List.range order.length)) =
      (sortByKey (fun k => order.getD k 0) (List.range order.length)).map (order.getD · 0) :=
    gather_eq_map order 0 hwithin
  have hall : (List.range order.length).map (order.getD · 0) = order := by
    rw [← gather_eq_map order 0 fun i hi => List.mem_range.mp hi,gather_range]
  have hsame := ((hperm.map (order.getD · 0)).trans (List.Perm.of_eq hall)).trans h
  have hsorted := List.pairwise_map.mpr
    (pairwise_sortByKey (fun k => order.getD k 0) (List.range order.length))
  rw [hread]
  refine hsame.eq_of_pairwise (fun a b _ _ hab hba => le_antisymm hab hba) hsorted ?_
  exact List.pairwise_lt_range.imp fun hlt => le_of_lt hlt

theorem sorted_spec {α : Type} {order : List ℕ} {n : ℕ} (h : order.Perm (List.range n))
    {P : ℕ → α → Prop} {xs ys : List α} (hxs : List.Forall₂ P order xs)
    (hys : (sortByKey (fun k => order.getD k 0) (List.range order.length)).mapM (readAt xs) =
      .ok ys) :
    ys.length = n ∧ ∀ i < n, ∃ y, ys[i]? = some y ∧ P i y := by
  have hsorted := gather_sorted h
  have hperm := sortByKey_perm (fun k => order.getD k 0) (List.range order.length)
  have hwithin : Within (sortByKey (fun k => order.getD k 0) (List.range order.length))
      order.length := fun i hi => List.mem_range.mp (hperm.mem_iff.mp hi)
  obtain ⟨hreads,rfl⟩ := mapM_readAt.mp hys
  refine ⟨?_,fun i hi => ?_⟩
  · rw [length_gather hreads,hperm.length_eq,List.length_range,h.length_eq,List.length_range]
  · have hat := congrArg (fun l => l[i]?) hsorted
    rw [getElem?_gather hwithin,List.getElem?_range hi] at hat
    obtain ⟨k,hk,horder⟩ := Option.bind_eq_some_iff.mp hat
    obtain ⟨hklt,hkeq⟩ := List.getElem?_eq_some_iff.mp horder
    have hkx : k < xs.length := by rwa [← hxs.length_eq]
    refine ⟨xs[k],?_,?_⟩
    · rw [getElem?_gather hreads,hk,Option.bind_some,List.getElem?_eq_getElem hkx]
    · have hP := hxs.get hklt hkx
      simp only [List.get_eq_getElem,hkeq] at hP
      exact hP

/-- The reward of one sample. -/
inductive SampleReward (R : Type)
  | scalar (value : R)
  | named (components : Dict String R)

def EnvironmentReturn.rewardAt (result : EnvironmentReturn ι R) (i : ℕ) :
    Except RolloutError (SampleReward R) :=
  match result.rewards with
  | .scalar values => SampleReward.scalar <$> readAt values i
  | .named components => SampleReward.named <$> Dict.build components.keys fun name =>
      readAt ((components.get? name).getD []) i

def resultFor (taskToEnv : String → Option (Environment ι R)) (taskNames : List String)
    (messageLogs : List (List Message)) (extraEnvInfo : List (Info ι)) (i : ℕ) :
    Option (EnvironmentReturn ι R × ℕ) := do
  let taskName ← taskNames[i]?
  let env ← taskToEnv taskName
  let idx := positions taskNames taskName
  pure (env (gather (messageLogs.map fun log => log.map Message.text) idx) (gather extraEnvInfo idx),
    idx.idxOf i)

/-- The named rewards at a position that every component has. -/
theorem rewardAt_named {result : EnvironmentReturn ι R} {components : Dict String (List R)}
    (hrewards : result.rewards = .named components) {p : ℕ}
    (h : ∀ name values, components.get? name = some values → p < values.length) :
    ∃ own : Dict String R, result.rewardAt p = .ok (.named own) ∧
      ∀ name, own.get? name = (components.get? name).bind (·[p]?) := by
  have hread : ∀ name ∈ components.keys, ∃ value,
      (readAt ((components.get? name).getD []) p : Except RolloutError R) = .ok value := by
    intro name hname
    obtain ⟨values,hvalues⟩ := Option.isSome_iff_exists.mp (Dict.mem_keys_iff.mp hname)
    rw [hvalues,Option.getD_some]
    exact ⟨_,readAt_eq_ok.mpr (List.getElem?_eq_getElem (h name values hvalues))⟩
  obtain ⟨own,hown⟩ := Dict.exists_build hread
  obtain ⟨_,hget⟩ := Dict.get?_of_build hown
  refine ⟨own,?_,fun name => Option.ext fun value => ?_⟩
  · unfold EnvironmentReturn.rewardAt
    rw [hrewards]
    dsimp only
    rw [hown]
    rfl
  · rw [hget,readAt_eq_ok,Dict.mem_keys_iff]
    cases components.get? name <;> simp

def outcomeFor (taskToEnv : String → Option (Environment ι R)) (taskNames : List String)
    (messageLogs : List (List Message)) (extraEnvInfo : List (Info ι)) (i : ℕ) :
    Option (Outcome ι) :=
  (resultFor taskToEnv taskNames messageLogs extraEnvInfo i).bind fun result =>
    (result.1.outcome result.2).toOption

def rewardFor (taskToEnv : String → Option (Environment ι R)) (taskNames : List String)
    (messageLogs : List (List Message)) (extraEnvInfo : List (Info ι)) (i : ℕ) :
    Option (SampleReward R) :=
  (resultFor taskToEnv taskNames messageLogs extraEnvInfo i).bind fun result =>
    (result.1.rewardAt result.2).toOption

section Calculate

variable {taskToEnv : String → Option (Environment ι R)} {taskNames : List String}
  {messageLogs : List (List Message)} {extraEnvInfo : List (Info ι)}

theorem stepGroup_spec {group : String × List ℕ} {result : List ℕ × EnvironmentReturn ι R}
    (hgroup : group ∈ (Grouping.group taskNames).entries)
    (h : stepGroup taskToEnv (messageLogs.map fun log => log.map Message.text) extraEnvInfo group =
      .ok result) :
    result.1 = group.2 ∧ ∀ p (hp : p < result.1.length),
      resultFor taskToEnv taskNames messageLogs extraEnvInfo result.1[p] = some (result.2,p) := by
  obtain ⟨task,idx⟩ := group
  obtain ⟨_,rfl⟩ := mem_entries_group.mp hgroup
  unfold stepGroup at h
  cases henv : taskToEnv task with
  | none =>
    rw [henv] at h
    cases h
  | some env =>
    rw [henv] at h
    dsimp only at h
    obtain ⟨messages,hmessages,h⟩ := Fallible.bind_eq_ok.mp h
    obtain ⟨envInfo,henvInfo,h⟩ := Fallible.bind_eq_ok.mp h
    obtain rfl := Except.ok.inj h
    obtain ⟨_,rfl⟩ := mapM_readAt.mp hmessages
    obtain ⟨_,rfl⟩ := mapM_readAt.mp henvInfo
    refine ⟨rfl,fun p hp => ?_⟩
    have htask := mem_positions.mp (List.getElem_mem hp)
    have hidx : (positions taskNames task).idxOf (positions taskNames task)[p] = p :=
      (nodup_positions taskNames task).idxOf_getElem p hp
    unfold resultFor
    rw [htask]
    show (taskToEnv task).bind _ = _
    rw [henv]
    show some (_,_) = some (_,_)
    rw [hidx]

/-- A name is among those of a dict. -/
theorem mem_keys_of_get? {α : Type} {d : Dict String α} {name : String} {x : α}
    (h : d.get? name = some x) : name ∈ d.keys := Dict.mem_keys_iff.mpr (by rw [h]; rfl)

/-- The components of one result behind those that are gathered. -/
theorem appendComponents_spec {count : ℕ} {entries : List (String × List R)}
    (hnodup : (entries.map Prod.fst).Nodup) {gathered next : Dict String (List R)}
    (h : entries.foldlM (appendComponent count) gathered = .ok next) :
    (∀ entry ∈ entries, ∃ values new, gathered.get? entry.1 = some values ∧
      next.get? entry.1 = some (values ++ new) ∧ new.length = count ∧
        ∀ p < count, new[p]? = entry.2[p]?) ∧
      ∀ name, name ∉ entries.map Prod.fst → next.get? name = gathered.get? name := by
  have hstep : ∀ (d : Dict String (List R)) (entry : String × List R) (after : Dict String (List R))
      (old : Option (List R)), appendComponent count d entry = .ok after → d.get? entry.1 = old →
        ∃ column, (∃ values new, old = some values ∧ column = values ++ new ∧
          new.length = count ∧ ∀ p < count, new[p]? = entry.2[p]?) ∧
            after = d.set entry.1 column := by
    rintro d entry after _ hafter rfl
    unfold appendComponent at hafter
    split at hafter
    · cases hafter
    · rename_i values hvalues
      obtain ⟨new,hnew,hafter⟩ := Fallible.bind_eq_ok.mp hafter
      obtain rfl := Except.ok.inj hafter
      obtain ⟨hlen,hread⟩ := mapM_readAt_range hnew
      exact ⟨_,⟨values,new,hvalues,rfl,hlen,hread⟩,rfl⟩
  obtain ⟨hentries,hothers⟩ := Dict.foldlM_set_spec hstep hnodup h
  refine ⟨fun entry hentry => ?_,hothers⟩
  obtain ⟨_,⟨values,new,hvalues,rfl,hnew⟩,hcolumn⟩ := hentries entry hentry
  exact ⟨values,new,hvalues,hcolumn,hnew⟩

variable (taskToEnv taskNames messageLogs extraEnvInfo) in
/-- What is gathered belongs to the samples in the order in which they were gathered. -/
structure Gathered (acc : Collected ι R) : Prop where
  outcomes : List.Forall₂ (fun i outcome =>
    outcomeFor taskToEnv taskNames messageLogs extraEnvInfo i = some outcome)
      acc.indicesOrder acc.outcomes
  scalars : acc.dictRewards = none → List.Forall₂ (fun i value =>
    rewardFor taskToEnv taskNames messageLogs extraEnvInfo i = some (.scalar value))
      acc.indicesOrder acc.rewards
  own : ∀ components, acc.dictRewards = some components → acc.rewards = [] →
    ∀ i ∈ acc.indicesOrder, ∃ own : Dict String R,
      rewardFor taskToEnv taskNames messageLogs extraEnvInfo i = some (.named own) ∧
        ∀ name value, own.get? name = some value → name ∈ components.keys
  named : ∀ components, acc.dictRewards = some components → acc.rewards = [] →
    ∀ name values, components.get? name = some values → values.length ≤ acc.indicesOrder.length ∧
      (values.length = acc.indicesOrder.length → List.Forall₂ (fun i value =>
        ∃ own : Dict String R,
          rewardFor taskToEnv taskNames messageLogs extraEnvInfo i = some (.named own) ∧
            own.get? name = some value) acc.indicesOrder values)

variable (taskToEnv taskNames messageLogs extraEnvInfo) in
theorem gathered_empty :
    Gathered taskToEnv taskNames messageLogs extraEnvInfo ⟨[],[],[],none⟩ := by
  refine ⟨.nil,fun _ => .nil,fun _ hsome => ?_,fun _ hsome => ?_⟩
  · cases hsome
  · cases hsome

theorem forall₂_of_result {α : Type} {idx : List ℕ} {P : ℕ → α → Prop} {xs : List α}
    (hlen : xs.length = idx.length) (h : ∀ p (hp : p < idx.length) (hx : p < xs.length),
      P idx[p] xs[p]) : List.Forall₂ P idx xs :=
  List.forall₂_iff_get.mpr ⟨hlen.symm,fun p hp hx => h p hp hx⟩

theorem Gathered.collect {acc next : Collected ι R}
    (hacc : Gathered taskToEnv taskNames messageLogs extraEnvInfo acc)
    {result : List ℕ × EnvironmentReturn ι R} (hnil : result.1 ≠ [])
    (hresult : ∀ p (hp : p < result.1.length),
      resultFor taskToEnv taskNames messageLogs extraEnvInfo result.1[p] = some (result.2,p))
    (h : collect acc result = .ok next) :
    next.indicesOrder = acc.indicesOrder ++ result.1 ∧
      Gathered taskToEnv taskNames messageLogs extraEnvInfo next := by
  unfold Rollouts.collect at h
  obtain ⟨outcomes,houtcomes,h⟩ := Fallible.bind_eq_ok.mp h
  have hnew : List.Forall₂ (fun i outcome =>
      outcomeFor taskToEnv taskNames messageLogs extraEnvInfo i = some outcome)
        result.1 outcomes := by
    have hall := Fallible.mapM_eq_ok.mp houtcomes
    have hlen := hall.length_eq
    rw [List.length_range] at hlen
    refine forall₂_of_result hlen.symm fun p hp hx => ?_
    have hat := hall.get (by rwa [List.length_range]) hx
    simp only [List.get_eq_getElem,List.getElem_range] at hat
    rw [outcomeFor,hresult p hp,Option.bind_some,hat]
    rfl
  dsimp only at h
  split at h
  · rename_i values hrewards
    obtain ⟨new,hvalues,h⟩ := Fallible.bind_eq_ok.mp h
    obtain rfl := Except.ok.inj h
    obtain ⟨hlen,hread⟩ := mapM_readAt_range hvalues
    have hnewNil : acc.rewards ++ new ≠ [] := by
      intro heq
      rw [List.append_eq_nil_iff] at heq
      rw [heq.2] at hlen
      exact hnil (List.eq_nil_of_length_eq_zero hlen.symm)
    refine ⟨rfl,List.rel_append hacc.outcomes hnew,fun hnone => ?_,?_,?_⟩
    · refine List.rel_append (hacc.scalars hnone) (forall₂_of_result hlen fun p hp hx => ?_)
      have hat := hread p hp
      rw [List.getElem?_eq_getElem hx] at hat
      rw [rewardFor,hresult p hp,Option.bind_some]
      unfold EnvironmentReturn.rewardAt
      rw [hrewards]
      dsimp only
      rw [readAt_eq_ok.mpr hat.symm]
      rfl
    · exact fun _ _ heq => absurd heq hnewNil
    · exact fun _ _ heq => absurd heq hnewNil
  · rename_i components hrewards
    obtain ⟨dict,hdict,h⟩ := Fallible.bind_eq_ok.mp h
    obtain rfl := Except.ok.inj h
    obtain ⟨hentries,hothers⟩ := appendComponents_spec components.nodup hdict
    obtain ⟨gathered,hgathered⟩ : ∃ gathered,
      gathered = acc.dictRewards.getD (components.mapValues fun _ => []) := ⟨_,rfl⟩
    rw [← hgathered] at hentries hothers
    have hcount : 0 < result.1.length := List.length_pos_iff.mpr hnil
    have hlong : ∀ p < result.1.length, ∀ name values, components.get? name = some values →
        p < values.length := by
      intro p hp name values hvalues
      obtain ⟨_,new,_,_,hlen,hread⟩ := hentries (name,values) (Dict.mem_entries_iff.mpr hvalues)
      have hat := hread p hp
      rw [List.getElem?_eq_getElem (by rwa [hlen])] at hat
      exact (List.getElem?_eq_some_iff.mp hat.symm).1
    have hownResult : ∀ p (hp : p < result.1.length), ∃ own : Dict String R,
        rewardFor taskToEnv taskNames messageLogs extraEnvInfo result.1[p] = some (.named own) ∧
          ∀ name, own.get? name = (components.get? name).bind (·[p]?) := by
      intro p hp
      obtain ⟨own,hown,hget⟩ := rewardAt_named hrewards (hlong p hp)
      exact ⟨own,by rw [rewardFor,hresult p hp,Option.bind_some,hown]; rfl,hget⟩
    have hbefore : acc.rewards = [] →
        (∀ i ∈ acc.indicesOrder, ∃ own : Dict String R,
          rewardFor taskToEnv taskNames messageLogs extraEnvInfo i = some (.named own) ∧
            ∀ name value, own.get? name = some value → name ∈ gathered.keys) ∧
        ∀ name values, gathered.get? name = some values →
          values.length ≤ acc.indicesOrder.length ∧
            (values.length = acc.indicesOrder.length → List.Forall₂ (fun i value =>
              ∃ own : Dict String R,
                rewardFor taskToEnv taskNames messageLogs extraEnvInfo i = some (.named own) ∧
                  own.get? name = some value) acc.indicesOrder values) := by
      intro hnone
      cases hacc' : acc.dictRewards with
      | some d =>
        rw [hacc'] at hgathered
        obtain rfl : gathered = d := hgathered
        exact ⟨hacc.own gathered hacc' hnone,hacc.named gathered hacc' hnone⟩
      | none =>
        have hempty := hacc.scalars hacc'
        rw [hnone] at hempty
        have horder : acc.indicesOrder = [] := List.forall₂_nil_right_iff.mp hempty
        rw [hacc'] at hgathered
        obtain rfl : gathered = components.mapValues fun _ => [] := hgathered
        rw [horder]
        refine ⟨fun i hi => absurd hi List.not_mem_nil,fun name values hvalues => ?_⟩
        rw [Dict.get?_mapValues] at hvalues
        obtain ⟨_,_,rfl⟩ := Option.map_eq_some_iff.mp hvalues
        exact ⟨le_rfl,fun _ => .nil⟩
    have hkept : ∀ name ∈ gathered.keys, name ∈ dict.keys := by
      intro name hname
      by_cases hin : name ∈ components.entries.map Prod.fst
      · obtain ⟨entry,hentry,rfl⟩ := List.mem_map.mp hin
        obtain ⟨_,_,_,hget,_⟩ := hentries entry hentry
        exact mem_keys_of_get? hget
      · rw [Dict.mem_keys_iff,hothers name hin]
        exact Dict.mem_keys_iff.mp hname
    refine ⟨rfl,List.rel_append hacc.outcomes hnew,fun hnone => absurd hnone (by simp),?_,?_⟩
    · intro components' hcomponents' hnone i hi
      obtain rfl := Option.some.inj hcomponents'
      rcases List.mem_append.mp hi with hold | hresultMem
      · obtain ⟨own,hown,hkeys⟩ := (hbefore hnone).1 i hold
        exact ⟨own,hown,fun name value hvalue => hkept name (hkeys name value hvalue)⟩
      · obtain ⟨p,hp,rfl⟩ := List.mem_iff_getElem.mp hresultMem
        obtain ⟨own,hown,hget⟩ := hownResult p hp
        refine ⟨own,hown,fun name value hvalue => ?_⟩
        rw [hget] at hvalue
        obtain ⟨values,hvalues,_⟩ := Option.bind_eq_some_iff.mp hvalue
        obtain ⟨_,_,_,hnext,_⟩ := hentries (name,values) (Dict.mem_entries_iff.mpr hvalues)
        exact mem_keys_of_get? hnext
    · intro components' hcomponents' hnone name values hvalues
      obtain rfl := Option.some.inj hcomponents'
      rw [List.length_append]
      by_cases hin : name ∈ components.entries.map Prod.fst
      · obtain ⟨entry,hentry,rfl⟩ := List.mem_map.mp hin
        obtain ⟨before,new,hget,hnext,hlen,hread⟩ := hentries entry hentry
        obtain rfl := Option.some.inj (hnext.symm.trans hvalues)
        obtain ⟨hle,hall⟩ := (hbefore hnone).2 _ _ hget
        rw [List.length_append,hlen]
        refine ⟨by omega,fun heq => List.rel_append (hall (by omega)) ?_⟩
        refine forall₂_of_result hlen fun p hp hx => ?_
        obtain ⟨own,hown,hownGet⟩ := hownResult p hp
        refine ⟨own,hown,?_⟩
        rw [hownGet,Dict.mem_entries_iff.mp hentry,Option.bind_some,← hread p hp,
          List.getElem?_eq_getElem hx]
      · rw [hothers name hin] at hvalues
        obtain ⟨hle,_⟩ := (hbefore hnone).2 _ _ hvalues
        exact ⟨by omega,fun heq => absurd heq (by omega)⟩

theorem Gathered.collectAll {acc all : Collected ι R}
    (hacc : Gathered taskToEnv taskNames messageLogs extraEnvInfo acc)
    {results : List (List ℕ × EnvironmentReturn ι R)}
    (hresults : ∀ result ∈ results, result.1 ≠ [] ∧ ∀ p (hp : p < result.1.length),
      resultFor taskToEnv taskNames messageLogs extraEnvInfo result.1[p] = some (result.2,p))
    (h : results.foldlM Rollouts.collect acc = .ok all) :
    all.indicesOrder = acc.indicesOrder ++ results.flatMap Prod.fst ∧
      Gathered taskToEnv taskNames messageLogs extraEnvInfo all := by
  induction results generalizing acc with
  | nil =>
    obtain rfl := Except.ok.inj h
    exact ⟨by simp,hacc⟩
  | cons result results ih =>
    rw [List.foldlM_cons] at h
    obtain ⟨middle,hmiddle,h⟩ := Fallible.bind_eq_ok.mp h
    obtain ⟨hresult,hrest⟩ := List.forall_mem_cons.mp hresults
    obtain ⟨horder,hnext⟩ := hacc.collect hresult.1 hresult.2 hmiddle
    obtain ⟨horder',hall⟩ := ih hnext hrest h
    exact ⟨by rw [horder',horder,List.append_assoc,List.flatMap_cons],hall⟩

/-- Every sample is gathered once, with what its environment returned. -/
theorem gathered_all {results : List (List ℕ × EnvironmentReturn ι R)} {all : Collected ι R}
    (hresults : (group taskNames).entries.mapM (stepGroup taskToEnv
      (messageLogs.map fun log => log.map Message.text) extraEnvInfo) = .ok results)
    (hall : results.foldlM Rollouts.collect ⟨[],[],[],none⟩ = .ok all) :
    all.indicesOrder.Perm (List.range taskNames.length) ∧
      Gathered taskToEnv taskNames messageLogs extraEnvInfo all := by
  have hpairs := Fallible.mapM_eq_ok.mp hresults
  have hspec : ∀ result ∈ results, result.1 ≠ [] ∧ ∀ p (hp : p < result.1.length),
      resultFor taskToEnv taskNames messageLogs extraEnvInfo result.1[p] = some (result.2,p) := by
    intro result hresult
    obtain ⟨group,hgroup,hstep⟩ := (Fallible.mem_mapM_iff hresults).mp hresult
    obtain ⟨hfst,hfor⟩ := stepGroup_spec hgroup hstep
    obtain ⟨hkey,hidx⟩ := mem_entries_group.mp hgroup
    refine ⟨?_,hfor⟩
    obtain ⟨i,hi,hat⟩ := List.mem_iff_getElem.mp hkey
    have hmem : i ∈ positions taskNames group.1 :=
      mem_positions.mpr ((List.getElem?_eq_getElem hi).trans (congrArg some hat))
    rw [hfst,hidx]
    exact List.ne_nil_of_mem hmem
  have hflat : results.flatMap Prod.fst = (group taskNames).entries.flatMap Prod.snd := by
    rw [List.flatMap_def,List.flatMap_def]
    refine congrArg List.flatten (List.ext_getElem (by simp [hpairs.length_eq]) fun j hj hj' => ?_)
    rw [List.length_map] at hj hj'
    rw [List.getElem_map,List.getElem_map]
    exact (stepGroup_spec (List.getElem_mem hj') (hpairs.get hj' hj)).1
  obtain ⟨horder,hgathered⟩ := Gathered.collectAll
    (gathered_empty taskToEnv taskNames messageLogs extraEnvInfo) hspec hall
  refine ⟨?_,hgathered⟩
  rw [horder,hflat]
  exact flatMap_entries_perm taskNames

/-- The rewards of a batch are those of its samples. -/
def RewardsMatch (rewards : Rewards R) (n : ℕ) (own : ℕ → Option (SampleReward R)) : Prop :=
  match rewards with
  | .scalar values => values.length = n ∧
      ∀ i < n, ∃ value, values[i]? = some value ∧ own i = some (.scalar value)
  | .named components =>
      (∀ name values, components.get? name = some values → values.length = n) ∧
      ∀ i < n, ∃ named : Dict String R, own i = some (.named named) ∧
        ∀ name, named.get? name = (components.get? name).bind (·[i]?)

/-- Every sample gets back what the environment of its task returned for it. -/
theorem calculateRewards_spec {feedback : Feedback ι R}
    (h : calculateRewards taskToEnv taskNames messageLogs extraEnvInfo = .ok feedback) :
    feedback.outcomes.length = taskNames.length ∧
    (∀ i < taskNames.length, ∃ outcome, feedback.outcomes[i]? = some outcome ∧
      outcomeFor taskToEnv taskNames messageLogs extraEnvInfo i = some outcome) ∧
    RewardsMatch feedback.rewards taskNames.length
      (rewardFor taskToEnv taskNames messageLogs extraEnvInfo) := by
  unfold calculateRewards at h
  obtain ⟨results,hresults,h⟩ := Fallible.bind_eq_ok.mp h
  obtain ⟨all,hall,h⟩ := Fallible.bind_eq_ok.mp h
  obtain ⟨hperm,hgathered⟩ := gathered_all hresults hall
  have hsorted := sortByKey_perm (fun k => all.indicesOrder.getD k 0)
    (List.range all.indicesOrder.length)
  unfold inOrder at h
  dsimp only at h
  cases hdict : all.dictRewards with
  | none =>
    rw [hdict] at h
    obtain ⟨rewards,hrewards,h⟩ := Fallible.bind_eq_ok.mp h
    obtain ⟨outcomes,houtcomes,h⟩ := Fallible.bind_eq_ok.mp h
    obtain rfl := Except.ok.inj h
    obtain ⟨values,hvalues,rfl⟩ := Fallible.map_eq_ok.mp hrewards
    obtain ⟨hlength,hat⟩ := sorted_spec hperm hgathered.outcomes houtcomes
    exact ⟨hlength,hat,sorted_spec hperm (hgathered.scalars hdict) hvalues⟩
  | some components =>
    rw [hdict] at h
    dsimp only at h
    split_ifs at h with hmixed
    · cases h
    · have hnone : all.rewards = [] := List.eq_nil_of_length_eq_zero (not_not.mp hmixed)
      obtain ⟨rewards,hrewards,h⟩ := Fallible.bind_eq_ok.mp h
      obtain ⟨outcomes,houtcomes,h⟩ := Fallible.bind_eq_ok.mp h
      obtain rfl := Except.ok.inj h
      obtain ⟨built,hbuilt,rfl⟩ := Fallible.map_eq_ok.mp hrewards
      obtain ⟨hlength,hat⟩ := sorted_spec hperm hgathered.outcomes houtcomes
      obtain ⟨hnames,hget⟩ := Dict.get?_of_build hbuilt
      have hcolumn : ∀ name values, built.get? name = some values →
          values.length = taskNames.length ∧ ∀ i < taskNames.length, ∃ value,
            values[i]? = some value ∧ ∃ own : Dict String R,
              rewardFor taskToEnv taskNames messageLogs extraEnvInfo i = some (.named own) ∧
                own.get? name = some value := by
        intro name values hvalues
        obtain ⟨hname,hread⟩ := (hget name values).mp hvalues
        obtain ⟨column,hcolumn⟩ := Option.isSome_iff_exists.mp (Dict.mem_keys_iff.mp hname)
        rw [hcolumn,Option.getD_some] at hread
        obtain ⟨hle,hall⟩ := hgathered.named components hdict hnone name column hcolumn
        have hwithin := (mapM_readAt.mp hread).1
        have hlong : all.indicesOrder.length ≤ column.length := by
          by_contra hshort
          have hlast := hwithin column.length (hsorted.mem_iff.mpr (List.mem_range.mpr (by omega)))
          omega
        exact sorted_spec hperm (hall (by omega)) hread
      refine ⟨hlength,hat,fun name values hvalues => (hcolumn name values hvalues).1,fun i hi => ?_⟩
      obtain ⟨own,hown,hkeys⟩ := hgathered.own components hdict hnone i
        (hperm.mem_iff.mpr (List.mem_range.mpr hi))
      refine ⟨own,hown,fun name => ?_⟩
      cases hbuiltName : built.get? name with
      | some values =>
        obtain ⟨_,hcells⟩ := hcolumn name values hbuiltName
        obtain ⟨value,hvalue,own',hown',hownValue⟩ := hcells i hi
        obtain rfl := SampleReward.named.inj (Option.some.inj (hown.symm.trans hown'))
        rw [hownValue,Option.bind_some,hvalue]
      | none =>
        cases hownName : own.get? name with
        | none => rfl
        | some value =>
          have hmem := hkeys name value hownName
          obtain ⟨values,hvalues⟩ := hnames name hmem
          rw [(hget name values).mpr ⟨hmem,hvalues⟩] at hbuiltName
          cases hbuiltName

end Calculate

end Rollouts
end DockyardRL
