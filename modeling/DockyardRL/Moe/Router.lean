import DockyardRL.Lib.Chunks
import DockyardRL.Lib.Fallible
import DockyardRL.Lib.Numerals
import DockyardRL.Lib.TopK
import DockyardRL.Lib.Reductions
import Mathlib

/-! Token-choice routing: the experts of a token are those with the greatest scores, where the experts
are in groups those of the groups that are kept. One token is looked at; a batch is routed token by
token. -/
namespace DockyardRL
namespace Moe
namespace Router

open Chunks Numerals Softmax TopK

inductive RouterError
  | topK (topK numExperts : ℕ)
  | numLimitedGroups
  | scoreFunc (name : String)
  /-- The experts are distributed over no group. -/
  | zeroDivision
  | notDivisible (numExperts numExpertGroups : ℕ)
  | expertsPerGroup (got : ℕ)
  /-- More is to be selected than there is. -/
  | outOfRange (k size : ℕ)
  deriving DecidableEq, Repr

structure RouterConfig (K : Type) where
  numExperts : ℕ
  topK : ℕ
  scoreFunc : String
  routeNorm : Bool
  routeScale : K
  numExpertGroups : Option ℕ
  numLimitedGroups : Option ℕ

/-- What both constructors accept, with the rows of the gate. -/
structure TokenChoiceTopKRouter (K : Type) extends RouterConfig K where
  gate : List (List K)
  length_gate : gate.length = numExperts
  one_le_topK : 1 ≤ topK
  topK_le : topK ≤ numExperts
  limited : numExpertGroups.isSome → numLimitedGroups.isSome

variable {K : Type}

/-- `TokenChoiceTopKRouter.__init__`, of both trainers. -/
def init (config : RouterConfig K) (gate : List (List K)) (hgate : gate.length = config.numExperts) :
    Except RouterError (TokenChoiceTopKRouter K) :=
  if hlow : config.topK < 1 then .error (.topK config.topK config.numExperts)
  else if hhigh : config.numExperts < config.topK then .error (.topK config.topK config.numExperts)
  else if hlimited : config.numExpertGroups.isSome ∧ ¬config.numLimitedGroups.isSome then
    .error .numLimitedGroups
  else .ok ⟨config,gate,hgate,not_lt.mp hlow,not_lt.mp hhigh,fun h =>
    not_not.mp fun hnone => hlimited ⟨h,hnone⟩⟩

def expertsPerGroup (numExperts numExpertGroups : ℕ) : Except RouterError ℕ :=
  if numExpertGroups = 0 then .error .zeroDivision
  else if numExperts % numExpertGroups ≠ 0 then .error (.notDivisible numExperts numExpertGroups)
  else if numExperts / numExpertGroups < 2 then .error (.expertsPerGroup (numExperts / numExpertGroups))
  else .ok (numExperts / numExpertGroups)

def topkIndices (topk : Selector) {V : Type} [LinearOrder V] (row : List V) (k : ℕ) :
    Except RouterError (List ℕ) :=
  if row.length < k then .error (.outOfRange k row.length) else .ok ((topk.run row k).map Prod.snd)

/-- Routing weights and chosen experts of a token, with the scores of all experts. -/
structure Routed (K : Type) where
  topkScores : List K
  topkExpertIds : List ℕ
  scores : List K

section Scores

variable [Field K] [LinearOrder K]

/-- `self.gate(x)`. -/
def TokenChoiceTopKRouter.logits (router : TokenChoiceTopKRouter K) (x : List K) : List K :=
  router.gate.map fun row => (List.zipWith (· * ·) row x).sum

def scoresOf (e : Exponential K) (scoreFunc : String) (logits : List K) : Except RouterError (List K) :=
  if scoreFunc = "sigmoid" then .ok (logits.map fun x => 1 / (1 + e.exp (-x)))
  else if scoreFunc = "softmax" then .ok (logits.map fun x => e.exp x / e.total logits)
  else .error (.scoreFunc scoreFunc)

def scoresForChoice (scores : List K) (expertBias : Option (List K)) : List K :=
  match expertBias with
  | none => scores
  | some bias => List.zipWith (· + ·) scores bias

def groupScores (topk : Selector) (grouped : List (List K)) : List K :=
  grouped.map fun group => ((topk.run group 2).map Prod.fst).sum

/-- The scores with `negInf` in the place of those of the groups that are not kept; `value` is what
the scores are beside it. -/
def limitedScores (topk : Selector) {V : Type} (value : K → V) (negInf : V) (numExperts groups limited : ℕ)
    (scores : List K) : Except RouterError (List V) := do
  let perGroup ← expertsPerGroup numExperts groups
  let grouped := chunks perGroup scores
  let keepIdx ← topkIndices topk (groupScores topk grouped) limited
  return (grouped.mapIdx fun g group =>
    group.map fun x => if g ∈ keepIdx then value x else negInf).flatten

/-- The experts of a token. -/
def chooseTopkIds (topk : Selector) {V : Type} [LinearOrder V] (value : K → V) (negInf : V)
    (config : RouterConfig K) (scores : List K) (expertBias : Option (List K)) :
    Except RouterError (List ℕ) := do
  let choice := scoresForChoice scores expertBias
  let scored ← match config.numExpertGroups,config.numLimitedGroups with
    | some groups,some limited =>
      limitedScores topk value negInf config.numExperts groups limited choice
    | _,_ => .ok (choice.map value)
  topkIndices topk scored config.topK

def gatingWeight (config : RouterConfig K) (scores : List K) (ids : List ℕ) (e : ℕ) : K :=
  let score := scores.getD e 0
  (if config.routeNorm then score / ((ids.map fun f => scores.getD f 0).sum + (10 ^ 20)⁻¹) else score) *
    config.routeScale

def route (topk : Selector) {V : Type} [LinearOrder V] (value : K → V) (negInf : V)
    (config : RouterConfig K) (scores : List K) (expertBias : Option (List K)) :
    Except RouterError (Routed K) := do
  let ids ← chooseTopkIds topk value negInf config scores expertBias
  return ⟨ids.map (gatingWeight config scores ids),ids,scores⟩

/-- `forward` of the DTensor router behind its scores: groups are masked by minus infinity. -/
def routeDTensor (topk : Selector) (config : RouterConfig K) (scores : List K)
    (expertBias : Option (List K)) : Except RouterError (Routed K) :=
  route topk ((↑) : K → WithBot K) ⊥ config scores expertBias

/-- `__call__` of the JAX router behind its scores: groups are masked by `jnp.finfo(jnp.float32).min`. -/
def routeJax (topk : Selector) (finfoMin : K) (config : RouterConfig K) (scores : List K)
    (expertBias : Option (List K)) : Except RouterError (Routed K) :=
  route topk id finfoMin config scores expertBias

variable (e : Exponential K) (router : TokenChoiceTopKRouter K) (x : List K) (expertBias : Option (List K))

/-- `TokenChoiceTopKRouter.forward` of the DTensor trainer, where no route is replayed. -/
def forward (topk : Selector) : Except RouterError (Routed K) := do
  let scores ← scoresOf e router.scoreFunc (router.logits x)
  routeDTensor topk router.toRouterConfig scores expertBias

/-- `TokenChoiceTopKRouter.__call__` of the JAX trainer. -/
def call (topk : Selector) (finfoMin : K) : Except RouterError (Routed K) := do
  let scores ← scoresOf e router.scoreFunc (router.logits x)
  routeJax topk finfoMin router.toRouterConfig scores expertBias

end Scores

section Choice

variable [Field K] [LinearOrder K]

def groupSum (choice : List K) (perGroup g : ℕ) : K :=
  (greatestOf ((choice.drop (g * perGroup)).take perGroup) 2).sum

/-- Few enough groups have a greater sum. -/
def KeptGroup (choice : List K) (perGroup groups limited g : ℕ) : Prop :=
  ((List.range groups).countP fun h => groupSum choice perGroup g < groupSum choice perGroup h) < limited

/-- An expert of a kept group; every expert, where there are no groups. -/
def Kept (config : RouterConfig K) (choice : List K) (e : ℕ) : Prop :=
  ∀ groups limited, config.numExpertGroups = some groups → config.numLimitedGroups = some limited →
    KeptGroup choice (config.numExperts / groups) groups limited (e / (config.numExperts / groups))

/-- The chosen experts are the best of the kept groups, with the weights that the scores give. -/
structure RoutedBest (config : RouterConfig K) (scores : List K) (expertBias : Option (List K))
    (out : Routed K) : Prop where
  best : Among (Kept config (scoresForChoice scores expertBias)) (scoresForChoice scores expertBias)
    config.topK out.topkExpertIds
  weights : out.topkScores = out.topkExpertIds.map (gatingWeight config scores out.topkExpertIds)
  scores : out.scores = scores

/-- Groups that are not refused. -/
structure GroupsAccepted (numExperts groups limited : ℕ) : Prop where
  ne_zero : groups ≠ 0
  mod_eq : numExperts % groups = 0
  two_le : 2 ≤ numExperts / groups
  limited_le : limited ≤ groups

/-- The kept groups have as many experts as are chosen. -/
def Fits (config : RouterConfig K) : Prop :=
  ∀ groups limited, config.numExpertGroups = some groups → config.numLimitedGroups = some limited →
    GroupsAccepted config.numExperts groups limited →
      config.topK ≤ limited * (config.numExperts / groups)

def refusal (numExperts groups limited : ℕ) : RouterError :=
  match expertsPerGroup numExperts groups with
  | .error err => err
  | .ok _ => .outOfRange limited groups

theorem GroupsAccepted.expertsPerGroup {numExperts groups limited : ℕ}
    (h : GroupsAccepted numExperts groups limited) :
    expertsPerGroup numExperts groups = .ok (numExperts / groups) := by
  rw [Router.expertsPerGroup,if_neg h.ne_zero,if_neg (not_not.mpr h.mod_eq),
    if_neg (not_lt.mpr h.two_le)]

theorem of_expertsPerGroup {numExperts groups perGroup : ℕ}
    (h : expertsPerGroup numExperts groups = .ok perGroup) :
    groups ≠ 0 ∧ numExperts % groups = 0 ∧ 2 ≤ perGroup ∧ perGroup = numExperts / groups := by
  rw [expertsPerGroup] at h
  split_ifs at h with hzero hmod htwo
  obtain rfl := Except.ok.inj h
  exact ⟨hzero,not_not.mp hmod,not_lt.mp htwo,rfl⟩

omit [Field K] [LinearOrder K] in
theorem chunks_groups {choice : List K} {numExperts groups : ℕ} (hlen : choice.length = numExperts)
    (hmod : numExperts % groups = 0) (hpos : 0 < numExperts / groups) :
    chunks (numExperts / groups) choice = (List.range groups).map fun g =>
      (choice.drop (g * (numExperts / groups))).take (numExperts / groups) := by
  have hdvd := Nat.dvd_of_mod_eq_zero hmod
  have hne : numExperts ≠ 0 := fun hzero => by simp [hzero] at hpos
  have hsteps : rangeSteps choice.length (numExperts / groups) = groups := by
    rw [hlen,rangeSteps_eq hpos,if_pos (Nat.div_dvd_of_dvd hdvd),Nat.div_div_self hdvd hne,Nat.add_zero]
  rw [chunks,hsteps]

variable (topk : Selector)

theorem groupScores_eq {choice : List K} {numExperts groups : ℕ} (hlen : choice.length = numExperts)
    (hmod : numExperts % groups = 0) (htwo : 2 ≤ numExperts / groups) :
    groupScores topk (chunks (numExperts / groups) choice) =
      (List.range groups).map (groupSum choice (numExperts / groups)) := by
  rw [groupScores,chunks_groups hlen hmod (by omega),List.map_map]
  refine List.map_congr_left fun g hg => ?_
  have hmul : groups * (numExperts / groups) = numExperts :=
    Nat.mul_div_cancel' (Nat.dvd_of_mod_eq_zero hmod)
  have hfull : ((choice.drop (g * (numExperts / groups))).take (numExperts / groups)).length =
      numExperts / groups := by
    have hle : (g + 1) * (numExperts / groups) ≤ numExperts :=
      (Nat.mul_le_mul_right _ (List.mem_range.mp hg)).trans hmul.le
    rw [List.length_take,List.length_drop,hlen]
    rw [Nat.succ_mul] at hle
    omega
  exact (topk.chosen _ 2 (htwo.trans hfull.ge)).values_perm.sum_eq

section Keep

variable {choice : List K} {perGroup groups limited : ℕ} {keepIdx : List ℕ}

omit [Field K] [LinearOrder K] in
theorem topkIndices_eq {V : Type} [LinearOrder V] {row : List V} {k : ℕ} (hk : k ≤ row.length) :
    ∃ sel, topkIndices topk row k = .ok (sel.map Prod.snd) ∧ Chosen row k sel := by
  rw [topkIndices,if_neg (not_lt.mpr hk)]
  exact ⟨_,rfl,topk.chosen row k hk⟩

omit [Field K] [LinearOrder K] in
theorem chosen_of_topkIndices {V : Type} [LinearOrder V] {row : List V} {k : ℕ} {ids : List ℕ}
    (h : topkIndices topk row k = .ok ids) : ∃ sel, Chosen row k sel ∧ ids = sel.map Prod.snd := by
  rw [topkIndices] at h
  split_ifs at h with hk
  exact ⟨_,topk.chosen row k (not_lt.mp hk),(Except.ok.inj h).symm⟩

theorem countP_keepIdx (hpos : 0 < perGroup)
    (h : topkIndices topk ((List.range groups).map (groupSum choice perGroup)) limited = .ok keepIdx) :
    ((List.range (groups * perGroup)).countP fun e => e / perGroup ∈ keepIdx) = limited * perGroup := by
  obtain ⟨sel,hsel,rfl⟩ := chosen_of_topkIndices topk h
  have hlt : ∀ g ∈ sel.map Prod.snd, g < groups := fun g hg => by simpa using hsel.position_lt hg
  rw [countP_div (fun g => g ∈ sel.map Prod.snd) perGroup groups hpos,countP_mem hsel.nodup hlt,
    List.length_map,hsel.length_eq]

theorem mem_keepIdx (hsums : ((List.range groups).map (groupSum choice perGroup)).Nodup)
    (h : topkIndices topk ((List.range groups).map (groupSum choice perGroup)) limited = .ok keepIdx)
    {g : ℕ} (hg : g < groups) : g ∈ keepIdx ↔ KeptGroup choice perGroup groups limited g := by
  obtain ⟨sel,hsel,rfl⟩ := chosen_of_topkIndices topk h
  have hget : ((List.range groups).map (groupSum choice perGroup))[g]? =
      some (groupSum choice perGroup g) := by
    rw [List.getElem?_map,List.getElem?_range hg]
    rfl
  rw [hsel.mem_iff hsums,hget,KeptGroup]
  simp only [Option.some_inj,exists_eq_left',List.countP_map]
  rfl

end Keep

section Limited

variable {V : Type} (value : K → V) (negInf : V) {numExperts groups limited : ℕ} {choice : List K}
  (hlen : choice.length = numExperts)

include hlen

theorem limitedScores_eq (h : GroupsAccepted numExperts groups limited) : ∃ keepIdx,
    topkIndices topk ((List.range groups).map (groupSum choice (numExperts / groups))) limited =
      .ok keepIdx ∧
    limitedScores topk value negInf numExperts groups limited choice =
      .ok (masked value negInf (fun e => e / (numExperts / groups) ∈ keepIdx) choice) := by
  have hpos : 0 < numExperts / groups := Nat.zero_lt_of_lt h.two_le
  have hk : limited ≤ ((List.range groups).map (groupSum choice (numExperts / groups))).length := by
    simpa using h.limited_le
  obtain ⟨sel,hsel,-⟩ := topkIndices_eq topk hk
  refine ⟨_,hsel,?_⟩
  rw [← groupScores_eq topk hlen h.mod_eq h.two_le] at hsel
  rw [limitedScores,h.expertsPerGroup]
  refine Fallible.bind_eq_ok.mpr ⟨_,rfl,Fallible.bind_eq_ok.mpr ⟨_,hsel,?_⟩⟩
  refine congrArg Except.ok ?_
  exact flatten_mapIdx_chunks hpos (fun g x => if g ∈ sel.map Prod.snd then value x else negInf) choice

theorem limitedScores_refused (h : ¬GroupsAccepted numExperts groups limited) :
    limitedScores topk value negInf numExperts groups limited choice =
      .error (refusal numExperts groups limited) := by
  rw [limitedScores,refusal]
  cases hper : expertsPerGroup numExperts groups with
  | error err => rfl
  | ok perGroup =>
    obtain ⟨hne,hmod,htwo,rfl⟩ := of_expertsPerGroup hper
    have hlimited : groups < limited := not_le.mp fun hle => h ⟨hne,hmod,htwo,hle⟩
    show (topkIndices topk (groupScores topk (chunks (numExperts / groups) choice)) limited).bind _ = _
    rw [groupScores_eq topk hlen hmod htwo,topkIndices,List.length_map,List.length_range,
      if_pos hlimited]
    rfl

end Limited

section Route

variable (router : TokenChoiceTopKRouter K) {V : Type} [LinearOrder V] (value : K → V) (negInf : V)
  {scores : List K} {expertBias : Option (List K)}
  (hlen : (scoresForChoice scores expertBias).length = router.numExperts)

def groupsOf (config : RouterConfig K) : Option (ℕ × ℕ) :=
  config.numExpertGroups.bind fun groups => config.numLimitedGroups.map (Prod.mk groups)

omit [Field K] [LinearOrder K] in
theorem groupsOf_eq_some {config : RouterConfig K} {groups limited : ℕ} :
    groupsOf config = some (groups,limited) ↔
      config.numExpertGroups = some groups ∧ config.numLimitedGroups = some limited := by
  simp only [groupsOf,Option.bind_eq_some_iff,Option.map_eq_some_iff,Prod.mk.injEq]
  constructor
  · rintro ⟨g,hg,m,hm,rfl,rfl⟩
    exact ⟨hg,hm⟩
  · rintro ⟨hg,hm⟩
    exact ⟨groups,hg,limited,hm,rfl,rfl⟩

theorem choose_eq : chooseTopkIds topk value negInf router.toRouterConfig scores expertBias =
    (match groupsOf router.toRouterConfig with
      | some (groups,limited) => limitedScores topk value negInf router.numExperts groups limited
          (scoresForChoice scores expertBias)
      | none => .ok ((scoresForChoice scores expertBias).map value)).bind fun scored =>
        topkIndices topk scored router.topK := by
  rw [chooseTopkIds,groupsOf]
  cases router.numExpertGroups with
  | none => rfl
  | some groups =>
    cases router.numLimitedGroups with
    | none => rfl
    | some limited => rfl

include hlen

theorem choose_ungrouped (hgroups : groupsOf router.toRouterConfig = none) : ∃ sel,
    chooseTopkIds topk value negInf router.toRouterConfig scores expertBias = .ok (sel.map Prod.snd) ∧
    Chosen (masked value negInf (fun _ => True) (scoresForChoice scores expertBias)) router.topK sel := by
  have hrow : masked value negInf (fun _ => True) (scoresForChoice scores expertBias) =
      (scoresForChoice scores expertBias).map value := by
    refine List.ext_getElem? fun i => ?_
    rw [getElem?_masked,List.getElem?_map]
    simp only [if_true]
  rw [choose_eq,hgroups,hrow]
  exact topkIndices_eq topk (by rw [List.length_map,hlen]; exact router.topK_le)

theorem choose_grouped {groups limited : ℕ} (hgroups : groupsOf router.toRouterConfig =
    some (groups,limited)) (hacc : GroupsAccepted router.numExperts groups limited) :
    ∃ keepIdx sel,
      topkIndices topk ((List.range groups).map
        (groupSum (scoresForChoice scores expertBias) (router.numExperts / groups))) limited =
          .ok keepIdx ∧
      chooseTopkIds topk value negInf router.toRouterConfig scores expertBias =
        .ok (sel.map Prod.snd) ∧
      Chosen (masked value negInf (fun e => e / (router.numExperts / groups) ∈ keepIdx)
        (scoresForChoice scores expertBias)) router.topK sel := by
  obtain ⟨keepIdx,hkeep,hscored⟩ := limitedScores_eq topk value negInf hlen hacc
  rw [choose_eq,hgroups]
  dsimp only
  rw [hscored]
  have hk : router.topK ≤ (masked value negInf (fun e => e / (router.numExperts / groups) ∈ keepIdx)
      (scoresForChoice scores expertBias)).length := by
    rw [masked,List.length_mapIdx,hlen]
    exact router.topK_le
  obtain ⟨sel,hsel,hchosen⟩ := topkIndices_eq topk hk
  exact ⟨keepIdx,sel,hkeep,hsel,hchosen⟩

theorem choose_refused {groups limited : ℕ} (hgroups : groupsOf router.toRouterConfig =
    some (groups,limited)) (hacc : ¬GroupsAccepted router.numExperts groups limited) :
    chooseTopkIds topk value negInf router.toRouterConfig scores expertBias =
      .error (refusal router.numExperts groups limited) := by
  rw [choose_eq,hgroups]
  dsimp only
  rw [limitedScores_refused topk value negInf hlen hacc]
  rfl

theorem among_choose {value : K → V} {negInf : V} (hvalue : StrictMono value)
    (hmask : ∀ c ∈ scoresForChoice scores expertBias, negInf < value c)
    (hsums : ∀ groups, router.numExpertGroups = some groups → ((List.range groups).map
      (groupSum (scoresForChoice scores expertBias) (router.numExperts / groups))).Nodup)
    {ids : List ℕ}
    (h : chooseTopkIds topk value negInf router.toRouterConfig scores expertBias = .ok ids) :
    Among (Kept router.toRouterConfig (scoresForChoice scores expertBias))
      (scoresForChoice scores expertBias) router.topK ids ↔ Fits router.toRouterConfig := by
  cases hgroups : groupsOf router.toRouterConfig with
  | none =>
    have hnone : ∀ groups limited, router.numExpertGroups = some groups →
        router.numLimitedGroups ≠ some limited := fun groups limited hg hm => by
      rw [groupsOf_eq_some.mpr ⟨hg,hm⟩] at hgroups
      cases hgroups
    obtain ⟨sel,hsel,hchosen⟩ := choose_ungrouped topk router value negInf hlen hgroups
    obtain rfl := Except.ok.inj (hsel.symm.trans h)
    have hall := (among_iff hvalue hmask hchosen).mpr (by simpa [hlen] using router.topK_le)
    refine iff_of_true ((Among.congr fun e _ => ?_).mp hall) fun groups limited hg hm => ?_
    · exact iff_of_true trivial fun groups limited hg hm => absurd hm (hnone groups limited hg)
    · exact absurd hm (hnone groups limited hg)
  | some pair =>
    obtain ⟨groups,limited⟩ := pair
    obtain ⟨hg,hm⟩ := groupsOf_eq_some.mp hgroups
    by_cases hacc : GroupsAccepted router.numExperts groups limited
    · obtain ⟨keepIdx,sel,hkeep,hsel,hchosen⟩ :=
        choose_grouped topk router value negInf hlen hgroups hacc
      obtain rfl := Except.ok.inj (hsel.symm.trans h)
      have hpos : 0 < router.numExperts / groups := Nat.zero_lt_of_lt hacc.two_le
      have hmul : groups * (router.numExperts / groups) = router.numExperts :=
        Nat.mul_div_cancel' (Nat.dvd_of_mod_eq_zero hacc.mod_eq)
      have hkept : ∀ e < (scoresForChoice scores expertBias).length,
          e / (router.numExperts / groups) ∈ keepIdx ↔
            Kept router.toRouterConfig (scoresForChoice scores expertBias) e := by
        intro e he
        have hlt : e / (router.numExperts / groups) < groups := by
          rw [hlen,← hmul,Nat.mul_comm] at he
          exact Nat.div_lt_of_lt_mul he
        rw [mem_keepIdx topk (hsums groups hg) hkeep hlt]
        constructor
        · intro hin groups' limited' hg' hm'
          obtain rfl := Option.some.inj (hg.symm.trans hg')
          obtain rfl := Option.some.inj (hm.symm.trans hm')
          exact hin
        · intro hin
          exact hin groups limited hg hm
      have hcount := countP_keepIdx topk hpos hkeep
      rw [hmul] at hcount
      rw [← Among.congr hkept,among_iff hvalue hmask hchosen,hlen,hcount]
      constructor
      · intro hle groups' limited' hg' hm' _
        obtain rfl := Option.some.inj (hg.symm.trans hg')
        obtain rfl := Option.some.inj (hm.symm.trans hm')
        exact hle
      · intro hfits
        exact hfits groups limited hg hm hacc
    · rw [choose_refused topk router value negInf hlen hgroups hacc] at h
      cases h

end Route

section Trainers

variable (router : TokenChoiceTopKRouter K) {scores : List K} {expertBias : Option (List K)}

theorem route_eq_ok {config : RouterConfig K} {V : Type} [LinearOrder V] {value : K → V} {negInf : V}
    {out : Routed K} : route topk value negInf config scores expertBias = .ok out ↔ ∃ ids,
      chooseTopkIds topk value negInf config scores expertBias = .ok ids ∧
        out = ⟨ids.map (gatingWeight config scores ids),ids,scores⟩ := by
  rw [route]
  constructor
  · intro h
    obtain ⟨ids,hids,h⟩ := Fallible.bind_eq_ok.mp h
    exact ⟨ids,hids,(Except.ok.inj h).symm⟩
  · rintro ⟨ids,hids,rfl⟩
    exact Fallible.bind_eq_ok.mpr ⟨ids,hids,rfl⟩

theorem routedBest_iff (hlen : (scoresForChoice scores expertBias).length = router.numExperts)
    {V : Type} [LinearOrder V] {value : K → V} {negInf : V} (hvalue : StrictMono value)
    (hmask : ∀ c ∈ scoresForChoice scores expertBias, negInf < value c)
    (hsums : ∀ groups, router.numExpertGroups = some groups → ((List.range groups).map
      (groupSum (scoresForChoice scores expertBias) (router.numExperts / groups))).Nodup)
    {out : Routed K} (h : route topk value negInf router.toRouterConfig scores expertBias = .ok out) :
    RoutedBest router.toRouterConfig scores expertBias out ↔ Fits router.toRouterConfig := by
  obtain ⟨ids,hids,rfl⟩ := (route_eq_ok topk).mp h
  rw [← among_choose topk router hlen hvalue hmask hsums hids]
  exact ⟨fun h => h.best,fun h => ⟨h,rfl,rfl⟩⟩

theorem route_error_iff (hlen : (scoresForChoice scores expertBias).length = router.numExperts)
    {V : Type} [LinearOrder V] {value : K → V} {negInf : V} {err : RouterError} :
    route topk value negInf router.toRouterConfig scores expertBias = .error err ↔
      ∃ groups limited, groupsOf router.toRouterConfig = some (groups,limited) ∧
        ¬GroupsAccepted router.numExperts groups limited ∧
          err = refusal router.numExperts groups limited := by
  cases hgroups : groupsOf router.toRouterConfig with
  | none =>
    obtain ⟨sel,hsel,-⟩ := choose_ungrouped topk router value negInf hlen hgroups
    rw [route,hsel]
    exact iff_of_false (fun h => by cases h) fun ⟨_,_,h,_⟩ => by cases h
  | some pair =>
    obtain ⟨groups,limited⟩ := pair
    by_cases hacc : GroupsAccepted router.numExperts groups limited
    · obtain ⟨-,sel,-,hsel,-⟩ := choose_grouped topk router value negInf hlen hgroups hacc
      rw [route,hsel]
      refine iff_of_false (fun h => by cases h) fun ⟨_,_,h,hnot,_⟩ => ?_
      obtain ⟨rfl,rfl⟩ := Prod.mk.inj (Option.some.inj h)
      exact hnot hacc
    · rw [route,choose_refused topk router value negInf hlen hgroups hacc]
      constructor
      · intro h
        exact ⟨groups,limited,rfl,hacc,(Except.error.inj h).symm⟩
      · rintro ⟨_,_,h,-,rfl⟩
        obtain ⟨rfl,rfl⟩ := Prod.mk.inj (Option.some.inj h)
        rfl

omit [LinearOrder K] in
theorem gatingWeight_perm (config : RouterConfig K) {ids ids' : List ℕ} (h : ids.Perm ids') (e : ℕ) :
    gatingWeight config scores ids e = gatingWeight config scores ids' e := by
  rw [gatingWeight,gatingWeight,(h.map fun f => scores.getD f 0).sum_eq]

theorem RoutedBest.same {config : RouterConfig K} {out out' : Routed K}
    (hdistinct : (scoresForChoice scores expertBias).Nodup)
    (h : RoutedBest config scores expertBias out) (h' : RoutedBest config scores expertBias out') :
    out.topkExpertIds.Perm out'.topkExpertIds ∧
      (out.topkExpertIds.zip out.topkScores).Perm (out'.topkExpertIds.zip out'.topkScores) := by
  have hperm := h.best.perm hdistinct h'.best
  have hweights : out'.topkScores =
      out'.topkExpertIds.map (gatingWeight config scores out.topkExpertIds) := by
    rw [h'.weights]
    exact List.map_congr_left fun e _ => (gatingWeight_perm config hperm e).symm
  have hzip : ∀ ids : List ℕ, ids.zip (ids.map (gatingWeight config scores out.topkExpertIds)) =
      ids.map fun e => (e,gatingWeight config scores out.topkExpertIds e) := fun ids => by
    rw [List.zip_eq_zipWith,List.zipWith_map_right,List.zipWith_self]
  refine ⟨hperm,?_⟩
  rw [hweights,hzip,h.weights,hzip]
  exact hperm.map _

omit [LinearOrder K] in
theorem length_scoresForChoice (hscores : scores.length = router.numExperts)
    (hbias : ∀ bias ∈ expertBias, bias.length = router.numExperts) :
    (scoresForChoice scores expertBias).length = router.numExperts := by
  cases expertBias with
  | none => exact hscores
  | some bias => rw [scoresForChoice,List.length_zipWith,hscores,hbias bias rfl,Nat.min_self]

/-- Both trainers choose the best experts of the best groups, or refuse to, exactly where the groups
that are kept have as many experts as are chosen. What the JAX trainer masks with is below every score,
as the least finite number is. -/
theorem routers_best_iff (torchTopk laxTopk : Selector) {finfoMin : K}
    (hscores : scores.length = router.numExperts)
    (hbias : ∀ bias ∈ expertBias, bias.length = router.numExperts)
    (hdistinct : (scoresForChoice scores expertBias).Nodup)
    (hsums : ∀ groups, router.numExpertGroups = some groups → ((List.range groups).map
      (groupSum (scoresForChoice scores expertBias) (router.numExperts / groups))).Nodup)
    (hfinfo : ∀ c ∈ scoresForChoice scores expertBias, finfoMin < c) :
    ((∀ out, routeDTensor torchTopk router.toRouterConfig scores expertBias = .ok out →
        RoutedBest router.toRouterConfig scores expertBias out) ∧
      (∀ out, routeJax laxTopk finfoMin router.toRouterConfig scores expertBias = .ok out →
        RoutedBest router.toRouterConfig scores expertBias out) ∧
      (∀ err, routeDTensor torchTopk router.toRouterConfig scores expertBias = .error err ↔
        routeJax laxTopk finfoMin router.toRouterConfig scores expertBias = .error err) ∧
      ∀ out out', routeDTensor torchTopk router.toRouterConfig scores expertBias = .ok out →
        routeJax laxTopk finfoMin router.toRouterConfig scores expertBias = .ok out' →
          out.topkExpertIds.Perm out'.topkExpertIds ∧
            (out.topkExpertIds.zip out.topkScores).Perm (out'.topkExpertIds.zip out'.topkScores)) ↔
      Fits router.toRouterConfig := by
  have hlen := length_scoresForChoice router hscores hbias
  have hdtensor : ∀ out, routeDTensor torchTopk router.toRouterConfig scores expertBias = .ok out →
      (RoutedBest router.toRouterConfig scores expertBias out ↔ Fits router.toRouterConfig) :=
    fun out h => routedBest_iff torchTopk router hlen WithBot.coe_strictMono
      (fun c _ => WithBot.bot_lt_coe c) hsums h
  have hjax : ∀ out, routeJax laxTopk finfoMin router.toRouterConfig scores expertBias = .ok out →
      (RoutedBest router.toRouterConfig scores expertBias out ↔ Fits router.toRouterConfig) :=
    fun out h => routedBest_iff laxTopk router hlen strictMono_id hfinfo hsums h
  constructor
  · rintro ⟨hbest,-⟩ groups limited hg hm hacc
    obtain ⟨-,sel,-,hsel,-⟩ := choose_grouped torchTopk router ((↑) : K → WithBot K) ⊥ hlen
      (groupsOf_eq_some.mpr ⟨hg,hm⟩) hacc
    have hout := (route_eq_ok torchTopk).mpr ⟨_,hsel,rfl⟩
    exact (hdtensor _ hout).mp (hbest _ hout) groups limited hg hm hacc
  · intro hfits
    refine ⟨fun out h => (hdtensor out h).mpr hfits,fun out h => (hjax out h).mpr hfits,fun err => ?_,
      fun out out' h h' => ?_⟩
    · exact (route_error_iff torchTopk router hlen).trans (route_error_iff laxTopk router hlen).symm
    · exact ((hdtensor out h).mpr hfits).same hdistinct ((hjax out' h').mpr hfits)

section Tokens

variable {e : Exponential K} {x : List K}

omit [Field K] [LinearOrder K] in
theorem init_eq_ok {config : RouterConfig K} {gate : List (List K)}
    (hgate : gate.length = config.numExperts) :
    init config gate hgate = .ok router ↔ router.toRouterConfig = config ∧ router.gate = gate := by
  constructor
  · intro h
    unfold init at h
    split_ifs at h
    obtain rfl := Except.ok.inj h
    exact ⟨rfl,rfl⟩
  · rintro ⟨rfl,rfl⟩
    unfold init
    rw [dif_neg (Nat.not_lt.mpr router.one_le_topK),dif_neg (Nat.not_lt.mpr router.topK_le),
      dif_neg fun h => h.2 (router.limited h.1)]

theorem length_scoresOf {logits : List K} {scoreFunc : String} (h : scoresOf e scoreFunc logits = .ok scores) :
    scores.length = logits.length := by
  unfold scoresOf at h
  split_ifs at h
  · obtain rfl := Except.ok.inj h
    exact List.length_map _
  · obtain rfl := Except.ok.inj h
    exact List.length_map _

theorem forward_eq (h : scoresOf e router.scoreFunc (router.logits x) = .ok scores) (topk : Selector) :
    forward e router x expertBias topk = routeDTensor topk router.toRouterConfig scores expertBias := by
  rw [forward,h]
  rfl

theorem call_eq (h : scoresOf e router.scoreFunc (router.logits x) = .ok scores) (topk : Selector)
    (finfoMin : K) : call e router x expertBias topk finfoMin =
      routeJax topk finfoMin router.toRouterConfig scores expertBias := by
  rw [call,h]
  rfl

/-- A router that was made sends every token to the best experts, the same ones in both trainers. -/
theorem forward_call_best {config : RouterConfig K} {gate : List (List K)}
    (hgate : gate.length = config.numExperts) (hmade : init config gate hgate = .ok router)
    (torchTopk laxTopk : Selector) {finfoMin : K}
    (hscores : scoresOf e config.scoreFunc (router.logits x) = .ok scores)
    (hbias : ∀ bias ∈ expertBias, bias.length = config.numExperts)
    (hdistinct : (scoresForChoice scores expertBias).Nodup)
    (hsums : ∀ groups, config.numExpertGroups = some groups → ((List.range groups).map
      (groupSum (scoresForChoice scores expertBias) (config.numExperts / groups))).Nodup)
    (hfinfo : ∀ c ∈ scoresForChoice scores expertBias, finfoMin < c) (hfits : Fits config) {out out' : Routed K}
    (hforward : forward e router x expertBias torchTopk = .ok out)
    (hcall : call e router x expertBias laxTopk finfoMin = .ok out') :
    RoutedBest config scores expertBias out ∧ RoutedBest config scores expertBias out' ∧
      out.topkExpertIds.Perm out'.topkExpertIds := by
  obtain ⟨rfl,-⟩ := (init_eq_ok router hgate).mp hmade
  have hlength : scores.length = router.numExperts := by
    rw [length_scoresOf hscores,TokenChoiceTopKRouter.logits,List.length_map,router.length_gate]
  have hlen := length_scoresForChoice router hlength hbias
  rw [forward_eq router hscores] at hforward
  rw [call_eq router hscores] at hcall
  have hbest := (routedBest_iff torchTopk router hlen WithBot.coe_strictMono
    (fun c _ => WithBot.bot_lt_coe c) hsums hforward).mpr hfits
  have hbest' := (routedBest_iff laxTopk router hlen strictMono_id hfinfo hsums hcall).mpr hfits
  exact ⟨hbest,hbest',(hbest.same hdistinct hbest').1⟩

end Tokens

end Trainers

end Choice

/-- Two groups of two experts, of which one is kept. -/
def twoGroups (topK : ℕ) (h : 1 ≤ topK ∧ topK ≤ 4) : TokenChoiceTopKRouter ℚ where
  numExperts := 4
  topK := topK
  scoreFunc := "sigmoid"
  routeNorm := true
  routeScale := 1
  numExpertGroups := some 2
  numLimitedGroups := some 1
  gate := [[1],[2],[3],[4]]
  length_gate := rfl
  one_le_topK := h.1
  topK_le := h.2
  limited _ := rfl

def fourScores : List ℚ := [1 / 2,1 / 3,1 / 4,1 / 5]

theorem accepted_twoGroups : GroupsAccepted 4 2 1 := ⟨by decide,rfl,le_rfl,by decide⟩

theorem sums_fourScores {topK : ℕ} (h : 1 ≤ topK ∧ topK ≤ 4) : ∀ groups,
    (twoGroups topK h).numExpertGroups = some groups → ((List.range groups).map
      (groupSum (scoresForChoice fourScores none) ((twoGroups topK h).numExperts / groups))).Nodup := by
  rintro groups hgroups
  obtain rfl := Option.some.inj hgroups
  have hdiv : (twoGroups topK h).numExperts / 2 = 2 := by
    rw [show (twoGroups topK h).numExperts = 4 from rfl]
  rw [hdiv]
  decide +kernel

theorem route_twoGroups {topK : ℕ} (h : 1 ≤ topK ∧ topK ≤ 4) : ∃ out,
    routeDTensor Selector.last (twoGroups topK h).toRouterConfig fourScores none = .ok out := by
  have hlen : (scoresForChoice fourScores none).length = (twoGroups topK h).numExperts := rfl
  have hgroups : groupsOf (twoGroups topK h).toRouterConfig = some (2,1) := rfl
  obtain ⟨-,sel,-,hsel,-⟩ := choose_grouped Selector.last (twoGroups topK h) ((↑) : ℚ → WithBot ℚ) ⊥
    hlen hgroups accepted_twoGroups
  exact ⟨_,(route_eq_ok Selector.last).mpr ⟨_,hsel,rfl⟩⟩

theorem routers_best_twoGroups : ∃ out,
    routeDTensor Selector.last (twoGroups 2 (by decide)).toRouterConfig fourScores none = .ok out ∧
      RoutedBest (twoGroups 2 (by decide)).toRouterConfig fourScores none out := by
  obtain ⟨out,hout⟩ := route_twoGroups (show 1 ≤ 2 ∧ 2 ≤ 4 by decide)
  have hiff := routers_best_iff (twoGroups 2 (by decide)) Selector.last Selector.last
    (show fourScores.length = 4 from rfl) (fun bias h => absurd h (Option.not_mem_none bias))
    (by decide +kernel) (sums_fourScores (by decide)) (show ∀ c ∈ fourScores, (-1 : ℚ) < c by decide +kernel)
  refine ⟨out,hout,(hiff.mpr fun groups limited hg hm _ => ?_).1 out hout⟩
  obtain rfl := Option.some.inj hg
  obtain rfl := Option.some.inj hm
  exact Nat.le_refl 2

/-- Three experts are chosen of a group that has two. -/
theorem three_of_two : ∃ out,
    routeDTensor Selector.last (twoGroups 3 (by decide)).toRouterConfig fourScores none = .ok out ∧
      ¬RoutedBest (twoGroups 3 (by decide)).toRouterConfig fourScores none out := by
  obtain ⟨out,hout⟩ := route_twoGroups (show 1 ≤ 3 ∧ 3 ≤ 4 by decide)
  refine ⟨out,hout,fun hbest => ?_⟩
  have hfits := (routedBest_iff Selector.last (twoGroups 3 (by decide)) rfl WithBot.coe_strictMono
    (fun c _ => WithBot.bot_lt_coe c) (sums_fourScores (by decide)) hout).mp hbest
  exact absurd (hfits 2 1 rfl rfl accepted_twoGroups) (by decide)

end Router
end Moe
end DockyardRL
