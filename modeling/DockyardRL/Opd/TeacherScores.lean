import DockyardRL.Lib.Grouping
import Mathlib.Algebra.BigOperators.Group.List.Basic
import Mathlib.Algebra.Field.Defs
import Mathlib.Algebra.Order.Floor.Defs
import Mathlib.Data.Rat.Floor

/-! Teacher log-probs of a batch of rollouts: the rows go to the worker groups of their teachers,
come back in any order of the groups, and the least likely of them are scored again by a panel.

Without a panel every row has the log-probs of its own teacher. -/
namespace DockyardRL
namespace Opd

section

open Gather Grouping SortByKey

variable {μ K : Type}

inductive OpdError
  | noTeacher (agent : String) | noDefault (agent : String) | noGroup (key : String)
  | index | shape | notDivisible | noRows
deriving DecidableEq, Repr

/-- The part of the distillation settings that routing reads. -/
structure Routing where
  teacherModelByAgentName : Dict String String
  defaultTeacherAlias : Option String
  strictAgentNameMatch : Bool

def resolveReferenceAlias (routing : Routing) (name : String) : Except OpdError String :=
  if (routing.teacherModelByAgentName.get? name).isSome then .ok name
  else if routing.strictAgentNameMatch then .error (.noTeacher name)
  else match routing.defaultTeacherAlias with
    | some default => if default ≠ "" then .ok default else .error (.noDefault name)
    | none => .error (.noDefault name)

def resolveReferenceAliases (routing : Routing) (agentRefs : List String) :
    Except OpdError (List String) :=
  agentRefs.mapM (resolveReferenceAlias routing)

/-- The columns of a batch that a teacher reads. -/
structure Columns (μ : Type) where
  inputIds : List (List ℕ)
  inputLengths : Option (List ℕ)
  multimodal : List (String × List μ)

/-- One row of the columns. -/
structure Sample (μ : Type) where
  tokenIds : List ℕ
  length : Option ℕ
  multimodal : List (String × μ)

def selectRows {β : Type} (value : List β) (rowIndices : List ℕ) : Except OpdError (List β) :=
  rowIndices.mapM fun i => match value[i]? with
    | some row => .ok row
    | none => .error .index

def Columns.select (data : Columns μ) (rowIndices : List ℕ) : Except OpdError (Columns μ) := do
  let inputIds ← selectRows data.inputIds rowIndices
  let inputLengths ← match data.inputLengths with
    | none => pure none
    | some lengths => some <$> selectRows lengths rowIndices
  let multimodal ← data.multimodal.mapM fun column =>
    (fun rows => (column.1,rows)) <$> selectRows column.2 rowIndices
  pure ⟨inputIds,inputLengths,multimodal⟩

def Columns.sample? (data : Columns μ) (i : ℕ) : Option (Sample μ) := do
  let tokenIds ← data.inputIds[i]?
  let length ← match data.inputLengths with
    | none => pure none
    | some lengths => some <$> lengths[i]?
  let multimodal ← data.multimodal.mapM fun column => (fun x => (column.1,x)) <$> column.2[i]?
  pure ⟨tokenIds,length,multimodal⟩

/-- A frozen teacher gives one log-prob for every token of a row. -/
structure Teacher (μ K : Type) where
  logprobs : Sample μ → List K
  length_logprobs : ∀ sample, (logprobs sample).length = sample.tokenIds.length

structure TeacherWorkerGroup (μ K : Type) where
  teacher : Teacher μ K
  dpSize : ℕ
  dpSize_pos : 0 < dpSize

def forwardShard (teacher : Teacher μ K) (data : Columns μ) (start size : ℕ) :
    Except OpdError (List (List K)) :=
  (List.range' start size).mapM fun i => match data.sample? i with
    | some sample => .ok (teacher.logprobs sample)
    | none => .error .index

/-- `TeacherWorkerGroup.get_logprobs`: equal shards of the rows, one for each worker. -/
def TeacherWorkerGroup.getLogprobs (group : TeacherWorkerGroup μ K) (data : Columns μ) :
    Except OpdError (List (List K)) :=
  let rows := data.inputIds.length
  if rows % group.dpSize ≠ 0 then .error .notDivisible
  else
    let size := rows / group.dpSize
    List.flatten <$> (List.range group.dpSize).mapM fun i =>
      forwardShard group.teacher data (i * size) size

def TeacherWorkerGroup.score (group : TeacherWorkerGroup μ K) (data : Columns μ) :
    Except OpdError (List (List K)) := do
  let rows := data.inputIds.length
  let remainder := rows % group.dpSize
  let padded ←
    if remainder ≠ 0 then
      data.select (List.range rows ++ List.replicate (group.dpSize - remainder) (rows - 1))
    else pure data
  let result ← group.getLogprobs padded
  pure (result.take rows)

inductive CombineMode
  | mixture | geometric
deriving DecidableEq, Repr

structure TeacherPanel where
  enabled : Bool
  panelAliases : List String
  escalationFraction : ℚ
  combine : CombineMode

section Scores

variable [Field K]

def meanValidLogprob (logprobs : List (List K)) (inputLengths : Option (List ℕ)) (seq : ℕ) : List K :=
  match inputLengths with
  | none => logprobs.map fun row => if seq = 0 then 0 else row.sum / seq
  | some lengths => List.zipWith (fun row length =>
      (row.take (min length seq)).sum / (max (min length seq) 1 : ℕ)) logprobs lengths

/-- `torch.logsumexp` of one position of all members. -/
def logsumexp (exp log : K → K) (values : List K) : K := log (values.map exp).sum

def combineAt (exp log : K → K) (combine : CombineMode) (values : List K) : K :=
  match combine with
  | .geometric => values.sum / values.length
  | .mixture => logsumexp exp log values - log values.length

def combineRow (exp log : K → K) (combine : CombineMode) (width : ℕ) (members : List (List K)) :
    List K :=
  (List.range width).map fun t => combineAt exp log combine (members.map (·.getD t 0))

def combinePanelLogprobs (exp log : K → K) (rows : List (List (List K))) (combine : CombineMode) :
    Except OpdError (List (List K)) :=
  match rows with
  | [] => .error .noRows
  | [only] => .ok only
  | first :: more =>
    if more.all fun member => member.map List.length = first.map List.length then
      .ok (first.zipIdx.map fun row =>
        combineRow exp log combine row.1.length ((first :: more).map (·.getD row.2 [])))
    else .error .shape

def selectEscalationRows [LinearOrder K] (surpriseScores : List K) (escalationFraction : ℚ) : List ℕ :=
  let total := surpriseScores.length
  if total = 0 ∨ escalationFraction ≤ 0 then []
  else
    let count := min total ⌊total * escalationFraction⌋.toNat
    let order := sortByKey (fun i => toLex (surpriseScores.getD i 0,i)) (List.range total)
    sortByKey id (order.take count)

end Scores

/-- What the collector holds of the distillation run. -/
structure Collector (μ K : Type) where
  routing : Routing
  teacherPanel : Option TeacherPanel
  teacherWorkerGroups : Dict String (TeacherWorkerGroup μ K)
  aliasToGroupAlias : Dict String String

namespace Collector

/-- `self._alias_to_group_alias.get(alias, alias)`. -/
def groupKey (c : Collector μ K) (teacherAlias : String) : String :=
  (c.aliasToGroupAlias.get? teacherAlias).getD teacherAlias

/-- `_get_logprobs_for_group`. -/
def scoreGroup (c : Collector μ K) (data : Columns μ) (key : String) (indices : List ℕ) :
    Except OpdError (List (List K)) :=
  match c.teacherWorkerGroups.get? key with
  | none => .error (.noGroup key)
  | some group => do
    let subData ← data.select indices
    group.score subData

/-- `result[indices] = logprobs`. -/
def assignRows (result : List (List K)) (indices : List ℕ) (logprobs : List (List K)) :
    Except OpdError (List (List K)) :=
  if logprobs.map List.length = (gather result indices).map List.length then
    .ok (scatter result indices logprobs)
  else .error .shape

def panelGroupKeys (c : Collector μ K) (panelAliases : List String) : List String :=
  panelAliases.foldl (fun keys teacherAlias =>
    let key := c.groupKey teacherAlias
    if key ∉ keys ∧ (c.teacherWorkerGroups.get? key).isSome then keys ++ [key] else keys) []

variable [Field K] [LinearOrder K] (exp log : K → K)

/-- `_burst_teacher_panel`; the members finish in the order `completed`. -/
def burstTeacherPanel (c : Collector μ K) (data : Columns μ) (seq : ℕ) (result : List (List K))
    (completed : List String) : Except OpdError (List (List K)) :=
  match c.teacherPanel with
  | none => .ok result
  | some panel =>
    if ¬panel.enabled then .ok result
    else
      let surprise := meanValidLogprob result data.inputLengths seq
      let escalated := selectEscalationRows surprise panel.escalationFraction
      if escalated = [] then .ok result
      else if c.panelGroupKeys panel.panelAliases = [] then .ok result
      else do
        let panelRows ← completed.mapM fun key => c.scoreGroup data key escalated
        let combined ← combinePanelLogprobs exp log (gather result escalated :: panelRows) panel.combine
        assignRows result escalated combined

/-- `_compute_teacher_logprobs`; the groups finish in the order `completed`, those of the panel in the
order `panelCompleted`. -/
def computeTeacherLogprobs (c : Collector μ K) (data : Columns μ) (seq : ℕ) (agentRefs : List String)
    (completed panelCompleted : List String) : Except OpdError (List (List K)) := do
  let referenceAliases ← resolveReferenceAliases c.routing agentRefs
  let groupToIndices := group (referenceAliases.map c.groupKey)
  let result := List.replicate data.inputIds.length (List.replicate seq 0)
  if groupToIndices.keys = [] then pure result
  else
    let scored ← completed.foldlM (fun result key => do
      let indices := (groupToIndices.get? key).getD []
      let logprobs ← c.scoreGroup data key indices
      assignRows result indices logprobs) result
    burstTeacherPanel exp log c data seq scored panelCompleted

end Collector

end

open Gather Grouping

variable {μ K : Type}

/-- Every column has the rows of the batch. -/
structure Columns.Aligned (data : Columns μ) (n : ℕ) : Prop where
  ids : data.inputIds.length = n
  lengths : ∀ lengths, data.inputLengths = some lengths → lengths.length = n
  multimodal : ∀ column ∈ data.multimodal, column.2.length = n

def Columns.gathered (data : Columns μ) (idx : List ℕ) : Columns μ :=
  ⟨gather data.inputIds idx,data.inputLengths.map (gather · idx),
    data.multimodal.map fun column => (column.1,gather column.2 idx)⟩

theorem selectRows_eq {β : Type} {value : List β} {idx : List ℕ} (h : Within idx value.length) :
    selectRows value idx = .ok (gather value idx) := by
  induction idx with
  | nil => rfl
  | cons i idx ih =>
    have hi := h i List.mem_cons_self
    have hrest := ih fun j hj => h j (List.mem_cons_of_mem i hj)
    unfold selectRows at hrest ⊢
    rw [List.mapM_cons,hrest,List.getElem?_eq_getElem hi,gather_cons hi]
    rfl

section Aligned

variable {data : Columns μ} {n : ℕ} {idx : List ℕ}

theorem select_eq (h : data.Aligned n) (hidx : Within idx n) :
    data.select idx = .ok (data.gathered idx) := by
  have hids := @selectRows_eq _ data.inputIds idx (by rwa [h.ids])
  have hmultimodal : (data.multimodal.mapM fun column =>
      (fun rows => (column.1,rows)) <$> selectRows column.2 idx) =
        .ok (data.multimodal.map fun column => (column.1,gather column.2 idx)) := by
    refine Fallible.mapM_ok fun column hcolumn => ?_
    rw [selectRows_eq (by rwa [h.multimodal column hcolumn])]
    rfl
  unfold Columns.select
  rw [hids,hmultimodal]
  cases hlengths : data.inputLengths with
  | none => simp [Columns.gathered,hlengths]; rfl
  | some lengths =>
    have hsome := @selectRows_eq _ lengths idx (by rwa [h.lengths lengths hlengths])
    dsimp only
    rw [hsome]
    simp [Columns.gathered,hlengths]
    rfl

theorem aligned_gathered (h : data.Aligned n) (hidx : Within idx n) :
    (data.gathered idx).Aligned idx.length := by
  refine ⟨length_gather (by rwa [h.ids]),fun lengths hlengths => ?_,fun column hcolumn => ?_⟩
  · obtain ⟨source,hsource,rfl⟩ := Option.map_eq_some_iff.mp hlengths
    exact length_gather (by rwa [h.lengths source hsource])
  · obtain ⟨source,hsource,rfl⟩ := List.mem_map.mp hcolumn
    exact length_gather (by rwa [h.multimodal source hsource])

theorem sample?_isSome (h : data.Aligned n) {i : ℕ} (hi : i < n) :
    ∃ sample, data.sample? i = some sample ∧ data.inputIds[i]? = some sample.tokenIds := by
  have hat : ∀ {β : Type} (l : List β), l.length = n → ∃ x, l[i]? = some x := fun l hl =>
    ⟨l.get ⟨i,by omega⟩,List.getElem?_eq_getElem (by omega)⟩
  obtain ⟨ids,hids⟩ := hat data.inputIds h.ids
  have hmultimodal : ∃ cells, (data.multimodal.mapM fun column =>
      (fun x => (column.1,x)) <$> column.2[i]?) = some cells := by
    refine Fallible.exists_mapM_some fun column hcolumn => ?_
    obtain ⟨x,hx⟩ := hat column.2 (h.multimodal column hcolumn)
    exact ⟨(column.1,x),by rw [hx]; rfl⟩
  obtain ⟨cells,hcells⟩ := hmultimodal
  unfold Columns.sample?
  rw [hids,hcells]
  cases hlengths : data.inputLengths with
  | none => exact ⟨⟨ids,none,cells⟩,rfl,rfl⟩
  | some lengths =>
    obtain ⟨length,hlength⟩ := hat lengths (h.lengths lengths hlengths)
    dsimp only
    rw [hlength]
    exact ⟨⟨ids,some length,cells⟩,rfl,rfl⟩

theorem sample?_gathered (h : data.Aligned n) (hidx : Within idx n) (j : ℕ) :
    (data.gathered idx).sample? j = idx[j]?.bind data.sample? := by
  have hids := @getElem?_gather _ data.inputIds idx (by rwa [h.ids]) j
  unfold Columns.sample? Columns.gathered
  dsimp only
  rw [hids]
  cases hj : idx[j]? with
  | none => rfl
  | some i =>
    have hmultimodal : ((data.multimodal.map fun column => (column.1,gather column.2 idx)).mapM
        fun column => (fun x => (column.1,x)) <$> column.2[j]?) =
          data.multimodal.mapM fun column => (fun x => (column.1,x)) <$> column.2[i]? := by
      have hread : ∀ column ∈ data.multimodal, (gather column.2 idx)[j]? = column.2[i]? := by
        intro column hcolumn
        rw [getElem?_gather (by rwa [h.multimodal column hcolumn]),hj,Option.bind_some]
      revert hread
      generalize data.multimodal = columns
      intro hread
      induction columns with
      | nil => rfl
      | cons column columns ih =>
        obtain ⟨hcolumn,hcolumns⟩ := List.forall_mem_cons.mp hread
        rw [List.map_cons,List.mapM_cons,List.mapM_cons,ih hcolumns,hcolumn]
    rw [hmultimodal]
    cases hlengths : data.inputLengths with
    | none => rfl
    | some lengths =>
      have hlength := @getElem?_gather _ lengths idx (by rwa [h.lengths lengths hlengths]) j
      simp only [Option.map_some,Option.bind_some]
      rw [hlength,hj]
      rfl

def rowScores (teacher : Teacher μ K) (data : Columns μ) : List (List K) :=
  (List.range data.inputIds.length).filterMap fun i => (data.sample? i).map teacher.logprobs

variable {teacher : Teacher μ K}

theorem getElem?_filterMap_range {β : Type} {f : ℕ → Option β} {m : ℕ} (h : ∀ i < m, (f i).isSome) :
    ((List.range m).filterMap f).length = m ∧
      ∀ i, ((List.range m).filterMap f)[i]? = if i < m then f i else none := by
  induction m with
  | zero => simp
  | succ m ih =>
    obtain ⟨hlen,hget⟩ := ih fun i hi => h i (Nat.lt_succ_of_lt hi)
    obtain ⟨x,hx⟩ := Option.isSome_iff_exists.mp (h m (Nat.lt_succ_self m))
    have happend : (List.range (m + 1)).filterMap f = (List.range m).filterMap f ++ [x] := by
      rw [List.range_succ,List.filterMap_append]
      simp [hx]
    refine ⟨by rw [happend,List.length_append,hlen]; rfl,fun i => ?_⟩
    rw [happend,List.getElem?_append,hlen,hget]
    rcases Nat.lt_trichotomy i m with hi | rfl | hi
    · simp [hi,Nat.lt_succ_of_lt hi]
    · simp [hx]
    · rw [if_neg (by omega),if_neg (by omega),List.getElem?_eq_none (by simp; omega)]

theorem scored (h : data.Aligned n) : ∀ i < data.inputIds.length,
    ((data.sample? i).map teacher.logprobs).isSome := by
  intro i hi
  obtain ⟨sample,hsample,_⟩ := sample?_isSome h (by rwa [← h.ids])
  rw [hsample]
  rfl

theorem length_rowScores (h : data.Aligned n) : (rowScores teacher data).length = n :=
  (getElem?_filterMap_range (scored h)).1.trans h.ids

theorem getElem?_rowScores (h : data.Aligned n) (i : ℕ) :
    (rowScores teacher data)[i]? = (data.sample? i).map teacher.logprobs := by
  rw [rowScores,(getElem?_filterMap_range (scored h)).2]
  split_ifs with hi
  · rfl
  · unfold Columns.sample?
    rw [List.getElem?_eq_none (Nat.le_of_not_lt hi)]
    rfl

theorem rowScores_gathered (h : data.Aligned n) (hidx : Within idx n) :
    rowScores teacher (data.gathered idx) = gather (rowScores teacher data) idx := by
  refine List.ext_getElem? fun j => ?_
  rw [getElem?_rowScores (aligned_gathered h hidx),sample?_gathered h hidx,
    getElem?_gather (by rwa [length_rowScores h])]
  cases idx[j]? with
  | none => rfl
  | some i => rw [Option.bind_some,Option.bind_some,getElem?_rowScores h]

theorem forwardShard_eq (h : data.Aligned n) {start size : ℕ} (hle : start + size ≤ n) :
    forwardShard teacher data start size =
      .ok (gather (rowScores teacher data) (List.range' start size)) := by
  have hwithin : Within (List.range' start size) (rowScores teacher data).length := by
    intro i hi
    rw [length_rowScores h]
    have hlt := (List.mem_range'_1.mp hi).2
    omega
  rw [gather_eq_map _ [] hwithin]
  refine Fallible.mapM_ok fun i hi => ?_
  have hscore := @getElem?_rowScores _ K _ _ teacher h i
  obtain ⟨sample,hsample,_⟩ := sample?_isSome h (i := i) (by
    rw [← @length_rowScores _ _ _ _ teacher h]
    exact hwithin i hi)
  rw [hsample] at hscore ⊢
  rw [List.getD_eq_getElem?_getD,hscore]
  rfl

theorem getLogprobs_eq (h : data.Aligned n) {group : TeacherWorkerGroup μ K} (hdvd : group.dpSize ∣ n) :
    group.getLogprobs data = .ok (rowScores group.teacher data) := by
  obtain ⟨size,rfl⟩ := hdvd
  have hshards : ((List.range group.dpSize).mapM fun i =>
      forwardShard group.teacher data (i * size) size) =
        .ok ((List.range group.dpSize).map fun i =>
          gather (rowScores group.teacher data) (List.range' (0 + i * size) size)) := by
    refine Fallible.mapM_ok fun i hi => ?_
    have hend := Nat.mul_le_mul_right size (List.mem_range.mp hi)
    rw [Nat.succ_mul] at hend
    rw [Nat.zero_add]
    exact forwardShard_eq h hend
  have hrange : ((List.range group.dpSize).map fun i =>
      gather (rowScores group.teacher data) (List.range' (0 + i * size) size)).flatten =
        rowScores group.teacher data := by
    have hblocks := Stripes.blocks_eq 0 size group.dpSize
    have hall := @gather_range _ (rowScores group.teacher data)
    rw [length_rowScores h,List.range_eq_range',← hblocks,List.flatMap_def,gather_flatten,
      List.map_map] at hall
    exact hall
  unfold TeacherWorkerGroup.getLogprobs
  dsimp only
  rw [h.ids,if_neg (by simp),Nat.mul_div_cancel_left _ group.dpSize_pos,hshards]
  exact congrArg Except.ok hrange

theorem score_eq (h : data.Aligned n) (group : TeacherWorkerGroup μ K) :
    group.score data = .ok (rowScores group.teacher data) := by
  unfold TeacherWorkerGroup.score
  dsimp only
  rw [h.ids]
  by_cases hrem : n % group.dpSize = 0
  · rw [if_neg (not_not_intro hrem)]
    show (do let result ← group.getLogprobs data; pure (result.take n)) = _
    rw [getLogprobs_eq h (Nat.dvd_of_mod_eq_zero hrem)]
    exact congrArg Except.ok (List.take_of_length_le (Nat.le_of_eq (length_rowScores h)))
  · have hpos : 0 < n := by
      refine Nat.pos_of_ne_zero fun hzero => hrem ?_
      rw [hzero,Nat.zero_mod]
    obtain ⟨idx,hidx⟩ : ∃ idx, idx = List.range n ++
        List.replicate (group.dpSize - n % group.dpSize) (n - 1) := ⟨_,rfl⟩
    have hwithin : Within idx n := by
      intro i hi
      rw [hidx] at hi
      rcases List.mem_append.mp hi with hi | hi
      · exact List.mem_range.mp hi
      · rw [List.eq_of_mem_replicate hi]
        exact Nat.sub_lt hpos Nat.one_pos
    have hlength : idx.length = n + (group.dpSize - n % group.dpSize) := by
      rw [hidx,List.length_append,List.length_range,List.length_replicate]
    have hdvd : group.dpSize ∣ idx.length := by
      have hmod := Nat.mod_lt n group.dpSize_pos
      have hdiv := Nat.div_add_mod n group.dpSize
      refine ⟨n / group.dpSize + 1,?_⟩
      rw [hlength,Nat.mul_succ]
      omega
    have hscores := getLogprobs_eq (aligned_gathered h hwithin) hdvd
    rw [if_pos hrem,← hidx,select_eq h hwithin]
    show (do let result ← group.getLogprobs (data.gathered idx); pure (result.take n)) = _
    rw [hscores,rowScores_gathered h hwithin]
    refine congrArg Except.ok ?_
    have hfront := @gather_range _ (rowScores group.teacher data)
    rw [length_rowScores h] at hfront
    rw [hidx,gather_append,hfront,List.take_left' (length_rowScores h)]

end Aligned

/-- A batch of `n` rows of `seq` tokens whose rows go to worker groups that exist. -/
structure Routed (c : Collector μ K) (data : Columns μ) (n seq : ℕ) (agentRefs keys : List String) :
    Prop where
  aligned : data.Aligned n
  ids_length : ∀ ids ∈ data.inputIds, ids.length = seq
  agentRefs_length : agentRefs.length = n
  resolved : ∃ aliases, resolveReferenceAliases c.routing agentRefs = .ok aliases ∧
    keys = aliases.map c.groupKey
  built : ∀ key ∈ keys, (c.teacherWorkerGroups.get? key).isSome

def Collector.scoreOf (c : Collector μ K) (data : Columns μ) (key : String) (i : ℕ) :
    Option (List K) := do
  let group ← c.teacherWorkerGroups.get? key
  let sample ← data.sample? i
  pure (group.teacher.logprobs sample)

def Collector.routedScore (c : Collector μ K) (data : Columns μ) (keys : List String) (i : ℕ) :
    Option (List K) :=
  keys[i]?.bind fun key => c.scoreOf data key i

def Collector.baseScores (c : Collector μ K) (data : Columns μ) (keys : List String) :
    List (List K) :=
  (List.range keys.length).filterMap (c.routedScore data keys)

section Routed

variable {c : Collector μ K} {data : Columns μ} {n seq : ℕ} {agentRefs keys : List String}

theorem Routed.keys_length (h : Routed c data n seq agentRefs keys) : keys.length = n := by
  obtain ⟨aliases,hresolved,rfl⟩ := h.resolved
  rw [List.length_map,← (Fallible.mapM_eq_ok.mp hresolved).length_eq,h.agentRefs_length]

theorem scoreGroup_eq (h : Routed c data n seq agentRefs keys) {key : String}
    {group : TeacherWorkerGroup μ K} (hgroup : c.teacherWorkerGroups.get? key = some group)
    {idx : List ℕ} (hidx : Within idx n) :
    c.scoreGroup data key idx = .ok (gather (rowScores group.teacher data) idx) := by
  unfold Collector.scoreGroup
  rw [hgroup]
  dsimp only
  rw [select_eq h.aligned hidx]
  show group.score (data.gathered idx) = _
  rw [score_eq (aligned_gathered h.aligned hidx),rowScores_gathered h.aligned hidx]

theorem getElem?_rowScores_eq (h : Routed c data n seq agentRefs keys) {key : String}
    {group : TeacherWorkerGroup μ K} (hgroup : c.teacherWorkerGroups.get? key = some group) (i : ℕ) :
    (rowScores group.teacher data)[i]? = c.scoreOf data key i := by
  rw [getElem?_rowScores h.aligned,Collector.scoreOf,hgroup]
  cases data.sample? i <;> rfl

/-- A teacher gives a log-prob for every token of a row. -/
theorem scoreOf_spec (h : Routed c data n seq agentRefs keys) {key : String}
    (hkey : (c.teacherWorkerGroups.get? key).isSome) {i : ℕ} (hi : i < n) :
    ∃ row, c.scoreOf data key i = some row ∧ row.length = seq := by
  obtain ⟨group,hgroup⟩ := Option.isSome_iff_exists.mp hkey
  obtain ⟨sample,hsample,hids⟩ := sample?_isSome h.aligned hi
  refine ⟨group.teacher.logprobs sample,?_,?_⟩
  · rw [Collector.scoreOf,hgroup,hsample]
    rfl
  · rw [group.teacher.length_logprobs,h.ids_length _ (List.mem_of_getElem? hids)]

theorem routedScore_spec (h : Routed c data n seq agentRefs keys) {i : ℕ} (hi : i < n) :
    ∃ row, c.routedScore data keys i = some row ∧ row.length = seq := by
  have hi' : i < keys.length := by rwa [h.keys_length]
  obtain ⟨row,hrow,hlen⟩ := scoreOf_spec h (h.built _ (List.getElem_mem hi')) hi
  exact ⟨row,by rw [Collector.routedScore,List.getElem?_eq_getElem hi',Option.bind_some,hrow],hlen⟩

theorem baseScores_spec (h : Routed c data n seq agentRefs keys) :
    (c.baseScores data keys).length = n ∧
      ∀ i, (c.baseScores data keys)[i]? = if i < n then c.routedScore data keys i else none := by
  have hall := @getElem?_filterMap_range _ (c.routedScore data keys) keys.length fun i hi => by
    obtain ⟨row,hrow,_⟩ := routedScore_spec h (by rwa [← h.keys_length])
    rw [hrow]
    rfl
  rw [h.keys_length] at hall
  rw [Collector.baseScores,h.keys_length]
  exact hall

theorem length_of_mem_baseScores (h : Routed c data n seq agentRefs keys) {row : List K}
    (hrow : row ∈ c.baseScores data keys) : row.length = seq := by
  obtain ⟨i,hi,hsome⟩ := List.mem_filterMap.mp hrow
  obtain ⟨row',hrow',hlen⟩ := routedScore_spec h (by
    rw [← h.keys_length]
    exact List.mem_range.mp hi)
  obtain rfl := Option.some.inj (hrow'.symm.trans hsome)
  exact hlen

theorem scoreGroup_positions (h : Routed c data n seq agentRefs keys) {key : String}
    (hkey : key ∈ keys) : c.scoreGroup data key (positions keys key) =
      .ok (gather (c.baseScores data keys) (positions keys key)) := by
  obtain ⟨group,hgroup⟩ := Option.isSome_iff_exists.mp (h.built key hkey)
  have hwithin : Within (positions keys key) n := by
    rw [← h.keys_length]
    exact within_positions keys key
  rw [scoreGroup_eq h hgroup hwithin]
  refine congrArg Except.ok (List.filterMap_congr fun i hi => ?_)
  rw [getElem?_rowScores_eq h hgroup,(baseScores_spec h).2,if_pos (hwithin i hi),
    Collector.routedScore,mem_positions.mp hi]
  rfl

/-- Rows of one width keep it. -/
theorem assignRows_eq {result logprobs : List (List K)} {idx : List ℕ}
    (hresult : ∀ row ∈ result, row.length = seq) (hidx : Within idx result.length)
    (hlogprobs : ∀ row ∈ logprobs, row.length = seq) (hlen : logprobs.length = idx.length) :
    Collector.assignRows result idx logprobs = .ok (scatter result idx logprobs) := by
  refine if_pos ?_
  have hconst : ∀ l : List (List K), (∀ row ∈ l, row.length = seq) →
      l.map List.length = List.replicate l.length seq := fun l hl =>
    List.eq_replicate_iff.mpr ⟨List.length_map _,fun m hm => by
      obtain ⟨row,hrow,rfl⟩ := List.mem_map.mp hm
      exact hl row hrow⟩
  have hread : ∀ row ∈ gather result idx, row.length = seq := by
    intro row hrow
    obtain ⟨i,_,hi⟩ := List.mem_filterMap.mp hrow
    exact hresult row (List.mem_of_getElem? hi)
  rw [hconst _ hlogprobs,hconst _ hread,hlen,length_gather hidx]

theorem mem_scatter {init vals : List (List K)} {idx : List ℕ} {row : List K}
    (h : row ∈ scatter init idx vals) : row ∈ init ∨ row ∈ vals := by
  induction idx generalizing init vals with
  | nil => exact .inl h
  | cons i idx ih =>
    cases vals with
    | nil => exact .inl h
    | cons v vals =>
      rcases ih h with hset | hvals
      · rcases List.mem_or_eq_of_mem_set hset with hinit | rfl
        · exact .inl hinit
        · exact .inr List.mem_cons_self
      · exact .inr (List.mem_cons_of_mem v hvals)

/-- The groups write the rows of their teachers, in whatever order they finish. -/
theorem scored_eq [Zero K] (h : Routed c data n seq agentRefs keys) {completed : List String}
    (hcompleted : completed.Perm (group keys).keys) :
    (completed.foldlM (fun result key => do
      let indices := ((group keys).get? key).getD []
      let logprobs ← c.scoreGroup data key indices
      Collector.assignRows result indices logprobs)
        (List.replicate data.inputIds.length (List.replicate seq (0 : K)))) =
      .ok (c.baseScores data keys) := by
  have hrun : ∀ (ks : List String) (result : List (List K)), (∀ key ∈ ks, key ∈ keys) →
      result.length = n → (∀ row ∈ result, row.length = seq) →
      (ks.foldlM (fun result key => do
        let indices := ((group keys).get? key).getD []
        let logprobs ← c.scoreGroup data key indices
        Collector.assignRows result indices logprobs) result) =
        .ok (ks.foldl (fun out key => scatter out (positions keys key)
          (gather (c.baseScores data keys) (positions keys key))) result) := by
    intro ks
    induction ks with
    | nil => intro result _ _ _; rfl
    | cons key ks ih =>
      intro result hks hlen hrows
      have hkey := hks key List.mem_cons_self
      have hwithin : Within (positions keys key) result.length := by
        rw [hlen,← h.keys_length]
        exact within_positions keys key
      have hbase : ∀ row ∈ gather (c.baseScores data keys) (positions keys key),
          row.length = seq := by
        intro row hrow
        obtain ⟨i,_,hi⟩ := List.mem_filterMap.mp hrow
        exact length_of_mem_baseScores h (List.mem_of_getElem? hi)
      have hstep := assignRows_eq hrows hwithin hbase
        (length_gather (by rw [(baseScores_spec h).1,← hlen]; exact hwithin))
      rw [List.foldlM_cons]
      dsimp only
      rw [get?_group,if_pos hkey,Option.getD_some,scoreGroup_positions h hkey]
      show (Collector.assignRows _ _ _ >>= _) = _
      rw [hstep]
      refine ih _ (fun k hk => hks k (List.mem_cons_of_mem key hk)) (by rw [length_scatter,hlen])
        fun row hrow => ?_
      rcases mem_scatter hrow with hold | hnew
      · exact hrows row hold
      · exact hbase row hnew
  have hmem : ∀ key ∈ completed, key ∈ keys := fun key hkey =>
    mem_keys_group.mp (hcompleted.mem_iff.mp hkey)
  rw [hrun completed _ hmem (by rw [List.length_replicate,h.aligned.ids]) fun row hrow => by
    rw [List.eq_of_mem_replicate hrow,List.length_replicate]]
  refine congrArg Except.ok (scatter_groups ?_ ?_ hcompleted)
  · rw [List.length_replicate,h.aligned.ids,h.keys_length]
  · rw [(baseScores_spec h).1,h.keys_length]

end Routed

end Opd
end DockyardRL
