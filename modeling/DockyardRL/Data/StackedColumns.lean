import DockyardRL.Data.RoundTrip
import Mathlib

/-! The columns of a flattened batch with the shapes of their tensors: rows of different shapes cannot
be stacked. -/
namespace DockyardRL
namespace Data
namespace Stacked

open Padding Fallible

variable {β : Type*}

def tokenKeys : List String :=
  ["token_ids","generation_logprobs","token_loss_mask","routed_experts"]

/-- A message as a rollout leaves it: log-probs and routes are there for some assistant messages, with
an entry for every token. -/
structure Recorded (m : Message β) : Prop where
  role : ∃ role, m.get? "role" = some (.text role)
  content : ∃ content, m.get? "content" = some (.text content)
  tokens : ∃ ids, m.get? "token_ids" = some (.tensor ids)
  generated : ∀ key ∈ ["generation_logprobs","routed_experts"], ∀ value, m.get? key = some value →
    isAssistant m = true ∧ ∃ entries, value = .tensor entries ∧ entries.length = turnLength m
  others : ∀ key value, m.get? key = some value →
    key ∉ ["token_ids","generation_logprobs","routed_experts"] → value.isTensor = false

def tokenCount (log : MessageLog β) : ℕ := (log.map turnLength).sum

/-- A log with recorded routes. -/
def Routed (log : MessageLog β) : Prop := ∃ m ∈ log, (m.get? "routed_experts").isSome

instance (log : MessageLog β) : Decidable (Routed log) := by
  unfold Routed
  infer_instance

section Filled

variable [Zero β] [One β] (sentinel : β)

def recordedValues (key : String) (m : Message β) : List β :=
  if key = "token_loss_mask" then List.replicate (turnLength m)
    (if isAssistant m && (m.get? "generation_logprobs").isSome then 1 else 0)
  else match m.get? key with
    | some (.tensor entries) => entries
    | _ => List.replicate (turnLength m) (if key = "routed_experts" then sentinel else 0)

theorem length_recordedValues {m : Message β} (h : Recorded m) {key : String} (hkey : key ∈ tokenKeys) :
    (recordedValues sentinel key m).length = turnLength m := by
  rw [recordedValues]
  by_cases hmask : key = "token_loss_mask"
  · rw [if_pos hmask,List.length_replicate]
  · rw [if_neg hmask]
    split
    next entries hget =>
      by_cases hids : key = "token_ids"
      · subst hids
        simp [turnLength,hget,Value.length]
      · have hgenerated : key ∈ ["generation_logprobs","routed_experts"] := by
          simp only [tokenKeys,List.mem_cons,hmask,hids,false_or] at hkey ⊢
          exact hkey
        obtain ⟨-,entries',hvalue,hlength⟩ := h.generated key hgenerated _ hget
        obtain rfl := Value.tensor.inj hvalue
        exact hlength
    next => exact List.length_replicate

def carry (routed : Bool) (m : Message β) : Message β :=
  if routed && (m.get? "routed_experts").isNone then
    m.set "routed_experts" (.tensor (List.replicate (turnLength m) sentinel))
  else m

def fill (routed : Bool) (m : Message β) : Message β :=
  let masked := (carry sentinel routed m).set "token_loss_mask"
    (.tensor (recordedValues sentinel "token_loss_mask" m))
  if (m.get? "generation_logprobs").isSome then masked
  else masked.set "generation_logprobs" (.tensor (List.replicate (turnLength m) 0))

def fillLog (log : MessageLog β) : MessageLog β := log.map (fill sentinel (Routed log))

variable {sentinel}

theorem recordedValues_of_tensor {key : String} {m : Message β} {entries : List β}
    (hkey : key ≠ "token_loss_mask") (h : m.get? key = some (.tensor entries)) :
    recordedValues sentinel key m = entries := by
  rw [recordedValues,if_neg hkey,h]

theorem recordedValues_of_none {key : String} {m : Message β} (hkey : key ≠ "token_loss_mask")
    (h : m.get? key = none) : recordedValues sentinel key m =
      List.replicate (turnLength m) (if key = "routed_experts" then sentinel else 0) := by
  rw [recordedValues,if_neg hkey,h]

theorem get?_carry {m : Message β} (h : Recorded m) (routed : Bool) (key : String) :
    (carry sentinel routed m).get? key = if key = "routed_experts" ∧ routed = true then
      some (.tensor (recordedValues sentinel "routed_experts" m)) else m.get? key := by
  rw [carry]
  cases hget : m.get? "routed_experts" with
  | none =>
    rw [recordedValues_of_none (by decide) hget,if_pos rfl]
    cases routed with
    | false => simp
    | true =>
      rw [if_pos (by rfl),Dict.get?_set]
      simp
  | some value =>
    obtain ⟨-,entries,rfl,-⟩ := h.generated _ (by decide) _ hget
    rw [recordedValues_of_tensor (by decide) hget]
    cases routed with
    | false => simp
    | true =>
      by_cases hkey : key = "routed_experts"
      · simp [hkey,hget]
      · simp [hkey]

theorem get?_fill {m : Message β} (h : Recorded m) {routed : Bool}
    (hrouted : routed = false → m.get? "routed_experts" = none) (key : String) :
    (fill sentinel routed m).get? key =
      if key ∈ tokenKeys then
        if key = "routed_experts" ∧ routed = false then none
        else some (.tensor (recordedValues sentinel key m))
      else m.get? key := by
  have hcarried := @get?_carry β _ _ sentinel m h routed
  obtain ⟨ids,hids⟩ := h.tokens
  have hkept : ∀ j, j ≠ "token_loss_mask" → j ≠ "generation_logprobs" →
      (fill sentinel routed m).get? j = if j = "routed_experts" ∧ routed = true then
        some (.tensor (recordedValues sentinel "routed_experts" m)) else m.get? j := by
    intro j hmask hlogprobs
    rw [fill]
    by_cases hsome : (m.get? "generation_logprobs").isSome = true
    · rw [if_pos hsome,Dict.get?_set_of_ne _ _ hmask,hcarried]
    · rw [if_neg hsome,Dict.get?_set_of_ne _ _ hlogprobs,Dict.get?_set_of_ne _ _ hmask,hcarried]
  by_cases hmask : key = "token_loss_mask"
  · subst hmask
    rw [fill]
    by_cases hsome : (m.get? "generation_logprobs").isSome = true
    · simp [hsome,tokenKeys]
    · simp [hsome,tokenKeys,Dict.get?_set]
  by_cases hlogprobs : key = "generation_logprobs"
  · subst hlogprobs
    rw [fill]
    cases hget : m.get? "generation_logprobs" with
    | none =>
      rw [recordedValues_of_none (by decide) hget]
      simp [tokenKeys]
    | some value =>
      obtain ⟨-,entries,rfl,-⟩ := h.generated _ (by decide) _ hget
      rw [recordedValues_of_tensor (by decide) hget]
      simp [Dict.get?_set,hcarried,hget,tokenKeys]
  rw [hkept key hmask hlogprobs]
  by_cases hroutes : key = "routed_experts"
  · subst hroutes
    cases routed with
    | false => simp [tokenKeys,hrouted rfl]
    | true => simp [tokenKeys]
  by_cases htokens : key = "token_ids"
  · subst htokens
    rw [recordedValues_of_tensor (by decide) hids]
    simp [tokenKeys,hids]
  · simp [tokenKeys,hmask,hlogprobs,hroutes,htokens]

omit [Zero β] [One β] in
theorem backfillRoutedExperts_eq {log : MessageLog β} (h : ∀ m ∈ log, Recorded m) :
    backfillRoutedExperts sentinel log = .ok (log.map (carry sentinel (Routed log))) := by
  rw [backfillRoutedExperts]
  cases hfirst : log.findSome? (Dict.get? · "routed_experts") with
  | none =>
    have hplain : ¬Routed log := by
      rintro ⟨m,hm,hsome⟩
      rw [List.findSome?_eq_none_iff.mp hfirst m hm] at hsome
      cases hsome
    rw [decide_eq_false hplain]
    exact congrArg Except.ok (List.map_id log).symm
  | some value =>
    obtain ⟨m,hm,hget⟩ := List.exists_of_findSome?_eq_some hfirst
    obtain ⟨-,entries,rfl,-⟩ := (h m hm).generated _ (by decide) _ hget
    have hrouted : Routed log := ⟨m,hm,Option.isSome_of_eq_some hget⟩
    rw [decide_eq_true hrouted]
    refine mapM_ok fun m hm => ?_
    obtain ⟨ids,hids⟩ := (h m hm).tokens
    have hlength : turnLength m = ids.length := by simp [turnLength,hids,Value.length]
    cases hroutes : m.get? "routed_experts" with
    | some value => simp [carry,hroutes]
    | none =>
      simp only [carry,hroutes,hlength,tokenIds,hids]
      rfl

theorem addMaskAndLogprobs_eq {m : Message β} (h : Recorded m) (routed : Bool) :
    addMaskAndLogprobs (carry sentinel routed m) = .ok (fill sentinel routed m) := by
  have hget : ∀ key, key ≠ "routed_experts" → (carry sentinel routed m).get? key = m.get? key :=
    fun key hkey => by rw [get?_carry h,if_neg fun hroutes => hkey hroutes.1]
  obtain ⟨ids,hids⟩ := h.tokens
  obtain ⟨role,hrole⟩ := h.role
  have hlength : turnLength m = ids.length := by simp [turnLength,hids,Value.length]
  have hassistant : isAssistant m = (Value.text role : Value β).isAssistant := by
    rw [isAssistant,hrole]
    rfl
  rw [addMaskAndLogprobs,tokenIds,hget _ (by decide),hids]
  simp only [Except.bind,hget _ (by decide : "role" ≠ "routed_experts"),hrole,
    hget _ (by decide : "generation_logprobs" ≠ "routed_experts"),fill,recordedValues,if_pos,hlength,
    hassistant]

theorem addGrpo_eq {batch : List (MessageLog β)} (h : ∀ log ∈ batch, ∀ m ∈ log, Recorded m) :
    addGrpoTokenLossMasksAndGenerationLogprobs sentinel batch = .ok (batch.map (fillLog sentinel)) := by
  have hroutes : batch.mapM (backfillRoutedExperts sentinel) =
      .ok (batch.map fun log => log.map (carry sentinel (Routed log))) :=
    mapM_ok fun log hlog => backfillRoutedExperts_eq (h log hlog)
  rw [addGrpoTokenLossMasksAndGenerationLogprobs,hroutes]
  refine (mapM_eq_ok.mpr ?_)
  rw [List.forall₂_map_left_iff,List.forall₂_map_right_iff,List.forall₂_same]
  intro log hlog
  rw [fillLog,mapM_eq_ok,List.forall₂_map_left_iff,List.forall₂_map_right_iff,List.forall₂_same]
  exact fun m hm => addMaskAndLogprobs_eq (h log hlog m hm) _

def tokenKind (key : String) : Bool := key ∈ tokenKeys

section Log

variable {log : MessageLog β} (h : ∀ m ∈ log, Recorded m)

include h

theorem get?_of_mem_fillLog {m : Message β} (hm : m ∈ log) (key : String) :
    (fill sentinel (Routed log) m).get? key =
      if key ∈ tokenKeys then
        if key = "routed_experts" ∧ ¬Routed log then none
        else some (.tensor (recordedValues sentinel key m))
      else m.get? key := by
  have hplain : decide (Routed log) = false → m.get? "routed_experts" = none := by
    intro hnot
    by_contra hsome
    exact of_decide_eq_false hnot ⟨m,hm,Option.isSome_iff_ne_none.mpr hsome⟩
  rw [get?_fill (h m hm) hplain]
  simp only [decide_eq_false_iff_not]

theorem kinded_fillLog : Kinded tokenKind (fillLog sentinel log) := by
  intro m' hm' key value hget
  obtain ⟨m,hm,rfl⟩ := List.mem_map.mp hm'
  rw [get?_of_mem_fillLog h hm] at hget
  by_cases hkey : key ∈ tokenKeys
  · rw [if_pos hkey] at hget
    split_ifs at hget
    obtain rfl := Option.some.inj hget
    exact (decide_eq_true hkey).symm
  · rw [if_neg hkey] at hget
    refine ((h m hm).others key value hget fun hmem => hkey ?_).trans (decide_eq_false hkey).symm
    simp only [tokenKeys,List.mem_cons] at hmem ⊢
    tauto

theorem mem_allKeys_fillLog {key : String} (hkey : key ∈ tokenKeys) :
    key ∈ allKeys (fillLog sentinel log) ↔ log ≠ [] ∧ (key = "routed_experts" → Routed log) := by
  rw [mem_allKeys]
  constructor
  · rintro ⟨m',hm',hsome⟩
    obtain ⟨m,hm,rfl⟩ := List.mem_map.mp hm'
    refine ⟨List.ne_nil_of_mem hm,fun hroutes => ?_⟩
    by_contra hplain
    rw [get?_of_mem_fillLog h hm,if_pos hkey,if_pos ⟨hroutes,hplain⟩] at hsome
    cases hsome
  · rintro ⟨hne,hroutes⟩
    obtain ⟨m,hm⟩ := List.exists_mem_of_ne_nil log hne
    refine ⟨_,List.mem_map_of_mem hm,?_⟩
    rw [get?_of_mem_fillLog h hm,if_pos hkey,if_neg fun hplain => hplain.2 (hroutes hplain.1)]
    rfl

theorem columnOf_fillLog {key : String} (hkey : key ∈ tokenKeys)
    (hroutes : key = "routed_experts" → Routed log) :
    columnOf key (fillLog sentinel log) = log.flatMap (recordedValues sentinel key) := by
  rw [columnOf,fillLog,List.flatMap_map]
  refine List.flatMap_congr fun m hm => entriesOf_of_tensor ?_
  rw [get?_of_mem_fillLog h hm,if_pos hkey,if_neg fun hplain => hplain.2 (hroutes hplain.1)]

theorem length_recorded {key : String} (hkey : key ∈ tokenKeys) :
    (log.flatMap (recordedValues sentinel key)).length = tokenCount log := by
  rw [List.length_flatMap,tokenCount]
  exact congrArg List.sum (List.map_congr_left fun m hm => length_recordedValues sentinel (h m hm) hkey)

theorem length_columnOf_fillLog {key : String} (hkey : key ∈ tokenKeys) :
    (columnOf key (fillLog sentinel log)).length ≤ tokenCount log := by
  by_cases hroutes : key = "routed_experts" → Routed log
  · rw [columnOf_fillLog h hkey hroutes,length_recorded h hkey]
  · rw [columnOf_of_not_mem fun hmem => hroutes ((mem_allKeys_fillLog h hkey).mp hmem).2]
    exact Nat.zero_le _

end Log

section Stacking

variable {kind : String → Bool} {batch : List (MessageLog β)} {seqs : List (Dict String (FlatValue β))}
  {key : String} {trailing : List ℕ} {maxLen : ℕ} {pad : β}

omit [Zero β] [One β] in
theorem stack_error (hlength : ∀ log ∈ batch, (columnOf key log).length ≤ maxLen)
    (htrailing : trailing ≠ []) {log log' : MessageLog β} (hlog : log ∈ batch) (hlog' : log' ∈ batch)
    (hmem : key ∈ allKeys log) (hnot : key ∉ allKeys log') {rows : List (List β)} :
    stack (batch.map fun log => padTensor maxLen pad (tensorOf trailing key log)) ≠ .ok rows := by
  intro hstack
  rw [stack] at hstack
  split_ifs at hstack with hshapes
  have hsame := hshapes _ (List.mem_map_of_mem hlog) _ (List.mem_map_of_mem hlog')
  rw [shape_padTensor (hlength log hlog),shape_padTensor (hlength log' hlog'),if_pos hmem,
    if_neg hnot] at hsame
  exact htrailing (List.tail_eq_of_cons_eq hsame)

end Stacking

def columnTrailing (routeShape : List ℕ) (key : String) : List ℕ :=
  if key = "routed_experts" then routeShape else []

/-- Every column has what is recorded for each token, then padding; the lengths are the tokens. -/
structure Aligned (sentinel : β) (padValueDict : Dict String β) (divisibleBy : ℕ)
    (batch : List (MessageLog β)) (flat : Dict String (Column β)) (lengths : List ℕ) : Prop where
  lengths : lengths = batch.map tokenCount
  columns : ∀ key ∈ tokenKeys, (∃ log ∈ batch, log ≠ []) →
    (key = "routed_experts" → ∃ log ∈ batch, Routed log) →
    flat.get? key = some (.padded (batch.map fun log =>
      padTo (roundUp (longest (batch.map tokenCount)) divisibleBy) ((padValueDict.get? key).getD 0)
        (log.flatMap (recordedValues sentinel key))))

/-- The routes of a batch are those of all its logs, or of none, or entries without dimensions whose
padding passes for what is missing. -/
def RoutesStack (sentinel : β) (routeShape : List ℕ) (padValueDict : Dict String β)
    (batch : List (MessageLog β)) : Prop :=
  (∀ log ∈ batch, Routed log) ∨ (∀ log ∈ batch, ¬Routed log) ∨
    routeShape = [] ∧ ∀ log ∈ batch, ¬Routed log →
      tokenCount log = 0 ∨ (padValueDict.get? "routed_experts").getD 0 = sentinel

omit [Zero β] [One β] in
theorem tokenCount_le {batch : List (MessageLog β)} {divisibleBy : ℕ} (hdivisible : 0 < divisibleBy)
    {log : MessageLog β} (hlog : log ∈ batch) :
    tokenCount log ≤ roundUp (longest (batch.map tokenCount)) divisibleBy :=
  (le_longest (List.mem_map_of_mem hlog)).trans (le_roundUp hdivisible)

section Row

variable {log : MessageLog β} (h : ∀ m ∈ log, Recorded m)

include h

theorem flatMap_recordedValues_of_plain (hplain : ¬Routed log) :
    log.flatMap (recordedValues sentinel "routed_experts") =
      List.replicate (tokenCount log) sentinel := by
  refine List.eq_replicate_iff.mpr ⟨length_recorded h (by decide),fun b hb => ?_⟩
  obtain ⟨m,hm,hb⟩ := List.mem_flatMap.mp hb
  have hnone : m.get? "routed_experts" = none := by
    rw [← Option.not_isSome_iff_eq_none]
    exact fun hsome => hplain ⟨m,hm,hsome⟩
  rw [recordedValues_of_none (by decide) hnone,if_pos rfl] at hb
  exact (List.mem_replicate.mp hb).2

theorem padTo_columnOf_eq_iff {key : String} (hkey : key ∈ tokenKeys) {width : ℕ} {pad : β}
    (hwidth : tokenCount log ≤ width) :
    padTo width pad (columnOf key (fillLog sentinel log)) =
        padTo width pad (log.flatMap (recordedValues sentinel key)) ↔
      (key = "routed_experts" → Routed log) ∨ tokenCount log = 0 ∨ pad = sentinel := by
  by_cases hroutes : key = "routed_experts" → Routed log
  · rw [columnOf_fillLog h hkey hroutes]
    exact iff_of_true rfl (.inl hroutes)
  · rw [or_iff_right hroutes]
    obtain ⟨rfl,hplain⟩ := Classical.not_imp.mp hroutes
    rw [columnOf_of_not_mem fun hmem => hroutes ((mem_allKeys_fillLog h hkey).mp hmem).2,
      flatMap_recordedValues_of_plain h hplain]
    exact padTo_nil_eq_iff hwidth

end Row

section Batch

variable {batch : List (MessageLog β)} (h : ∀ log ∈ batch, ∀ m ∈ log, Recorded m)

include h

theorem exists_seqs : ∃ seqs,
    (batch.map (fillLog sentinel)).mapM messageLogToFlatMessages = .ok seqs ∧
      List.Forall₂ (Flattened tokenKind) (batch.map (fillLog sentinel)) seqs ∧
      seqs.map inputLength = batch.map tokenCount := by
  obtain ⟨seqs,hseqs,hall⟩ := @exists_mapM_forall₂ _ _ _ messageLogToFlatMessages (Flattened tokenKind)
    (batch.map (fillLog sentinel)) (by
      intro filled hfilled
      obtain ⟨log,hlog,rfl⟩ := List.mem_map.mp hfilled
      exact messageLogToFlatMessages_ok (kinded_fillLog (h log hlog)))
  refine ⟨seqs,hseqs,hall,?_⟩
  rw [List.forall₂_map_left_iff] at hall
  clear hseqs
  induction hall with
  | nil => rfl
  | @cons log seq batch seqs hflat _ ih =>
    obtain ⟨hlog,hrest⟩ := List.forall_mem_cons.mp h
    have hids : (columnOf "token_ids" (fillLog sentinel log)).length = tokenCount log := by
      rw [columnOf_fillLog hlog (by decide) fun heq => absurd heq (by decide),
        length_recorded hlog (by decide)]
    have hlength := @isLength_unique β tokenKind (fillLog sentinel log) _
      (isLength_inputLength hflat) "token_ids" rfl (fun key hkey => by
        rw [hids]
        exact length_columnOf_fillLog hlog (of_decide_eq_true hkey))
    rw [List.map_cons,List.map_cons,ih hrest,hlength,hids]

variable {routeShape : List ℕ} {padValueDict : Dict String β} {divisibleBy : ℕ}

theorem exists_columns (hdivisible : 0 < divisibleBy) (hmessage : ∃ log ∈ batch, log ≠ []) :
    ∃ (ks : List String) (column : String → Except MessageError (Column β)),
      batchedMessageLogToFlatMessage (columnTrailing routeShape) padValueDict divisibleBy
          (batch.map (fillLog sentinel)) = (Dict.build ks column).map (·,batch.map tokenCount) ∧
      (∀ key, key ∈ ks ↔ ∃ log ∈ batch, key ∈ allKeys (fillLog sentinel log)) ∧
      (∀ key ∈ ks, key ∉ tokenKeys → ∃ c, column key = .ok c) ∧
      ∀ key ∈ ks, key ∈ tokenKeys → column key = (stack ((batch.map (fillLog sentinel)).map fun log =>
        padTensor (roundUp (longest (batch.map tokenCount)) divisibleBy)
          ((padValueDict.get? key).getD 0)
            (tensorOf (columnTrailing routeShape key) key log))).map .padded := by
  obtain ⟨seqs,hseqs,hall,hlengths⟩ := @exists_seqs β _ _ sentinel batch h
  obtain ⟨log,hlog,hne⟩ := hmessage
  have hkeys : ∀ key, key ∈ seqs.flatMap Dict.keys ↔
      ∃ log ∈ batch, key ∈ allKeys (fillLog sentinel log) := by
    intro key
    rw [mem_keys_flattened hall]
    simp only [List.mem_map,exists_exists_and_eq_and]
  have hfilled : batch.map (fillLog sentinel) ≠ [] := by
    simpa using List.ne_nil_of_mem hlog
  have htensor : ¬(seqs.all fun seq => seq.entries.all fun entry => !entry.2.isTensor) = true := by
    intro hplain
    obtain ⟨seq,hseq,hflat⟩ := exists_of_forall₂_left hall (List.mem_map_of_mem hlog)
    have hkey := (@mem_allKeys_fillLog β _ _ sentinel log (h log hlog) "token_ids" (by decide)).mpr
      ⟨hne,fun heq => absurd heq (by decide)⟩
    have hget := hflat "token_ids"
    rw [if_pos hkey,← Dict.mem_entries_iff] at hget
    have hfalse := List.all_eq_true.mp (List.all_eq_true.mp hplain seq hseq) _ hget
    simp [flatOf,tokenKind,tokenKeys,FlatValue.isTensor] at hfalse
  refine ⟨seqs.flatMap Dict.keys,fun key => batchColumn (columnTrailing routeShape key)
    (roundUp (longest (batch.map tokenCount)) divisibleBy) ((padValueDict.get? key).getD 0)
    (seqs.map (Dict.get? · key)),?_,hkeys,?_,fun key hkey htoken => ?_⟩
  · rw [batchedMessageLogToFlatMessage,if_neg hfilled,hseqs]
    dsimp only [Except.bind]
    rw [if_neg (Nat.ne_of_gt hdivisible),if_neg htensor,hlengths]
  · intro key hkey hplain
    refine ⟨.values (seqs.map (Dict.get? · key)),?_⟩
    beta_reduce
    rw [batchColumn]
    split
    next entries hsome => exact absurd hsome (findSome?_flattened_ne hall (decide_eq_false hplain) entries)
    next => rfl
  · refine batchColumn_eq hall (decide_eq_true htoken) ?_
    obtain ⟨log,hlog,hmem⟩ := (hkeys key).mp hkey
    exact ⟨_,List.mem_map_of_mem hlog,hmem⟩

theorem length_columnOf_batch (hdivisible : 0 < divisibleBy) {key : String} (hkey : key ∈ tokenKeys) :
    ∀ log ∈ batch.map (fillLog sentinel), (columnOf key log).length ≤
      roundUp (longest (batch.map tokenCount)) divisibleBy := by
  intro filled hfilled
  obtain ⟨log,hlog,rfl⟩ := List.mem_map.mp hfilled
  exact (length_columnOf_fillLog (h log hlog) hkey).trans (tokenCount_le hdivisible hlog)

theorem stack_fillLog (hdivisible : 0 < divisibleBy) {key : String} (hkey : key ∈ tokenKeys) {pad : β}
    (hall : key = "routed_experts" → routeShape = [] ∨ ∀ log ∈ batch, Routed log) :
    stack ((batch.map (fillLog sentinel)).map fun log =>
        padTensor (roundUp (longest (batch.map tokenCount)) divisibleBy) pad
          (tensorOf (columnTrailing routeShape key) key log)) =
      .ok ((batch.map (fillLog sentinel)).map fun log =>
        padTo (roundUp (longest (batch.map tokenCount)) divisibleBy) pad (columnOf key log)) := by
  refine stack_ok (length_columnOf_batch h hdivisible hkey) ?_
  by_cases hroutes : key = "routed_experts"
  · subst hroutes
    refine (hall rfl).imp (fun hshape => ?_) fun hrouted filled hfilled => ?_
    · rw [columnTrailing,if_pos rfl,hshape]
    · obtain ⟨log,hlog,rfl⟩ := List.mem_map.mp hfilled
      obtain ⟨m,hm,-⟩ := hrouted log hlog
      exact (mem_allKeys_fillLog (h log hlog) hkey).mpr
        ⟨List.ne_nil_of_mem hm,fun _ => hrouted log hlog⟩
  · exact .inl (by rw [columnTrailing,if_neg hroutes])

theorem columns_of_ok (hdivisible : 0 < divisibleBy) (hmessage : ∃ log ∈ batch, log ≠ [])
    {flat : Dict String (Column β)} {lengths : List ℕ}
    (hflat : batchedMessageLogToFlatMessage (columnTrailing routeShape) padValueDict divisibleBy
      (batch.map (fillLog sentinel)) = .ok (flat,lengths)) :
    lengths = batch.map tokenCount ∧ ∀ key ∈ tokenKeys,
      (key = "routed_experts" → ∃ log ∈ batch, Routed log) →
      ((key = "routed_experts" ∧ ∃ log ∈ batch, ¬Routed log) → routeShape = []) ∧
      flat.get? key = some (.padded ((batch.map (fillLog sentinel)).map fun log =>
        padTo (roundUp (longest (batch.map tokenCount)) divisibleBy) ((padValueDict.get? key).getD 0)
          (columnOf key log))) := by
  obtain ⟨ks,column,hrun,hkeys,-,hcolumn⟩ := @exists_columns β _ _ sentinel batch h routeShape
    padValueDict divisibleBy hdivisible hmessage
  rw [hrun] at hflat
  obtain ⟨d,hd,heq⟩ := map_eq_ok.mp hflat
  obtain ⟨rfl,rfl⟩ := Prod.mk.inj heq
  obtain ⟨hvalues,hget⟩ := Dict.get?_of_build hd
  refine ⟨rfl,fun key hkey hroutes => ?_⟩
  have hmem : key ∈ ks := by
    rw [hkeys]
    by_cases hkind : key = "routed_experts"
    · obtain ⟨log,hlog,hrouted⟩ := hroutes hkind
      have hne : log ≠ [] := hrouted.elim fun m hm => List.ne_nil_of_mem hm.1
      exact ⟨log,hlog,(mem_allKeys_fillLog (h log hlog) hkey).mpr ⟨hne,fun _ => hrouted⟩⟩
    · obtain ⟨log,hlog,hne⟩ := hmessage
      exact ⟨log,hlog,(mem_allKeys_fillLog (h log hlog) hkey).mpr ⟨hne,fun heq => absurd heq hkind⟩⟩
  obtain ⟨value,hvalue⟩ := hvalues key hmem
  obtain ⟨rows,hrows,-⟩ := map_eq_ok.mp ((hcolumn key hmem hkey).symm.trans hvalue)
  have hshape : (key = "routed_experts" ∧ ∃ log ∈ batch, ¬Routed log) → routeShape = [] := by
    rintro ⟨hkind,log',hlog',hplain⟩
    by_contra hne
    obtain ⟨log,hlog,hin⟩ := (hkeys key).mp hmem
    refine stack_error (length_columnOf_batch h hdivisible hkey) ?_ (List.mem_map_of_mem hlog)
      (List.mem_map_of_mem hlog') hin (fun hin' => ?_) hrows
    · rwa [columnTrailing,if_pos hkind]
    · exact hplain (((mem_allKeys_fillLog (h log' hlog') hkey).mp hin').2 hkind)
  refine ⟨hshape,(hget key _).mpr ⟨hmem,?_⟩⟩
  rw [hcolumn key hmem hkey,stack_fillLog h hdivisible hkey]
  · rfl
  · intro hkind
    by_cases hall : ∀ log ∈ batch, Routed log
    · exact .inr hall
    · simp only [not_forall] at hall
      obtain ⟨log,hlog,hplain⟩ := hall
      exact .inl (hshape ⟨hkind,log,hlog,hplain⟩)

theorem exists_flat (hdivisible : 0 < divisibleBy) (hmessage : ∃ log ∈ batch, log ≠ [])
    (hroutes : (∃ log ∈ batch, Routed log) → routeShape = [] ∨ ∀ log ∈ batch, Routed log) :
    ∃ flat lengths, batchedMessageLogToFlatMessage (columnTrailing routeShape) padValueDict divisibleBy
      (batch.map (fillLog sentinel)) = .ok (flat,lengths) := by
  obtain ⟨ks,column,hrun,hkeys,hplain,hcolumn⟩ := @exists_columns β _ _ sentinel batch h routeShape
    padValueDict divisibleBy hdivisible hmessage
  obtain ⟨flat,hflat⟩ := @Dict.exists_build _ _ _ _ ks column (by
    intro key hmem
    by_cases hkey : key ∈ tokenKeys
    · rw [hcolumn key hmem hkey,stack_fillLog h hdivisible hkey]
      · exact ⟨_,rfl⟩
      · rintro rfl
        obtain ⟨log,hlog,hin⟩ := (hkeys _).mp hmem
        exact hroutes ⟨log,hlog,((mem_allKeys_fillLog (h log hlog) hkey).mp hin).2 rfl⟩
    · exact hplain key hmem hkey)
  exact ⟨flat,batch.map tokenCount,by rw [hrun,hflat]; rfl⟩

omit [One β] h in
theorem flat_of_empty_logs (hdivisible : 0 < divisibleBy) {trailing : String → List ℕ}
    (hempty : ∀ log ∈ batch, log = []) {flat : Dict String (Column β)} {lengths : List ℕ}
    (hflat : batchedMessageLogToFlatMessage trailing padValueDict divisibleBy batch =
      .ok (flat,lengths)) : lengths = [] := by
  have hseqs : batch.mapM messageLogToFlatMessages = .ok (batch.map fun _ => .empty) :=
    mapM_ok fun log hlog => by rw [hempty log hlog]; rfl
  rw [batchedMessageLogToFlatMessage,hseqs] at hflat
  by_cases hbatch : batch = []
  · rw [if_pos hbatch] at hflat
    exact (Prod.mk.inj (Except.ok.inj hflat)).2.symm
  · rw [if_neg hbatch] at hflat
    dsimp only [Except.bind] at hflat
    rw [if_neg (Nat.ne_of_gt hdivisible),if_pos (by simp [Dict.empty])] at hflat
    obtain ⟨d,-,heq⟩ := map_eq_ok.mp hflat
    exact (Prod.mk.inj heq).2.symm

theorem row_eq_iff (hdivisible : 0 < divisibleBy) {key : String} (hkey : key ∈ tokenKeys)
    {log : MessageLog β} (hlog : log ∈ batch) {pad : β} :
    padTo (roundUp (longest (batch.map tokenCount)) divisibleBy) pad
        (columnOf key (fillLog sentinel log)) =
      padTo (roundUp (longest (batch.map tokenCount)) divisibleBy) pad
        (log.flatMap (recordedValues sentinel key)) ↔
    (key = "routed_experts" → Routed log) ∨ tokenCount log = 0 ∨ pad = sentinel :=
  padTo_columnOf_eq_iff (h log hlog) hkey (tokenCount_le hdivisible hlog)

theorem condition_of_aligned (hdivisible : 0 < divisibleBy) {flat : Dict String (Column β)}
    {lengths : List ℕ}
    (hflat : batchedMessageLogToFlatMessage (columnTrailing routeShape) padValueDict divisibleBy
      (batch.map (fillLog sentinel)) = .ok (flat,lengths))
    (haligned : Aligned sentinel padValueDict divisibleBy batch flat lengths) :
    (batch = [] ∨ ∃ log ∈ batch, log ≠ []) ∧ RoutesStack sentinel routeShape padValueDict batch := by
  by_cases hbatch : batch = []
  · subst hbatch
    exact ⟨.inl rfl,.inl fun log hlog => absurd hlog List.not_mem_nil⟩
  have hmessage : ∃ log ∈ batch, log ≠ [] := by
    by_contra hempty
    simp only [not_exists,not_and,not_not] at hempty
    have hnone := flat_of_empty_logs hdivisible (fun filled hfilled => by
      obtain ⟨log,hlog,rfl⟩ := List.mem_map.mp hfilled
      rw [hempty log hlog]
      rfl) hflat
    rw [haligned.lengths,List.map_eq_nil_iff] at hnone
    exact hbatch hnone
  refine ⟨.inr hmessage,?_⟩
  by_cases hsome : ∃ log ∈ batch, Routed log
  · by_cases hall : ∀ log ∈ batch, Routed log
    · exact .inl hall
    · obtain ⟨-,hcolumns⟩ := columns_of_ok h hdivisible hmessage hflat
      obtain ⟨hshape,hget⟩ := hcolumns "routed_experts" (by decide) fun _ => hsome
      simp only [not_forall] at hall
      obtain ⟨log,hlog,hplain⟩ := hall
      refine .inr (.inr ⟨hshape ⟨rfl,log,hlog,hplain⟩,fun log hlog hplain => ?_⟩)
      rw [haligned.columns _ (by decide) hmessage fun _ => hsome] at hget
      have hrows := Column.padded.inj (Option.some.inj hget)
      rw [List.map_map] at hrows
      exact ((row_eq_iff h hdivisible (by decide) hlog).mp
        (List.map_inj_left.mp hrows log hlog).symm).resolve_left fun hrouted => hplain (hrouted rfl)
  · exact .inr (.inl fun log hlog hrouted => hsome ⟨log,hlog,hrouted⟩)

theorem aligned_of_condition (hdivisible : 0 < divisibleBy) (hmessage : ∃ log ∈ batch, log ≠ [])
    (hroutes : RoutesStack sentinel routeShape padValueDict batch) : ∃ flat lengths,
      batchedMessageLogToFlatMessage (columnTrailing routeShape) padValueDict divisibleBy
        (batch.map (fillLog sentinel)) = .ok (flat,lengths) ∧
      Aligned sentinel padValueDict divisibleBy batch flat lengths := by
  obtain ⟨flat,lengths,hflat⟩ := @exists_flat β _ _ sentinel batch h routeShape padValueDict divisibleBy
    hdivisible hmessage (by
      rintro ⟨log,hlog,hrouted⟩
      rcases hroutes with hall | hnone | ⟨hshape,-⟩
      · exact .inr hall
      · exact absurd hrouted (hnone log hlog)
      · exact .inl hshape)
  obtain ⟨hlengths,hcolumns⟩ := columns_of_ok h hdivisible hmessage hflat
  refine ⟨flat,lengths,hflat,hlengths,fun key hkey _ hsome => ?_⟩
  rw [(hcolumns key hkey hsome).2,List.map_map]
  refine congrArg (fun rows => some (Column.padded rows)) (List.map_congr_left fun log hlog => ?_)
  refine (row_eq_iff h hdivisible hkey hlog).mpr ?_
  by_cases hkind : key = "routed_experts" → Routed log
  · exact .inl hkind
  · obtain ⟨rfl,hplain⟩ := Classical.not_imp.mp hkind
    obtain ⟨log',hlog',hrouted⟩ := hsome rfl
    rcases hroutes with hall | hnone | ⟨-,hpad⟩
    · exact absurd (hall log hlog) hplain
    · exact absurd hrouted (hnone log' hlog')
    · exact .inr (hpad log hlog hplain)

end Batch

end Filled

section Messages

def plainMessage (role content : String) (ids : List β) : Message β :=
  ⟨[("role",.text role),("content",.text content),("token_ids",.tensor ids)],by simp⟩

def generatedMessage (content : String) (ids logprobs routes : List β) : Message β :=
  ⟨[("role",.text "assistant"),("content",.text content),("token_ids",.tensor ids),
    ("generation_logprobs",.tensor logprobs),("routed_experts",.tensor routes)],by simp⟩

theorem recorded_plainMessage (role content : String) (ids : List β) :
    Recorded (plainMessage role content ids) := by
  have hentries : ∀ {key value}, (plainMessage role content ids).get? key = some value →
      (key,value) ∈ [("role",.text role),("content",.text content),("token_ids",.tensor ids)] :=
    Dict.mem_entries_iff.mpr
  refine ⟨⟨role,rfl⟩,⟨content,rfl⟩,⟨ids,rfl⟩,fun key hkey value hget => ?_,
    fun key value hget hother => ?_⟩
  · have hentry := hentries hget
    simp at hentry hkey
    grind
  · have hentry := hentries hget
    simp at hentry hother
    grind [Value.isTensor]

theorem recorded_generatedMessage (content : String) {ids logprobs routes : List β}
    (hlogprobs : logprobs.length = ids.length) (hroutes : routes.length = ids.length) :
    Recorded (generatedMessage content ids logprobs routes) := by
  have hentries : ∀ {key value},
      (generatedMessage content ids logprobs routes).get? key = some value →
      (key,value) ∈ [("role",.text "assistant"),("content",.text content),("token_ids",.tensor ids),
        ("generation_logprobs",.tensor logprobs),("routed_experts",.tensor routes)] :=
    Dict.mem_entries_iff.mpr
  refine ⟨⟨"assistant",rfl⟩,⟨content,rfl⟩,⟨ids,rfl⟩,fun key hkey value hget => ?_,
    fun key value hget hother => ?_⟩
  · have hentry := hentries hget
    have hlength : turnLength (generatedMessage content ids logprobs routes) = ids.length := rfl
    simp at hentry hkey
    rw [hlength]
    refine ⟨rfl,?_⟩
    rcases hkey with rfl | rfl
    · exact ⟨logprobs,by simpa using hentry,hlogprobs⟩
    · exact ⟨routes,by simpa using hentry,hroutes⟩
  · have hentry := hentries hget
    simp at hentry hother
    grind [Value.isTensor]

end Messages
end Stacked
end Data
end DockyardRL
