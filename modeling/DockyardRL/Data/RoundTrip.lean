import DockyardRL.Data.MessageLog
import Mathlib.Algebra.Ring.Nat

/-! Message logs through the wire and back: turns are found again from their lengths alone, as
long as every message has as many log-probs as tokens. -/
namespace DockyardRL
namespace Data

open Padding Fallible

variable {β : Type*}

/-- A key holds tensors throughout, or no tensor at all. -/
def Kinded (kind : String → Bool) (log : MessageLog β) : Prop :=
  ∀ m ∈ log, ∀ key value, m.get? key = some value → value.isTensor = kind key

def entriesOf (key : String) (m : Message β) : List β :=
  match m.get? key with
  | some (.tensor entries) => entries
  | _ => []

def columnOf (key : String) (log : MessageLog β) : List β := log.flatMap (entriesOf key)

theorem entriesOf_of_none {key : String} {m : Message β} (h : m.get? key = none) :
    entriesOf key m = [] := by
  rw [entriesOf,h]

theorem entriesOf_of_tensor {key : String} {m : Message β} {entries : List β}
    (h : m.get? key = some (.tensor entries)) : entriesOf key m = entries := by
  rw [entriesOf,h]

theorem mem_allKeys {key : String} {log : MessageLog β} :
    key ∈ allKeys log ↔ ∃ m ∈ log, (m.get? key).isSome := by
  rw [allKeys,List.mem_flatMap]
  exact exists_congr fun m => and_congr_right fun _ => Dict.mem_keys_iff

theorem columnOf_of_not_mem {key : String} {log : MessageLog β} (h : key ∉ allKeys log) :
    columnOf key log = [] := by
  refine List.flatMap_eq_nil_iff.mpr fun m hm => entriesOf_of_none ?_
  rw [← Option.not_isSome_iff_eq_none]
  exact fun hsome => h (mem_allKeys.mpr ⟨m,hm,hsome⟩)

section Flattening

variable {kind : String → Bool}

theorem cat_valuesOf {key : String} (hkey : kind key = true) {log : MessageLog β}
    (h : Kinded kind log) : cat (valuesOf key log) = .ok (columnOf key log) := by
  induction log with
  | nil => rfl
  | cons m log ih =>
    obtain ⟨hm,hrest⟩ := List.forall_mem_cons.mp h
    rw [valuesOf,List.filterMap_cons,columnOf,List.flatMap_cons]
    cases hget : m.get? key with
    | none =>
      rw [entriesOf_of_none hget]
      exact ih hrest
    | some value =>
      have hvalue := hm key value hget
      rw [hkey] at hvalue
      cases value with
      | text s => cases hvalue
      | tensor entries =>
        rw [entriesOf_of_tensor hget]
        change (cat (valuesOf key log)).map (entries ++ ·) = _
        rw [ih hrest]
        rfl

def flatOf (kind : String → Bool) (log : MessageLog β) (key : String) : FlatValue β :=
  if kind key then .tensor (columnOf key log) else .list (valuesOf key log)

theorem flatValue_valuesOf {key : String} {log : MessageLog β} (h : Kinded kind log)
    (hkey : key ∈ allKeys log) : flatValue (valuesOf key log) = .ok (flatOf kind log key) := by
  obtain ⟨m,hm,hsome⟩ := mem_allKeys.mp hkey
  obtain ⟨value,hvalue⟩ := Option.isSome_iff_exists.mp hsome
  have hkinds : ∀ v ∈ valuesOf key log, v.isTensor = kind key := by
    intro v hv
    obtain ⟨m',hm',hget⟩ := List.mem_filterMap.mp hv
    exact h m' hm' key v hget
  have hne : valuesOf key log ≠ [] :=
    List.ne_nil_of_mem (List.mem_filterMap.mpr ⟨m,hm,hvalue⟩)
  have hcat := @cat_valuesOf β kind key
  rw [flatOf]
  cases hvalues : valuesOf key log with
  | nil => exact absurd hvalues hne
  | cons v rest =>
    have hv := hkinds v (by simp [hvalues])
    cases v with
    | text s =>
      rw [← hv]
      rfl
    | tensor entries =>
      change (cat (.tensor entries :: rest)).map FlatValue.tensor = _
      rw [← hvalues,hcat hv.symm h,← hv]
      rfl

/-- `seq` is what a log flattens to. -/
def Flattened (kind : String → Bool) (log : MessageLog β) (seq : Dict String (FlatValue β)) : Prop :=
  ∀ key, seq.get? key = if key ∈ allKeys log then some (flatOf kind log key) else none

theorem messageLogToFlatMessages_ok {log : MessageLog β} (h : Kinded kind log) :
    ∃ seq, messageLogToFlatMessages log = .ok seq ∧ Flattened kind log seq := by
  rw [messageLogToFlatMessages]
  by_cases hlog : log = []
  · subst hlog
    exact ⟨.empty,if_pos rfl,fun key => rfl⟩
  · rw [if_neg hlog]
    exact Dict.build_ok fun key hkey => flatValue_valuesOf h hkey

/-- The length of a log is that of its longest column. -/
structure IsLength (kind : String → Bool) (log : MessageLog β) (n : ℕ) : Prop where
  bound : ∀ key, kind key = true → (columnOf key log).length ≤ n
  attained : n = 0 ∨ ∃ key, kind key = true ∧ (columnOf key log).length = n

theorem isLength_inputLength {log : MessageLog β} {seq : Dict String (FlatValue β)}
    (h : Flattened kind log seq) : IsLength kind log (inputLength seq) := by
  have hsize {key : String} (hkey : key ∈ allKeys log) :
      (flatOf kind log key).size ∈ seq.entries.map (fun entry => entry.2.size) := by
    have hget := h key
    rw [if_pos hkey] at hget
    exact List.mem_map_of_mem (f := fun entry => entry.2.size) (Dict.mem_entries_iff.mpr hget)
  refine ⟨fun key hkind => ?_,?_⟩
  · by_cases hkey : key ∈ allKeys log
    · have hle := le_longest (hsize hkey)
      rwa [flatOf,if_pos hkind] at hle
    · simp [columnOf_of_not_mem hkey]
  · rcases longest_mem (seq.entries.map fun entry => entry.2.size) with hzero | hmem
    · exact .inl hzero
    · obtain ⟨⟨key,value⟩,hentry,hsize⟩ := List.mem_map.mp hmem
      have hget := h key
      rw [Dict.mem_entries_iff.mp hentry] at hget
      by_cases hkey : key ∈ allKeys log
      · rw [if_pos hkey] at hget
        obtain rfl := Option.some.inj hget
        rw [inputLength,← hsize]
        cases hkind : kind key with
        | true => exact .inr ⟨key,hkind,by simp [flatOf,hkind,FlatValue.size]⟩
        | false => exact .inl (by simp [flatOf,hkind,FlatValue.size])
      · rw [if_neg hkey] at hget
        cases hget

/-- A log as long as its tokens. -/
theorem isLength_unique {log : MessageLog β} {n : ℕ} (h : IsLength kind log n) {key : String}
    (hkey : kind key = true) (hlongest : ∀ j, kind j = true →
      (columnOf j log).length ≤ (columnOf key log).length) : n = (columnOf key log).length := by
  have hle := h.bound key hkey
  rcases h.attained with hzero | ⟨j,hj,hlen⟩
  · omega
  · have hj := hlongest j hj
    omega

variable {pad : β} {maxLen : ℕ}

/-- The first value of a column of tensors is a tensor. -/
theorem findSome?_flattened {batch : List (MessageLog β)} {seqs : List (Dict String (FlatValue β))}
    (h : List.Forall₂ (Flattened kind) batch seqs) {key : String} (hkind : kind key = true)
    (hkey : ∃ log ∈ batch, key ∈ allKeys log) :
    ∃ entries, (seqs.map (Dict.get? · key)).findSome? id = some (.tensor entries) := by
  induction h with
  | nil => simp at hkey
  | @cons log seq batch seqs hflat _ ih =>
    rw [List.map_cons,List.findSome?_cons,hflat key]
    by_cases hmem : key ∈ allKeys log
    · simp [hmem,flatOf,hkind]
    · simp only [if_neg hmem,id]
      exact ih (by simpa [hmem] using hkey)

section Stacking

variable {batch : List (MessageLog β)} {seqs : List (Dict String (FlatValue β))} {key : String}
  {trailing : List ℕ}

def tensorOf (trailing : List ℕ) (key : String) (log : MessageLog β) : Tensor β :=
  if key ∈ allKeys log then ⟨columnOf key log,trailing⟩ else ⟨[],[]⟩

theorem filledValue_flattened {log : MessageLog β} {seq : Dict String (FlatValue β)}
    (h : Flattened kind log seq) (hkind : kind key = true) :
    filledValue trailing (seq.get? key) = .ok (tensorOf trailing key log) := by
  rw [h key,tensorOf]
  by_cases hmem : key ∈ allKeys log
  · simp [hmem,flatOf,hkind,filledValue]
  · simp [hmem,filledValue]

theorem batchColumn_eq (h : List.Forall₂ (Flattened kind) batch seqs) (hkind : kind key = true)
    (hkey : ∃ log ∈ batch, key ∈ allKeys log) :
    batchColumn trailing maxLen pad (seqs.map (Dict.get? · key)) =
      (stack (batch.map fun log => padTensor maxLen pad (tensorOf trailing key log))).map .padded := by
  have hvalues : (seqs.map (Dict.get? · key)).mapM (filledValue trailing) =
      .ok (batch.map (tensorOf trailing key)) := by
    rw [mapM_eq_ok,List.forall₂_map_left_iff,List.forall₂_map_right_iff]
    exact h.flip.imp fun _ _ hflat => filledValue_flattened hflat hkind
  obtain ⟨entries,hfirst⟩ := findSome?_flattened h hkind hkey
  rw [batchColumn,hfirst]
  dsimp only
  rw [hvalues]
  dsimp only [Except.bind]
  rw [List.map_map]
  rfl

theorem shape_padTensor {log : MessageLog β} (hlength : (columnOf key log).length ≤ maxLen) :
    (padTensor maxLen pad (tensorOf trailing key log)).shape =
      maxLen :: if key ∈ allKeys log then trailing else [] := by
  rw [Tensor.shape,padTensor,tensorOf]
  split_ifs with hmem
  · rw [length_padTo,Nat.max_eq_right hlength]
  · rw [length_padTo,List.length_nil,Nat.max_eq_right (Nat.zero_le _)]

theorem stack_ok (hlength : ∀ log ∈ batch, (columnOf key log).length ≤ maxLen)
    (hall : trailing = [] ∨ ∀ log ∈ batch, key ∈ allKeys log) :
    stack (batch.map fun log => padTensor maxLen pad (tensorOf trailing key log)) =
      .ok (batch.map fun log => padTo maxLen pad (columnOf key log)) := by
  have hshape : ∀ t ∈ batch.map (fun log => padTensor maxLen pad (tensorOf trailing key log)),
      t.shape = maxLen :: trailing := by
    intro t ht
    obtain ⟨log,hlog,rfl⟩ := List.mem_map.mp ht
    rw [shape_padTensor (hlength log hlog)]
    rcases hall with rfl | hall
    · rw [ite_self]
    · rw [if_pos (hall log hlog)]
  rw [stack,if_pos fun t ht t' ht' => (hshape t ht).trans (hshape t' ht').symm,List.map_map]
  refine congrArg Except.ok (List.map_congr_left fun log _ => ?_)
  rw [Function.comp_apply,padTensor,tensorOf]
  split_ifs with hmem
  · rfl
  · rw [columnOf_of_not_mem hmem]

end Stacking

theorem batchColumn_tensors {batch : List (MessageLog β)} {seqs : List (Dict String (FlatValue β))}
    (h : List.Forall₂ (Flattened kind) batch seqs) {key : String} (hkind : kind key = true)
    (hkey : ∃ log ∈ batch, key ∈ allKeys log) {trailing : List ℕ}
    (hlength : ∀ log ∈ batch, (columnOf key log).length ≤ maxLen)
    (hall : trailing = [] ∨ ∀ log ∈ batch, key ∈ allKeys log) :
    batchColumn trailing maxLen pad (seqs.map (Dict.get? · key)) =
      .ok (.padded (batch.map fun log => padTo maxLen pad (columnOf key log))) := by
  rw [batchColumn_eq h hkind hkey,stack_ok hlength hall]
  rfl

/-- The first value of a column without tensors is no tensor. -/
theorem findSome?_flattened_ne {batch : List (MessageLog β)} {seqs : List (Dict String (FlatValue β))}
    (h : List.Forall₂ (Flattened kind) batch seqs) {key : String} (hkind : kind key = false)
    (entries : List β) : (seqs.map (Dict.get? · key)).findSome? id ≠ some (.tensor entries) := by
  intro hsome
  obtain ⟨value,hvalue,heq⟩ := List.exists_of_findSome?_eq_some hsome
  obtain ⟨seq,hseq,rfl⟩ := List.mem_map.mp hvalue
  obtain ⟨log,-,hflat⟩ := exists_of_forall₂_left h.flip hseq
  rw [id,hflat key] at heq
  by_cases hmem : key ∈ allKeys log
  · simp [hmem,flatOf,hkind] at heq
  · simp [hmem] at heq

theorem batchColumn_lists {batch : List (MessageLog β)} {seqs : List (Dict String (FlatValue β))}
    (h : List.Forall₂ (Flattened kind) batch seqs) {key : String} (hkind : kind key = false)
    (trailing : List ℕ) : batchColumn trailing maxLen pad (seqs.map (Dict.get? · key)) =
      .ok (.values (seqs.map (Dict.get? · key))) := by
  rw [batchColumn]
  split
  next entries hsome => exact absurd hsome (findSome?_flattened_ne h hkind entries)
  next => rfl

theorem mem_keys_flattened {batch : List (MessageLog β)} {seqs : List (Dict String (FlatValue β))}
    (h : List.Forall₂ (Flattened kind) batch seqs) {key : String} :
    key ∈ seqs.flatMap Dict.keys ↔ ∃ log ∈ batch, key ∈ allKeys log := by
  induction h with
  | nil => simp
  | @cons log seq batch seqs hflat _ ih =>
    have hkey : key ∈ seq.keys ↔ key ∈ allKeys log := by
      rw [Dict.mem_keys_iff,hflat key]
      by_cases hmem : key ∈ allKeys log
      · simp [hmem]
      · simp [hmem]
    rw [List.flatMap_cons,List.mem_append,ih,hkey]
    simp

/-- A key of tensors with further dimensions is in every log. -/
def Stacks (trailing : String → List ℕ) (batch : List (MessageLog β)) : Prop :=
  ∀ key, trailing key = [] ∨ (∀ log ∈ batch, key ∈ allKeys log) ∨
    ∀ log ∈ batch, ∀ m ∈ log, ∀ entries, m.get? key ≠ some (.tensor entries)

theorem batchedMessageLogToFlatMessage_ok [Zero β] {trailing : String → List ℕ}
    (padValueDict : Dict String β) {divisibleBy : ℕ} (hdivisible : 0 < divisibleBy)
    {batch : List (MessageLog β)} (h : ∀ log ∈ batch, Kinded kind log) (hstack : Stacks trailing batch)
    (htensor : ∃ key, kind key = true ∧ ∃ log ∈ batch, key ∈ allKeys log) :
    ∃ flat lengths, batchedMessageLogToFlatMessage trailing padValueDict divisibleBy batch =
        .ok (flat,lengths) ∧ List.Forall₂ (IsLength kind) batch lengths ∧
      ∀ key, kind key = true → (∃ log ∈ batch, key ∈ allKeys log) →
        flat.get? key = some (.padded (batch.map fun log =>
          padTo (roundUp (longest lengths) divisibleBy) ((padValueDict.get? key).getD 0)
            (columnOf key log))) := by
  obtain ⟨seqs,hseqs,hall⟩ := exists_mapM_forall₂ fun log hlog =>
    messageLogToFlatMessages_ok (h log hlog)
  obtain ⟨key,hkind,log,hlog,hkey⟩ := htensor
  have hne : batch ≠ [] := List.ne_nil_of_mem hlog
  have hnone : ¬(seqs.all fun seq => seq.entries.all fun entry => !entry.2.isTensor) = true := by
    intro hall'
    obtain ⟨seq,hseq,hflat⟩ := exists_of_forall₂_left hall hlog
    have hget := hflat key
    rw [if_pos hkey,← Dict.mem_entries_iff] at hget
    have hfalse := List.all_eq_true.mp (List.all_eq_true.mp hall' seq hseq) _ hget
    simp [flatOf,hkind,FlatValue.isTensor] at hfalse
  have hlengths : List.Forall₂ (IsLength kind) batch (seqs.map inputLength) := by
    rw [List.forall₂_map_right_iff]
    exact hall.imp fun _ _ => isLength_inputLength
  have hwidth : ∀ key, kind key = true → ∀ log ∈ batch, (columnOf key log).length ≤
      roundUp (longest (seqs.map inputLength)) divisibleBy := by
    intro key hkind log hlog
    obtain ⟨n,hn,hlength⟩ := exists_of_forall₂_left hlengths hlog
    exact le_trans (hlength.bound key hkind) (le_trans (le_longest hn) (le_roundUp hdivisible))
  obtain ⟨flat,hflat,hget⟩ := @Dict.build_ok String (Column β) _ MessageError
    (seqs.flatMap Dict.keys) (fun key => batchColumn (trailing key)
      (roundUp (longest (seqs.map inputLength)) divisibleBy) ((padValueDict.get? key).getD 0)
      (seqs.map (Dict.get? · key)))
    (fun key => if kind key then .padded (batch.map fun log =>
        padTo (roundUp (longest (seqs.map inputLength)) divisibleBy)
          ((padValueDict.get? key).getD 0) (columnOf key log))
      else .values (seqs.map (Dict.get? · key))) (by
    intro key hkey
    cases hkind : kind key with
    | true =>
      have hmem := (mem_keys_flattened hall).mp hkey
      refine batchColumn_tensors hall hkind hmem (hwidth key hkind) ((hstack key).imp_right fun hstack =>
        hstack.resolve_right fun hnone => ?_)
      obtain ⟨log,hlog,hin⟩ := hmem
      obtain ⟨m,hm,hsome⟩ := mem_allKeys.mp hin
      obtain ⟨value,hvalue⟩ := Option.isSome_iff_exists.mp hsome
      cases value with
      | text s => cases (h log hlog m hm key _ hvalue).trans hkind
      | tensor entries => exact hnone log hlog m hm entries hvalue
    | false => exact batchColumn_lists hall hkind _)
  refine ⟨flat,seqs.map inputLength,?_,hlengths,fun key hkind hkey => ?_⟩
  · rw [batchedMessageLogToFlatMessage,if_neg hne,hseqs]
    simp only [Except.bind,if_neg (Nat.ne_of_gt hdivisible),if_neg hnone,hflat]
    rfl
  · rw [hget key,if_pos ((mem_keys_flattened hall).mpr hkey),if_pos hkind]

end Flattening

/-- A message that can be cut out of flat columns: it has as many log-probs as tokens. -/
structure Complete (m : Message β) : Prop where
  role : ∃ role, m.get? "role" = some (.text role)
  content : ∀ value, m.get? "content" = some value → value.isTensor = false
  tensors : ∃ ids logprobs, m.get? "token_ids" = some (.tensor ids) ∧
    m.get? "generation_logprobs" = some (.tensor logprobs) ∧ logprobs.length = ids.length

def roleOf (m : Message β) : Value β := (m.get? "role").getD (.text "")

def restore (m : Message β) : Message β :=
  let bare := (Dict.empty.set "role" (roleOf m)).set "content" (contentOf m)
  if turnLength m = 0 then bare
  else
    let turn := bare.set "token_ids" (.tensor (entriesOf "token_ids" m))
    if (roleOf m).isAssistant then
      turn.set "generation_logprobs" (.tensor (entriesOf "generation_logprobs" m))
    else turn

theorem sliceOf_append (pre part post : List β) {offset length : ℕ} (hoffset : pre.length = offset)
    (hlength : part.length = length) : sliceOf (pre ++ (part ++ post)) offset length = part := by
  rw [sliceOf,← hoffset,List.drop_left,← hlength,List.take_left]

namespace Complete

variable {m : Message β}

theorem turnLength_eq (h : Complete m) : turnLength m = (entriesOf "token_ids" m).length := by
  obtain ⟨ids,logprobs,hids,-,-⟩ := h.tensors
  rw [entriesOf_of_tensor hids,turnLength,hids]
  rfl

theorem length_logprobs (h : Complete m) :
    (entriesOf "generation_logprobs" m).length = turnLength m := by
  obtain ⟨ids,logprobs,hids,hlogprobs,hlen⟩ := h.tensors
  rw [h.turnLength_eq,entriesOf_of_tensor hids,entriesOf_of_tensor hlogprobs,hlen]

end Complete

theorem rolesOf_complete {log : MessageLog β} (h : ∀ m ∈ log, Complete m) :
    rolesOf log = .ok (log.map roleOf) := by
  refine mapM_ok fun m hm => ?_
  obtain ⟨role,hrole⟩ := (h m hm).role
  rw [roleOf,hrole]
  rfl

theorem reconstructTurns_complete {log : MessageLog β} (h : ∀ m ∈ log, Complete m)
    (pre post pre' post' : List β) (more : List ℕ) {offset : ℕ} (hpre : pre.length = offset)
    (hpre' : pre'.length = offset) :
    reconstructTurns (pre ++ (columnOf "token_ids" log ++ post))
      (some (pre' ++ (columnOf "generation_logprobs" log ++ post'))) (log.map roleOf)
      (log.map contentOf) (log.map turnLength ++ more) offset = .ok (log.map restore) := by
  induction log generalizing pre pre' offset with
  | nil => rfl
  | cons m log ih =>
    obtain ⟨hm,hrest⟩ := List.forall_mem_cons.mp h
    have hids : (entriesOf "token_ids" m).length = turnLength m := hm.turnLength_eq.symm
    have hrow {key : String} (p q : List β) : p ++ (columnOf key (m :: log) ++ q) =
        p ++ (entriesOf key m ++ (columnOf key log ++ q)) := by
      rw [columnOf,List.flatMap_cons,List.append_assoc]
      rfl
    have hnext := ih hrest (pre ++ entriesOf "token_ids" m)
      (pre' ++ entriesOf "generation_logprobs" m)
      (show _ = offset + turnLength m by rw [List.length_append,hpre,hids])
      (by rw [List.length_append,hpre',hm.length_logprobs])
    rw [List.append_assoc,List.append_assoc] at hnext
    simp only [List.map_cons,List.cons_append,reconstructTurns,hrow]
    rw [hnext]
    simp only [Except.map,turnOf,restore,sliceOf_append _ _ _ hpre hids,
      sliceOf_append _ _ _ hpre' hm.length_logprobs]

theorem reconstructMessageLog_complete {batch : List (MessageLog β)}
    (h : ∀ log ∈ batch, ∀ m ∈ log, Complete m) (maxLen maxTurns : ℕ) (pad pad' : β) :
    reconstructMessageLog (batch.map fun log => padTo maxLen pad (columnOf "token_ids" log))
      (batch.map fun log => padTo maxTurns 0 (log.map turnLength)) (batch.map (List.map roleOf))
      (batch.map (List.map contentOf))
      (some (batch.map fun log => padTo maxLen pad' (columnOf "generation_logprobs" log))) =
    .ok (batch.map (List.map restore)) := by
  have hrange : batch.map (List.map restore) =
      (List.range batch.length).map fun i => (batch.getD i []).map restore := by
    refine List.ext_getElem (by simp) fun i hi _ => ?_
    rw [List.length_map] at hi
    simp [hi]
  rw [reconstructMessageLog,hrange,List.length_map]
  refine mapM_ok fun i hi => ?_
  have hlt : i < batch.length := List.mem_range.mp hi
  have hturns := reconstructTurns_complete (h _ (List.getElem_mem hlt)) []
    (List.replicate (maxLen - (columnOf "token_ids" batch[i]).length) pad) []
    (List.replicate (maxLen - (columnOf "generation_logprobs" batch[i]).length) pad')
    (List.replicate (maxTurns - (batch[i].map turnLength).length) 0) rfl rfl
  simp only [List.getElem?_map,List.getElem?_eq_getElem hlt,Option.map_some,List.getD_eq_getElem?_getD,
    Option.getD_some]
  exact hturns

section Wire

variable [Zero β] {kind : String → Bool}

theorem throughWire_complete {trailing : String → List ℕ} (padValueDict : Dict String β)
    {divisibleBy : ℕ} (hdivisible : 0 < divisibleBy) {batch : List (MessageLog β)}
    (h : ∀ log ∈ batch, ∀ m ∈ log, Complete m) (hkinds : ∀ log ∈ batch, Kinded kind log)
    (hstack : Stacks trailing batch) (hmessage : ∃ log ∈ batch, log ≠ []) :
    throughWire trailing padValueDict divisibleBy batch = .ok (batch.map (List.map restore)) := by
  obtain ⟨log,hlog,hne⟩ := hmessage
  obtain ⟨m,rest,rfl⟩ := List.exists_cons_of_ne_nil hne
  obtain ⟨ids,logprobs,hids,hlogprobs,-⟩ := (h _ hlog m (by simp)).tensors
  have hkey {key : String} {entries : List β} (hget : m.get? key = some (.tensor entries)) :
      kind key = true ∧ ∃ log ∈ batch, key ∈ allKeys log :=
    ⟨(hkinds _ hlog m (by simp) key _ hget).symm,_,hlog,
      mem_allKeys.mpr ⟨m,by simp,Option.isSome_of_eq_some hget⟩⟩
  obtain ⟨flat,lengths,hflat,-,hcolumns⟩ := batchedMessageLogToFlatMessage_ok padValueDict
    hdivisible hkinds hstack ⟨_,(hkey hids).1,(hkey hids).2⟩
  have hdecomposed : decomposeMessageLog batch = .ok
      ⟨batch.map fun log => padTo (longest (batch.map List.length)) 0 (log.map turnLength),
        batch.map (List.map roleOf),batch.map (List.map contentOf),
        batch.map responseTokenLength⟩ := by
    rw [decomposeMessageLog,mapM_ok fun log hlog => rolesOf_complete (h log hlog)]
    rfl
  rw [throughWire,hflat]
  simp only [Except.bind,paddedColumn,hcolumns _ (hkey hids).1 (hkey hids).2,
    hcolumns _ (hkey hlogprobs).1 (hkey hlogprobs).2,hdecomposed]
  exact reconstructMessageLog_complete h _ _ _ _

end Wire

/-- A message as a data set or a rollout makes it. -/
structure WellFormed (m : Message β) : Prop where
  role : ∃ role, m.get? "role" = some (.text role)
  content : ∀ value, m.get? "content" = some value → value.isTensor = false
  tokens : ∃ ids, m.get? "token_ids" = some (.tensor ids) ∧
    ∀ value, m.get? "generation_logprobs" = some value →
      ∃ logprobs, value = .tensor logprobs ∧ logprobs.length = ids.length
  assistant : (roleOf m).isAssistant = true → (m.get? "generation_logprobs").isSome
  routedExperts : ∀ value, m.get? "routed_experts" = some value → value.isTensor = true

def filledKind (kind : String → Bool) (key : String) : Bool :=
  key == "routed_experts" || key == "token_loss_mask" || key == "generation_logprobs" || kind key

/-- A message of a log with its routing filled in, where the log has any. -/
structure Routed (log : MessageLog β) (m m' : Message β) : Prop where
  others : ∀ key, key ≠ "routed_experts" → m'.get? key = m.get? key
  tensor : ∀ value, m'.get? "routed_experts" = some value → value.isTensor = true
  kept : (m.get? "routed_experts").isSome → (m'.get? "routed_experts").isSome
  present : (m'.get? "routed_experts").isSome → "routed_experts" ∈ allKeys log

/-- A message with its loss mask and with log-probs. -/
structure Masked (m m' : Message β) : Prop where
  others : ∀ key, key ≠ "token_loss_mask" → key ≠ "generation_logprobs" → m'.get? key = m.get? key
  mask : ∃ entries, m'.get? "token_loss_mask" = some (.tensor entries)
  kept : (m.get? "generation_logprobs").isSome →
    m'.get? "generation_logprobs" = m.get? "generation_logprobs"
  complete : Complete m'

theorem backfillRoutedExperts_ok (sentinel : β) {log : MessageLog β}
    (h : ∀ m ∈ log, WellFormed m) :
    ∃ filled, backfillRoutedExperts sentinel log = .ok filled ∧
      List.Forall₂ (Routed log) log filled := by
  have hkept {m : Message β} (hm : m ∈ log) : Routed log m m :=
    ⟨fun _ _ => rfl,(h m hm).routedExperts,id,fun hsome => mem_allKeys.mpr ⟨m,hm,hsome⟩⟩
  rw [backfillRoutedExperts]
  cases hfirst : log.findSome? (Dict.get? · "routed_experts") with
  | none => exact ⟨log,rfl,List.forall₂_same.mpr fun m hm => hkept hm⟩
  | some value =>
    obtain ⟨m,hm,hget⟩ := List.exists_of_findSome?_eq_some hfirst
    cases value with
    | text s => cases (h m hm).routedExperts _ hget
    | tensor reference =>
      have hpresent := mem_allKeys.mpr ⟨m,hm,Option.isSome_of_eq_some hget⟩
      refine exists_mapM_forall₂ fun m hm => ?_
      cases hrouted : m.get? "routed_experts" with
      | some value => exact ⟨m,rfl,hkept hm⟩
      | none =>
        obtain ⟨ids,hids,-⟩ := (h m hm).tokens
        refine ⟨_,by simp only [tokenIds,hids]; rfl,fun key hkey => Dict.get?_set_of_ne _ _ hkey,?_,
          fun _ => Option.isSome_of_eq_some (Dict.get?_set_self _ _ _),fun _ => hpresent⟩
        intro value hvalue
        rw [Dict.get?_set_self] at hvalue
        obtain rfl := Option.some.inj hvalue
        rfl

theorem addMaskAndLogprobs_ok [Zero β] [One β] {m : Message β} (h : WellFormed m) :
    ∃ m', addMaskAndLogprobs m = .ok m' ∧ Masked m m' := by
  obtain ⟨role,hrole⟩ := h.role
  obtain ⟨ids,hids,hlogprobs⟩ := h.tokens
  have hset (key : String) (mask : List β) : key ≠ "token_loss_mask" →
      (m.set "token_loss_mask" (.tensor mask)).get? key = m.get? key :=
    fun hkey => Dict.get?_set_of_ne _ _ hkey
  simp only [addMaskAndLogprobs,tokenIds,hids,hrole,Except.bind]
  cases hget : m.get? "generation_logprobs" with
  | some value =>
    obtain ⟨logprobs,rfl,hlen⟩ := hlogprobs value hget
    refine ⟨_,rfl,fun key hmask _ => hset key _ hmask,⟨_,Dict.get?_set_self _ _ _⟩,
      fun _ => hset _ _ (by decide),⟨⟨role,?_⟩,?_,⟨ids,logprobs,?_,?_,hlen⟩⟩⟩
    · exact (hset _ _ (by decide)).trans hrole
    · exact fun value hvalue => h.content value ((hset _ _ (by decide)).symm.trans hvalue)
    · exact (hset _ _ (by decide)).trans hids
    · exact (hset _ _ (by decide)).trans hget
  | none =>
    have hboth (key : String) (mask logprobs : List β) : key ≠ "token_loss_mask" →
        key ≠ "generation_logprobs" → ((m.set "token_loss_mask" (.tensor mask)).set
          "generation_logprobs" (.tensor logprobs)).get? key = m.get? key := fun hmask hkey =>
      (Dict.get?_set_of_ne _ _ hkey).trans (hset key mask hmask)
    refine ⟨_,rfl,fun key hmask hkey => hboth key _ _ hmask hkey,
      ⟨_,(Dict.get?_set_of_ne _ _ (by decide)).trans (Dict.get?_set_self _ _ _)⟩,by simp [hget],
      ⟨⟨role,?_⟩,?_,⟨ids,_,?_,Dict.get?_set_self _ _ _,List.length_replicate⟩⟩⟩
    · exact (hboth _ _ _ (by decide) (by decide)).trans hrole
    · exact fun value hvalue => h.content value
        ((hboth _ _ _ (by decide) (by decide)).symm.trans hvalue)
    · exact (hboth _ _ _ (by decide) (by decide)).trans hids

theorem WellFormed.routed {log : MessageLog β} {m m' : Message β} (h : WellFormed m)
    (hrouted : Routed log m m') :
    WellFormed m' := by
  have hsame {key : String} (hkey : key ≠ "routed_experts") : m'.get? key = m.get? key :=
    hrouted.others key hkey
  have hrole : roleOf m' = roleOf m := by rw [roleOf,hsame (by decide),roleOf]
  exact {
    role := by rw [hsame (by decide)]; exact h.role
    content := by rw [hsame (by decide)]; exact h.content
    tokens := by rw [hsame (by decide),hsame (by decide)]; exact h.tokens
    assistant := by rw [hrole,hsame (by decide)]; exact h.assistant
    routedExperts := hrouted.tensor }

/-- A message of a log with the tensors it lacked. -/
structure Filled (kind : String → Bool) (log : MessageLog β) (m m' : Message β) : Prop where
  others : ∀ key, key ≠ "routed_experts" → key ≠ "token_loss_mask" → key ≠ "generation_logprobs" →
    m'.get? key = m.get? key
  kept : (m.get? "routed_experts").isSome → (m'.get? "routed_experts").isSome
  present : (m'.get? "routed_experts").isSome → "routed_experts" ∈ allKeys log
  logprobs : (m.get? "generation_logprobs").isSome →
    m'.get? "generation_logprobs" = m.get? "generation_logprobs"
  complete : Complete m'
  kinds : ∀ key value, m'.get? key = some value → value.isTensor = filledKind kind key

theorem Filled.of_masked {kind : String → Bool} {log : MessageLog β} {m m₁ m₂ : Message β}
    (hkinds : ∀ key value, m.get? key = some value → value.isTensor = kind key)
    (hrouted : Routed log m m₁) (hmasked : Masked m₁ m₂) : Filled kind log m m₂ := by
  have hsame {key : String} (hr : key ≠ "routed_experts") (hm : key ≠ "token_loss_mask")
      (hg : key ≠ "generation_logprobs") : m₂.get? key = m.get? key :=
    (hmasked.others key hm hg).trans (hrouted.others key hr)
  have hlogprobs : m₁.get? "generation_logprobs" = m.get? "generation_logprobs" :=
    hrouted.others _ (by decide)
  have hroutes : m₂.get? "routed_experts" = m₁.get? "routed_experts" :=
    hmasked.others _ (by decide) (by decide)
  refine ⟨fun key => hsame,fun hsome => ?_,fun hsome => ?_,fun hsome => ?_,hmasked.complete,?_⟩
  · rw [hroutes]
    exact hrouted.kept hsome
  · rw [hroutes] at hsome
    exact hrouted.present hsome
  · rw [← hlogprobs] at hsome ⊢
    exact hmasked.kept hsome
  · intro key value hget
    by_cases hr : key = "routed_experts"
    · subst hr
      rw [hroutes] at hget
      exact hrouted.tensor value hget
    by_cases hm : key = "token_loss_mask"
    · subst hm
      obtain ⟨entries,hmask⟩ := hmasked.mask
      obtain rfl := Option.some.inj (hmask.symm.trans hget)
      rfl
    by_cases hg : key = "generation_logprobs"
    · subst hg
      obtain ⟨ids,logprobs,-,hsome,-⟩ := hmasked.complete.tensors
      obtain rfl := Option.some.inj (hsome.symm.trans hget)
      rfl
    · rw [hsame hr hm hg] at hget
      simp [filledKind,hr,hm,hg,hkinds key value hget]

theorem addGrpoTokenLossMasksAndGenerationLogprobs_ok [Zero β] [One β] (sentinel : β)
    {kind : String → Bool} {batch : List (MessageLog β)}
    (h : ∀ log ∈ batch, ∀ m ∈ log, WellFormed m) (hkinds : ∀ log ∈ batch, Kinded kind log) :
    ∃ filled, addGrpoTokenLossMasksAndGenerationLogprobs sentinel batch = .ok filled ∧
      List.Forall₂ (fun log log' => List.Forall₂ (Filled kind log) log log') batch filled := by
  obtain ⟨routed,hrouted,hall⟩ := exists_mapM_forall₂ fun log hlog =>
    backfillRoutedExperts_ok sentinel (h log hlog)
  obtain ⟨filled,hfilled,hall'⟩ := exists_mapM_of_forall₂ hall fun log hlog log' hlog' =>
    exists_mapM_of_forall₂ hlog' fun m hm m' hm' => by
      obtain ⟨m₂,hm₂,hmasked⟩ := addMaskAndLogprobs_ok ((h log hlog m hm).routed hm')
      exact ⟨m₂,hm₂,Filled.of_masked (hkinds log hlog m hm) hm' hmasked⟩
  refine ⟨filled,?_,hall'⟩
  rw [addGrpoTokenLossMasksAndGenerationLogprobs,hrouted]
  exact hfilled

section Filled

variable {kind : String → Bool} {log log' : MessageLog β} {m m' : Message β}

theorem Filled.role (h : Filled kind log m m') : m'.get? "role" = m.get? "role" :=
  h.others _ (by decide) (by decide) (by decide)

theorem Filled.content (h : Filled kind log m m') : m'.get? "content" = m.get? "content" :=
  h.others _ (by decide) (by decide) (by decide)

theorem Filled.tokenIds (h : Filled kind log m m') : m'.get? "token_ids" = m.get? "token_ids" :=
  h.others _ (by decide) (by decide) (by decide)

/-- A log keeps its keys, apart from the two that every message gets. -/
theorem mem_allKeys_filled (h : List.Forall₂ (Filled kind log) log log') {key : String}
    (hmask : key ≠ "token_loss_mask") (hlogprobs : key ≠ "generation_logprobs") :
    key ∈ allKeys log' ↔ key ∈ allKeys log := by
  constructor
  · intro hkey
    obtain ⟨m',hm',hsome⟩ := mem_allKeys.mp hkey
    obtain ⟨m,hm,hfilled⟩ := exists_of_forall₂_left h.flip hm'
    by_cases hroutes : key = "routed_experts"
    · subst hroutes
      exact hfilled.present hsome
    · rw [hfilled.others key hroutes hmask hlogprobs] at hsome
      exact mem_allKeys.mpr ⟨m,hm,hsome⟩
  · intro hkey
    obtain ⟨m,hm,hsome⟩ := mem_allKeys.mp hkey
    obtain ⟨m',hm',hfilled⟩ := exists_of_forall₂_left h hm
    refine mem_allKeys.mpr ⟨m',hm',?_⟩
    by_cases hroutes : key = "routed_experts"
    · subst hroutes
      exact hfilled.kept hsome
    · rwa [hfilled.others key hroutes hmask hlogprobs]

theorem Stacks.filled {trailing : String → List ℕ}
    (hflat : ∀ key ∈ ["token_ids","generation_logprobs","token_loss_mask"], trailing key = [])
    {batch filled : List (MessageLog β)} (hwell : ∀ log ∈ batch, ∀ m ∈ log, WellFormed m)
    (hstack : Stacks trailing batch)
    (h : List.Forall₂ (fun log log' => List.Forall₂ (Filled kind log) log log') batch filled) :
    Stacks trailing filled := by
  intro key
  by_cases hmask : key = "token_loss_mask"
  · exact .inl (hflat key (by simp [hmask]))
  by_cases hlogprobs : key = "generation_logprobs"
  · exact .inl (hflat key (by simp [hlogprobs]))
  refine (hstack key).imp_right fun hboth => hboth.imp (fun hall log' hlog' => ?_)
    fun hnone log' hlog' m' hm' entries hget => ?_
  · obtain ⟨log,hlog,hsame⟩ := exists_of_forall₂_left h.flip hlog'
    exact (mem_allKeys_filled hsame hmask hlogprobs).mpr (hall log hlog)
  · obtain ⟨log,hlog,hsame⟩ := exists_of_forall₂_left h.flip hlog'
    obtain ⟨m,hm,hfilled⟩ := exists_of_forall₂_left (List.Forall₂.flip hsame) hm'
    by_cases hroutes : key = "routed_experts"
    · subst hroutes
      obtain ⟨m₁,hm₁,hsome⟩ := mem_allKeys.mp (hfilled.present (Option.isSome_of_eq_some hget))
      obtain ⟨value,hvalue⟩ := Option.isSome_iff_exists.mp hsome
      cases value with
      | text s => cases (hwell log hlog m₁ hm₁).routedExperts _ hvalue
      | tensor routes => exact hnone log hlog m₁ hm₁ routes hvalue
    · rw [hfilled.others key hroutes hmask hlogprobs] at hget
      exact hnone log hlog m hm entries hget

end Filled

section Restored

variable {m : Message β}

theorem get?_restore (key : String) : (restore m).get? key =
    if key = "role" then some (roleOf m)
    else if key = "content" then some (contentOf m)
    else if turnLength m = 0 then none
    else if key = "token_ids" then some (.tensor (entriesOf "token_ids" m))
    else if key = "generation_logprobs" ∧ (roleOf m).isAssistant = true then
      some (.tensor (entriesOf "generation_logprobs" m))
    else none := by
  unfold restore
  by_cases hlen : turnLength m = 0
  · simp only [if_pos hlen,Dict.get?_set,Dict.get?_empty]
    grind
  · by_cases hrole : (roleOf m).isAssistant = true
    · simp only [if_neg hlen,if_pos hrole,Dict.get?_set,Dict.get?_empty]
      grind
    · simp only [if_neg hlen,if_neg hrole,Dict.get?_set,Dict.get?_empty]
      grind

theorem entriesOf_tokenIds_restore (h : Complete m) :
    entriesOf "token_ids" (restore m) = entriesOf "token_ids" m := by
  rw [entriesOf,get?_restore]
  by_cases hlen : turnLength m = 0
  · rw [h.turnLength_eq,List.length_eq_zero_iff] at hlen
    simp [h.turnLength_eq,hlen]
  · simp [hlen]

theorem length_entriesOf_logprobs_restore (h : Complete m) :
    (entriesOf "generation_logprobs" (restore m)).length ≤ (entriesOf "token_ids" m).length := by
  rw [entriesOf,get?_restore]
  by_cases hlen : turnLength m = 0
  · simp [hlen]
  · by_cases hrole : (roleOf m).isAssistant = true
    · rw [← h.turnLength_eq]
      simp [hlen,hrole,h.length_logprobs]
    · simp [hlen,hrole]

theorem columnOf_tokenIds_restore {log : MessageLog β} (h : ∀ m ∈ log, Complete m) :
    columnOf "token_ids" (log.map restore) = columnOf "token_ids" log := by
  rw [columnOf,List.flatMap_map]
  exact List.flatMap_congr fun m hm => entriesOf_tokenIds_restore (h m hm)

theorem length_columnOf_logprobs_restore {log : MessageLog β} (h : ∀ m ∈ log, Complete m) :
    (columnOf "generation_logprobs" (log.map restore)).length ≤
      (columnOf "token_ids" log).length := by
  induction log with
  | nil => simp [columnOf]
  | cons m log ih =>
    obtain ⟨hm,hrest⟩ := List.forall_mem_cons.mp h
    rw [List.map_cons,columnOf,columnOf,List.flatMap_cons,List.flatMap_cons,List.length_append,
      List.length_append]
    exact Nat.add_le_add (length_entriesOf_logprobs_restore hm) (ih hrest)

def restoredKind (key : String) : Bool := key == "token_ids" || key == "generation_logprobs"

theorem kinded_restore {log : MessageLog β} (h : ∀ m ∈ log, Complete m) :
    Kinded restoredKind (log.map restore) := by
  intro r hr key value hget
  obtain ⟨m,hm,rfl⟩ := List.mem_map.mp hr
  obtain ⟨role,hrole⟩ := (h m hm).role
  have hroleText : (roleOf m).isTensor = false := by rw [roleOf,hrole]; rfl
  have hcontentText : (contentOf m).isTensor = false := by
    rw [contentOf]
    cases hcontent : m.get? "content" with
    | none => rfl
    | some value => exact (h m hm).content value hcontent
  rw [get?_restore] at hget
  by_cases hrole : key = "role"
  · rw [if_pos hrole] at hget
    obtain rfl := Option.some.inj hget
    simp [restoredKind,hrole,hroleText]
  by_cases hcontent : key = "content"
  · rw [if_neg hrole,if_pos hcontent] at hget
    obtain rfl := Option.some.inj hget
    simp [restoredKind,hcontent,hcontentText]
  rw [if_neg hrole,if_neg hcontent] at hget
  by_cases hlen : turnLength m = 0
  · simp [hlen] at hget
  by_cases hids : key = "token_ids"
  · simp only [if_neg hlen,if_pos hids] at hget
    obtain rfl := Option.some.inj hget
    simp [restoredKind,hids,Value.isTensor]
  · by_cases hlogprobs : key = "generation_logprobs" ∧ (roleOf m).isAssistant = true
    · rw [if_neg hlen,if_neg hids,if_pos hlogprobs] at hget
      obtain rfl := Option.some.inj hget
      simp [restoredKind,hlogprobs.1,Value.isTensor]
    · simp [hlen,hids,hlogprobs] at hget

end Restored

/-- `r` is what a turn `m` should come back as. -/
structure SameTurn (m r : Message β) : Prop where
  role : r.get? "role" = m.get? "role"
  content : r.get? "content" = some (contentOf m)
  tokenIds : r.get? "token_ids" = if turnLength m = 0 then none else m.get? "token_ids"
  logprobs : (roleOf m).isAssistant = true → r.get? "generation_logprobs" =
    if turnLength m = 0 then none else m.get? "generation_logprobs"

theorem sameTurn_restore {kind : String → Bool} {log : MessageLog β} {m m' : Message β}
    (h : WellFormed m) (hfilled : Filled kind log m m') : SameTurn m (restore m') := by
  obtain ⟨role,hrole⟩ := h.role
  obtain ⟨ids,hids,-⟩ := h.tokens
  have hroleOf : roleOf m' = roleOf m := by rw [roleOf,hfilled.role,roleOf]
  have hlength : turnLength m' = turnLength m := by rw [turnLength,hfilled.tokenIds,turnLength]
  refine ⟨?_,?_,?_,fun hassistant => ?_⟩
  · rw [get?_restore,if_pos rfl,hroleOf,roleOf,hrole]
    rfl
  · rw [get?_restore]
    simp [contentOf,hfilled.content]
  · rw [get?_restore,hlength,hids,entriesOf_of_tensor (hfilled.tokenIds.trans hids)]
    simp
  · have hsome := h.assistant hassistant
    obtain ⟨-,logprobs,-,hlogprobs,-⟩ := hfilled.complete.tensors
    rw [get?_restore,hlength,hroleOf,← hfilled.logprobs hsome,hlogprobs,
      entriesOf_of_tensor hlogprobs]
    simp [hassistant]

/-- No column of a log is longer than its token ids. -/
def TokensLongest (log : MessageLog β) : Prop :=
  ∀ key, (columnOf key log).length ≤ (columnOf "token_ids" log).length

theorem lengths_eq {kind : String → Bool} (hkind : kind "token_ids" = true)
    {batch : List (MessageLog β)} {lengths : List ℕ} (h : List.Forall₂ (IsLength kind) batch lengths)
    (hlongest : ∀ log ∈ batch, ∀ key, kind key = true →
      (columnOf key log).length ≤ (columnOf "token_ids" log).length) :
    lengths = batch.map fun log => (columnOf "token_ids" log).length := by
  induction h with
  | nil => rfl
  | cons hlen _ ih =>
    obtain ⟨hlog,hrest⟩ := List.forall_mem_cons.mp hlongest
    rw [List.map_cons,isLength_unique hlen hkind hlog,ih hrest]

theorem stacks_restore {trailing : String → List ℕ}
    (hflat : ∀ key ∈ ["token_ids","generation_logprobs","token_loss_mask"], trailing key = [])
    {batch : List (MessageLog β)} (h : ∀ log ∈ batch, ∀ m ∈ log, Complete m) :
    Stacks trailing (batch.map (List.map restore)) := by
  intro key
  by_cases hkey : restoredKind key = true
  · refine .inl (hflat key ?_)
    rcases Bool.or_eq_true_iff.mp hkey with hids | hlogprobs
    · simp [beq_iff_eq.mp hids]
    · simp [beq_iff_eq.mp hlogprobs]
  · refine .inr (.inr fun restored hrestored r hr entries hget => hkey ?_)
    obtain ⟨log,hlog,rfl⟩ := List.mem_map.mp hrestored
    exact (kinded_restore (h log hlog) r hr key _ hget).symm

theorem flatten_restore [Zero β] {trailing : String → List ℕ} (padValueDict : Dict String β)
    {divisibleBy : ℕ} (hdivisible : 0 < divisibleBy) {kind : String → Bool}
    {batch : List (MessageLog β)} (h : ∀ log ∈ batch, ∀ m ∈ log, Complete m)
    (hkinds : ∀ log ∈ batch, Kinded kind log) (hstack : Stacks trailing batch)
    (hflat : ∀ key ∈ ["token_ids","generation_logprobs","token_loss_mask"], trailing key = [])
    (htoken : ∃ log ∈ batch, ∃ m ∈ log, turnLength m ≠ 0)
    (hlongest : ∀ log ∈ batch, TokensLongest log) :
    ∃ flat flat' lengths,
      batchedMessageLogToFlatMessage trailing padValueDict divisibleBy batch = .ok (flat,lengths) ∧
      batchedMessageLogToFlatMessage trailing padValueDict divisibleBy (batch.map (List.map restore)) =
        .ok (flat',lengths) ∧
      ∃ rows, flat.get? "token_ids" = some (.padded rows) ∧
        flat'.get? "token_ids" = some (.padded rows) := by
  obtain ⟨log,hlog,m,hm,htokens⟩ := htoken
  have hcomplete := h log hlog m hm
  obtain ⟨ids,logprobs,hids,-,-⟩ := hcomplete.tensors
  have hkind : kind "token_ids" = true := (hkinds log hlog m hm _ _ hids).symm
  have hmem : ∃ log ∈ batch, "token_ids" ∈ allKeys log :=
    ⟨log,hlog,mem_allKeys.mpr ⟨m,hm,Option.isSome_of_eq_some hids⟩⟩
  have hback : (restore m).get? "token_ids" = some (.tensor (entriesOf "token_ids" m)) := by
    rw [get?_restore]
    simp [htokens]
  have hmem' : ∃ log ∈ batch.map (List.map restore), "token_ids" ∈ allKeys log :=
    ⟨_,List.mem_map_of_mem hlog,
      mem_allKeys.mpr ⟨_,List.mem_map_of_mem hm,Option.isSome_of_eq_some hback⟩⟩
  obtain ⟨flat,lengths,hrun,hlengths,hcolumns⟩ := batchedMessageLogToFlatMessage_ok padValueDict
    hdivisible hkinds hstack ⟨_,hkind,hmem⟩
  obtain ⟨flat',lengths',hrun',hlengths',hcolumns'⟩ := @batchedMessageLogToFlatMessage_ok β
    restoredKind _ _ padValueDict divisibleBy hdivisible (batch.map (List.map restore)) (by
      intro restored hrestored
      obtain ⟨log,hlog,rfl⟩ := List.mem_map.mp hrestored
      exact kinded_restore (h log hlog)) (stacks_restore hflat h) ⟨_,rfl,hmem'⟩
  have hsame : lengths' = lengths := by
    rw [lengths_eq hkind hlengths fun log hlog key _ => hlongest log hlog key,
      lengths_eq rfl hlengths' ?_,List.map_map]
    · refine List.map_congr_left fun log hlog => ?_
      rw [Function.comp_apply,columnOf_tokenIds_restore (h log hlog)]
    · intro restored hrestored key hkey
      obtain ⟨log,hlog,rfl⟩ := List.mem_map.mp hrestored
      rw [columnOf_tokenIds_restore (h log hlog)]
      rcases Bool.or_eq_true_iff.mp hkey with hids | hlogprobs
      · refine Nat.le_of_eq ?_
        rw [beq_iff_eq.mp hids,columnOf_tokenIds_restore (h log hlog)]
      · rw [beq_iff_eq.mp hlogprobs]
        exact length_columnOf_logprobs_restore (h log hlog)
  subst hsame
  refine ⟨flat,flat',lengths',hrun,hrun',_,hcolumns _ hkind hmem,?_⟩
  rw [hcolumns' _ rfl hmem',List.map_map]
  congr 2
  refine List.map_congr_left fun log hlog => ?_
  rw [Function.comp_apply,columnOf_tokenIds_restore (h log hlog)]

theorem mem_filled {kind : String → Bool} {batch filled : List (MessageLog β)}
    (h : List.Forall₂ (fun log log' => List.Forall₂ (Filled kind log) log log') batch filled)
    {log' : MessageLog β} (hlog' : log' ∈ filled) {m' : Message β} (hm' : m' ∈ log') :
    ∃ log ∈ batch, ∃ m ∈ log, Filled kind log m m' := by
  obtain ⟨log,hlog,hall⟩ := exists_of_forall₂_left h.flip hlog'
  obtain ⟨m,hm,hfilled⟩ := exists_of_forall₂_left (List.Forall₂.flip hall) hm'
  exact ⟨log,hlog,m,hm,hfilled⟩

/-- Message logs whose missing log-probs are filled in survive the wire. -/
theorem messageLog_roundTrip [Zero β] [One β] (sentinel : β) {trailing : String → List ℕ}
    (hflat : ∀ key ∈ ["token_ids","generation_logprobs","token_loss_mask"], trailing key = [])
    (padValueDict : Dict String β) {divisibleBy : ℕ} (hdivisible : 0 < divisibleBy)
    {batch : List (MessageLog β)} (h : ∀ log ∈ batch, ∀ m ∈ log, WellFormed m)
    (hkinds : ∃ kind, ∀ log ∈ batch, Kinded kind log) (hstack : Stacks trailing batch)
    (hmessage : ∃ log ∈ batch, log ≠ []) :
    ∃ filled logs, addGrpoTokenLossMasksAndGenerationLogprobs sentinel batch = .ok filled ∧
      throughWire trailing padValueDict divisibleBy filled = .ok logs ∧
      List.Forall₂ (List.Forall₂ SameTurn) batch logs ∧
      ((∃ log ∈ batch, ∃ m ∈ log, turnLength m ≠ 0) → (∀ log ∈ filled, TokensLongest log) →
        ∃ flat flat' lengths,
          batchedMessageLogToFlatMessage trailing padValueDict divisibleBy filled =
            .ok (flat,lengths) ∧
          batchedMessageLogToFlatMessage trailing padValueDict divisibleBy logs = .ok (flat',lengths) ∧
          ∃ rows, flat.get? "token_ids" = some (.padded rows) ∧
            flat'.get? "token_ids" = some (.padded rows)) := by
  obtain ⟨kind,hkinds⟩ := hkinds
  obtain ⟨filled,hfilled,hall⟩ := addGrpoTokenLossMasksAndGenerationLogprobs_ok sentinel h hkinds
  have hcomplete : ∀ log ∈ filled, ∀ m ∈ log, Complete m := fun log hlog m hm => by
    obtain ⟨_,_,_,_,hfill⟩ := mem_filled hall hlog hm
    exact hfill.complete
  have hkinds' : ∀ log ∈ filled, Kinded (filledKind kind) log := fun log hlog m hm => by
    obtain ⟨_,_,_,_,hfill⟩ := mem_filled hall hlog hm
    exact hfill.kinds
  have hmessage' : ∃ log ∈ filled, log ≠ [] := by
    obtain ⟨log,hlog,hne⟩ := hmessage
    obtain ⟨log',hlog',hsame⟩ := exists_of_forall₂_left hall hlog
    refine ⟨log',hlog',fun hnil => hne ?_⟩
    rwa [hnil,List.forall₂_nil_right_iff] at hsame
  have hstack' := hstack.filled hflat h hall
  refine ⟨filled,_,hfilled,throughWire_complete padValueDict hdivisible hcomplete hkinds' hstack'
    hmessage',?_,fun htoken hlongest => ?_⟩
  · rw [List.forall₂_map_right_iff]
    refine forall₂_imp_of_mem hall fun log hlog log' hlog' => ?_
    rw [List.forall₂_map_right_iff]
    exact forall₂_imp_of_mem hlog' fun m hm m' hm' => sameTurn_restore (h log hlog m hm) hm'
  · refine flatten_restore padValueDict hdivisible hcomplete hkinds' hstack' hflat ?_ hlongest
    obtain ⟨log,hlog,m,hm,hlen⟩ := htoken
    obtain ⟨log',hlog',hsame⟩ := exists_of_forall₂_left hall hlog
    obtain ⟨m',hm',hfill⟩ := exists_of_forall₂_left hsame hm
    refine ⟨log',hlog',m',hm',?_⟩
    rwa [turnLength,hfill.tokenIds]

def userTurn (ids : List ℕ) : Message ℕ :=
  ⟨[("role",.text "user"),("content",.text "hi"),("token_ids",.tensor ids)],by simp⟩

def assistantTurn (ids logprobs : List ℕ) : Message ℕ :=
  ⟨[("role",.text "assistant"),("token_ids",.tensor ids),
    ("generation_logprobs",.tensor logprobs)],by simp⟩

theorem wellFormed_userTurn (ids : List ℕ) : WellFormed (userTurn ids) :=
  ⟨⟨"user",rfl⟩,fun _ h => Option.some.inj h ▸ rfl,⟨ids,rfl,nofun⟩,nofun,nofun⟩

theorem wellFormed_assistantTurn {ids logprobs : List ℕ} (h : logprobs.length = ids.length) :
    WellFormed (assistantTurn ids logprobs) :=
  ⟨⟨"assistant",rfl⟩,nofun,⟨ids,rfl,fun _ hget => ⟨logprobs,(Option.some.inj hget).symm,h⟩⟩,
    fun _ => rfl,nofun⟩

def routedTurn (ids logprobs routes : List ℕ) : Message ℕ :=
  ⟨[("role",.text "assistant"),("token_ids",.tensor ids),("generation_logprobs",.tensor logprobs),
    ("routed_experts",.tensor routes)],by simp⟩

theorem wellFormed_routedTurn {ids logprobs : List ℕ} (h : logprobs.length = ids.length)
    (routes : List ℕ) : WellFormed (routedTurn ids logprobs routes) :=
  ⟨⟨"assistant",rfl⟩,nofun,⟨ids,rfl,fun _ hget => ⟨logprobs,(Option.some.inj hget).symm,h⟩⟩,
    fun _ => rfl,fun _ hget => Option.some.inj hget ▸ rfl⟩

def chats : List (MessageLog ℕ) :=
  [[userTurn [7],routedTurn [8,9] [5,6] [1,2],assistantTurn [] []],[routedTurn [3] [4] [2]]]

def chatKind (key : String) : Bool :=
  key == "token_ids" || key == "generation_logprobs" || key == "routed_experts"

/-- Two layers with four experts for every token. -/
def chatTrailing (key : String) : List ℕ := if key = "routed_experts" then [2,4] else []

theorem forall_chats {P : Message ℕ → Prop} (huser : P (userTurn [7]))
    (hrouted : P (routedTurn [8,9] [5,6] [1,2])) (hassistant : P (assistantTurn [] []))
    (hlast : P (routedTurn [3] [4] [2])) : ∀ log ∈ chats, ∀ m ∈ log, P m := by
  simp only [chats,List.forall_mem_cons,List.not_mem_nil,false_imp_iff,implies_true,and_true]
  exact ⟨⟨huser,hrouted,hassistant⟩,hlast⟩

theorem kinded_chats : ∀ log ∈ chats, Kinded chatKind log := by
  have hentries : ∀ m : Message ℕ, (∀ entry ∈ m.entries, entry.2.isTensor = chatKind entry.1) →
      ∀ key value, m.get? key = some value → value.isTensor = chatKind key :=
    fun m h key value hget => h (key,value) (Dict.mem_entries_iff.mpr hget)
  exact forall_chats (hentries _ (by decide)) (hentries _ (by decide)) (hentries _ (by decide))
    (hentries _ (by decide))

theorem stacks_chats : Stacks chatTrailing chats := by
  intro key
  by_cases hkey : key = "routed_experts"
  · subst hkey
    exact .inr (.inl (by decide))
  · exact .inl (if_neg hkey)

theorem messageLog_roundTrip_chats :
    ∃ filled logs, addGrpoTokenLossMasksAndGenerationLogprobs 0 chats = .ok filled ∧
      throughWire chatTrailing .empty 4 filled = .ok logs ∧
      List.Forall₂ (List.Forall₂ SameTurn) chats logs := by
  obtain ⟨filled,logs,hfilled,hlogs,hsame,-⟩ := messageLog_roundTrip 0 (by decide) .empty
    (show 0 < 4 by decide) (forall_chats (wellFormed_userTurn _) (@wellFormed_routedTurn [8,9] [5,6] rfl _)
      (wellFormed_assistantTurn rfl) (@wellFormed_routedTurn [3] [4] rfl _)) ⟨chatKind,kinded_chats⟩
      stacks_chats ⟨_,List.mem_cons_self,by simp⟩
  exact ⟨filled,logs,hfilled,hlogs,hsame⟩

def answer (ids logprobs : List ℕ) : Message ℕ :=
  ⟨[("role",.text "assistant"),("content",.text ""),("token_ids",.tensor ids),
    ("generation_logprobs",.tensor logprobs)],by simp⟩

def userTurnWith (key : String) (h : key ∉ ["role","content","token_ids"]) (ids entries : List ℕ) :
    Message ℕ :=
  ⟨[("role",.text "user"),("content",.text "hi"),("token_ids",.tensor ids),(key,.tensor entries)],by
    simp only [List.mem_cons,List.not_mem_nil,or_false,not_or] at h
    simp [Ne.symm h.1,Ne.symm h.2.1,Ne.symm h.2.2]⟩

def tokenMatrix (batch : List (MessageLog ℕ)) :
    Except MessageError (Option (Column ℕ) × List ℕ) :=
  (batchedMessageLogToFlatMessage (fun _ => []) .empty 1 batch).map fun r =>
    (r.1.get? "token_ids",r.2)

/-- Log-probs and token ids through the wire, all tensors of one dimension. -/
def flatWire : List (MessageLog ℕ) → Except MessageError (List (MessageLog ℕ)) :=
  throughWire (fun _ => []) .empty 1

/-- Log-probs come back from the wrong place when a turn before has none, or has fewer than
tokens; the token matrix does not come back when no turn has tokens, and its lengths do not when
another column is longer. -/
theorem roundTrip_fails :
    (flatWire [[userTurn [7],assistantTurn [8] [5]]] =
        .ok [[userTurn [7],answer [8] [0]]] ∧
      ¬List.Forall₂ (List.Forall₂ SameTurn) [[userTurn [7],assistantTurn [8] [5]]]
        [[userTurn [7],answer [8] [0]]]) ∧
    ((addGrpoTokenLossMasksAndGenerationLogprobs 0
        [[userTurnWith "generation_logprobs" (by decide) [7] [],assistantTurn [8] [5]]]).bind
        flatWire = .ok [[userTurn [7],answer [8] [0]]]) ∧
    (∃ filled logs, addGrpoTokenLossMasksAndGenerationLogprobs 0 [[userTurn []]] = .ok filled ∧
      flatWire filled = .ok logs ∧
      tokenMatrix filled = .ok (some (.padded [[]]),[0]) ∧ tokenMatrix logs = .ok (none,[])) ∧
    (∃ filled logs, addGrpoTokenLossMasksAndGenerationLogprobs 0
        [[userTurnWith "pixel_values" (by decide) [7] [1,2]]] = .ok filled ∧
      flatWire filled = .ok logs ∧
      tokenMatrix filled = .ok (some (.padded [[7,0]]),[2]) ∧
      tokenMatrix logs = .ok (some (.padded [[7]]),[1])) := by
  refine ⟨⟨rfl,fun h => ?_⟩,rfl,⟨_,_,rfl,rfl,rfl,rfl⟩,⟨_,_,rfl,rfl,rfl,rfl⟩⟩
  have hturn := (List.forall₂_cons.mp (List.forall₂_cons.mp (List.forall₂_cons.mp h).1).2).1
  exact absurd (hturn.logprobs rfl) (by decide)

end Data
end DockyardRL
