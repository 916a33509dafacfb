import DockyardRL.Lib.Dict
import DockyardRL.Lib.Padding

/-! Message logs as they are flattened for a model, split into per-turn arrays for the wire, and
put together again on the other side. -/
namespace DockyardRL
namespace Data

open Padding

/-- A value of a message: a text, or a tensor as its entries along the first dimension. -/
inductive Value (β : Type*)
  | text (s : String)
  | tensor (entries : List β)
  deriving DecidableEq

abbrev Message (β : Type*) := Dict String (Value β)

abbrev MessageLog (β : Type*) := List (Message β)

inductive MessageError
  | keyError (key : String)
  | typeError
  | attributeError
  | indexError
  | zeroDivision
  /-- `torch.stack` of tensors whose shapes differ. -/
  | unequalShapes (shapes : List (List ℕ))
  deriving DecidableEq

/-- A value of a flattened log: the values of a key, or one tensor. -/
inductive FlatValue (β : Type*)
  | list (values : List (Value β))
  | tensor (entries : List β)

/-- A column of a flattened batch: padded rows, what each log has, or the first value of each. -/
inductive Column (β : Type*)
  | padded (rows : List (List β))
  | values (perLog : List (Option (FlatValue β)))
  | firsts (perLog : List (Option (Value β)))

variable {β : Type*}

namespace Value

def isTensor : Value β → Bool
  | .text _ => false
  | .tensor _ => true

/-- `role == "assistant"`. -/
def isAssistant : Value β → Bool
  | .text role => role == "assistant"
  | .tensor _ => false

/-- `len(value)`. -/
def length : Value β → ℕ
  | .text s => s.length
  | .tensor entries => entries.length

end Value

namespace FlatValue

def isTensor : FlatValue β → Bool
  | .list _ => false
  | .tensor _ => true

/-- `v.size(0)` of a tensor; no length for anything else. -/
def size : FlatValue β → ℕ
  | .list _ => 0
  | .tensor entries => entries.length

/-- `seq[k][0]`. -/
def head? : FlatValue β → Option (Value β)
  | .list values => values.head?
  | .tensor _ => none

end FlatValue

def valuesOf (key : String) (log : MessageLog β) : List (Value β) := log.filterMap (Dict.get? · key)

def cat : List (Value β) → Except MessageError (List β)
  | [] => .ok []
  | .tensor entries :: rest => (cat rest).map (entries ++ ·)
  | .text _ :: _ => .error .typeError

def flatValue (values : List (Value β)) : Except MessageError (FlatValue β) :=
  match values with
  | .tensor _ :: _ => (cat values).map .tensor
  | _ => .ok (.list values)

def allKeys (log : MessageLog β) : List String := log.flatMap Dict.keys

def messageLogToFlatMessages (log : MessageLog β) :
    Except MessageError (Dict String (FlatValue β)) :=
  if log = [] then .ok .empty else Dict.build (allKeys log) fun key => flatValue (valuesOf key log)

def inputLength (seq : Dict String (FlatValue β)) : ℕ :=
  longest (seq.entries.map fun entry => entry.2.size)

/-- `n`, or the next multiple of `d`. -/
def roundUp (n d : ℕ) : ℕ := if n % d ≠ 0 then (n / d + 1) * d else n

theorem le_roundUp {n d : ℕ} (hd : 0 < d) : n ≤ roundUp n d := by
  rw [roundUp]
  split_ifs with h
  · have hmod := Nat.mod_add_div n d
    have hlt := Nat.mod_lt n hd
    rw [Nat.mul_comm,Nat.mul_add,Nat.mul_one]
    omega
  · exact Nat.le_refl n

/-- A tensor as its entries along the first dimension, and its other dimensions. -/
structure Tensor (β : Type*) where
  entries : List β
  trailing : List ℕ

def Tensor.shape (t : Tensor β) : List ℕ := t.entries.length :: t.trailing

/-- `_pad_tensor`, on the right. -/
def padTensor (maxLen : ℕ) (pad : β) (t : Tensor β) : Tensor β :=
  ⟨padTo maxLen pad t.entries,t.trailing⟩

def stack (ts : List (Tensor β)) : Except MessageError (List (List β)) :=
  if ∀ t ∈ ts, ∀ t' ∈ ts, t.shape = t'.shape then .ok (ts.map Tensor.entries)
  else .error (.unequalShapes (ts.map Tensor.shape))

/-- The tensor of one log; `torch.zeros(0)`, which has one dimension, where the log has none. -/
def filledValue (trailing : List ℕ) : Option (FlatValue β) → Except MessageError (Tensor β)
  | none => .ok ⟨[],[]⟩
  | some (.tensor entries) => .ok ⟨entries,trailing⟩
  | some (.list _) => .error .attributeError

def batchColumn (trailing : List ℕ) (maxLen : ℕ) (pad : β) (values : List (Option (FlatValue β))) :
    Except MessageError (Column β) :=
  match values.findSome? id with
  | some (.tensor _) => (values.mapM (filledValue trailing)).bind fun ts =>
    (stack (ts.map (padTensor maxLen pad))).map .padded
  | _ => .ok (.values values)

/-- The tensors of a key have one type and the dimensions `trailing` behind their first one. -/
def batchedMessageLogToFlatMessage [Zero β] (trailing : String → List ℕ)
    (padValueDict : Dict String β) (makeSequenceLengthDivisibleBy : ℕ) (batch : List (MessageLog β)) :
    Except MessageError (Dict String (Column β) × List ℕ) :=
  if batch = [] then .ok (.empty,[])
  else (batch.mapM messageLogToFlatMessages).bind fun seqs =>
    let keys := seqs.flatMap Dict.keys
    let lengths := seqs.map inputLength
    if makeSequenceLengthDivisibleBy = 0 then .error .zeroDivision
    else if seqs.all (fun seq => seq.entries.all fun entry => !entry.2.isTensor) then
      (Dict.build keys fun key =>
        .ok (.firsts (seqs.map fun seq => (seq.get? key).bind FlatValue.head?))).map (·,[])
    else
      let maxLen := roundUp (longest lengths) makeSequenceLengthDivisibleBy
      (Dict.build keys fun key => batchColumn (trailing key) maxLen ((padValueDict.get? key).getD 0)
        (seqs.map (Dict.get? · key))).map (·,lengths)

/-- What `decompose_message_log` makes of a batch. -/
structure Decomposed (β : Type*) where
  turnLengths : List (List ℕ)
  turnRoles : List (List (Value β))
  turnContents : List (List (Value β))
  responseTokenLengths : List ℕ

def turnLength (m : Message β) : ℕ := ((m.get? "token_ids").map Value.length).getD 0

def rolesOf (log : MessageLog β) : Except MessageError (List (Value β)) :=
  log.mapM fun m =>
    match m.get? "role" with
    | none => .error (.keyError "role")
    | some role => .ok role

def contentOf (m : Message β) : Value β := (m.get? "content").getD (.text "")

def isAssistant (m : Message β) : Bool := ((m.get? "role").map Value.isAssistant).getD false

def responseTokenLength (log : MessageLog β) : ℕ :=
  (((log.filter isAssistant).map turnLength).find? (· ≠ 0)).getD 0

def decomposeMessageLog (batch : List (MessageLog β)) : Except MessageError (Decomposed β) :=
  let maxTurns := longest (batch.map List.length)
  (batch.mapM rolesOf).map fun roles =>
    { turnLengths := batch.map fun log => padTo maxTurns 0 (log.map turnLength)
      turnRoles := roles
      turnContents := batch.map (List.map contentOf)
      responseTokenLengths := batch.map responseTokenLength }

/-- `row[offset : offset + length]`. -/
def sliceOf (row : List β) (offset length : ℕ) : List β := (row.drop offset).take length

/-- One turn put together again; a turn without tokens has no tensors. -/
def turnOf (row : List β) (logprobs : Option (List β)) (offset length : ℕ)
    (role content : Value β) : Message β :=
  let bare := (Dict.empty.set "role" role).set "content" content
  if length = 0 then bare
  else
    let turn := bare.set "token_ids" (.tensor (sliceOf row offset length))
    match logprobs with
    | none => turn
    | some logprobs =>
      if role.isAssistant then
        turn.set "generation_logprobs" (.tensor (sliceOf logprobs offset length))
      else turn

def reconstructTurns (row : List β) (logprobs : Option (List β)) :
    List (Value β) → List (Value β) → List ℕ → ℕ → Except MessageError (MessageLog β)
  | [],_,_,_ => .ok []
  | role :: roles,content :: contents,length :: lengths,offset =>
    (reconstructTurns row logprobs roles contents lengths (offset + length)).map
      (turnOf row logprobs offset length role content :: ·)
  | _ :: _,_,_,_ => .error .indexError

/-- `reconstruct_message_log`; the log-probs have a row for every sample. -/
def reconstructMessageLog (inputIds : List (List β)) (turnLengths : List (List ℕ))
    (turnRoles turnContents : List (List (Value β))) (generationLogprobs : Option (List (List β))) :
    Except MessageError (List (MessageLog β)) :=
  (List.range inputIds.length).mapM fun i =>
    match inputIds[i]?,turnLengths[i]?,turnRoles[i]?,turnContents[i]? with
    | some row,some lengths,some roles,some contents =>
      reconstructTurns row (generationLogprobs.map fun rows => rows.getD i []) roles contents
        lengths 0
    | _,_,_,_ => .error .indexError

def paddedColumn (flat : Dict String (Column β)) (key : String) :
    Except MessageError (List (List β)) :=
  match flat.get? key with
  | none => .error (.keyError key)
  | some (.padded rows) => .ok rows
  | some _ => .error .typeError

/-- A batch as the other side of the wire sees it: flattened and decomposed here,
reconstructed there. -/
def throughWire [Zero β] (trailing : String → List ℕ) (padValueDict : Dict String β)
    (makeSequenceLengthDivisibleBy : ℕ) (batch : List (MessageLog β)) :
    Except MessageError (List (MessageLog β)) :=
  (batchedMessageLogToFlatMessage trailing padValueDict makeSequenceLengthDivisibleBy
    batch).bind fun flat =>
  (paddedColumn flat.1 "token_ids").bind fun inputIds =>
  (paddedColumn flat.1 "generation_logprobs").bind fun generationLogprobs =>
  (decomposeMessageLog batch).bind fun d =>
    reconstructMessageLog inputIds d.turnLengths d.turnRoles d.turnContents
      (some generationLogprobs)

def tokenIds (m : Message β) : Except MessageError (List β) :=
  match m.get? "token_ids" with
  | none => .error (.keyError "token_ids")
  | some (.text _) => .error .typeError
  | some (.tensor entries) => .ok entries

/-- `backfill_routed_experts` on one log. -/
def backfillRoutedExperts (sentinel : β) (log : MessageLog β) :
    Except MessageError (MessageLog β) :=
  match log.findSome? (Dict.get? · "routed_experts") with
  | none => .ok log
  | some (.text _) => .error .attributeError
  | some (.tensor _) => log.mapM fun m =>
    match m.get? "routed_experts" with
    | some _ => .ok m
    | none => (tokenIds m).map fun ids =>
      m.set "routed_experts" (.tensor (List.replicate ids.length sentinel))

/-- The loss mask of a message and, where it has none, zero log-probs. -/
def addMaskAndLogprobs [Zero β] [One β] (m : Message β) : Except MessageError (Message β) :=
  (tokenIds m).bind fun ids =>
    match m.get? "role" with
    | none => .error (.keyError "role")
    | some role =>
      let generated := (m.get? "generation_logprobs").isSome
      let masked := m.set "token_loss_mask"
        (.tensor (List.replicate ids.length (if role.isAssistant && generated then 1 else 0)))
      .ok (if generated then masked
        else masked.set "generation_logprobs" (.tensor (List.replicate ids.length 0)))

/-- `add_grpo_token_loss_masks_and_generation_logprobs`; callers run it before they flatten. -/
def addGrpoTokenLossMasksAndGenerationLogprobs [Zero β] [One β] (sentinel : β)
    (batch : List (MessageLog β)) : Except MessageError (List (MessageLog β)) :=
  (batch.mapM (backfillRoutedExperts sentinel)).bind fun filled =>
    filled.mapM fun log => log.mapM addMaskAndLogprobs

end Data
end DockyardRL
