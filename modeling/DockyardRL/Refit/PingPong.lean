import DockyardRL.Lib.Transition
import DockyardRL.Refit.PackedTensor

/-! Weights streamed through two shared buffers: the trainer packs one while the inference worker
reads the other, and an acknowledgement is awaited before the next handle is sent. -/
namespace DockyardRL
namespace Refit
namespace PingPong

open Transition

def calculateAlignedSize (sizeBytes alignment : ℕ) : ℕ :=
  (sizeBytes + alignment - 1) / alignment * alignment

def alignedSize (sizeBytes : ℕ) : ℕ := calculateAlignedSize sizeBytes 512

/-- The two buffers. -/
inductive Side
  | bufferA | bufferB
deriving DecidableEq, Repr

def Side.other : Side → Side
  | .bufferA => .bufferB
  | .bufferB => .bufferA

/-- A copy into a buffer that is queued on the stream of the trainer. -/
structure Write where
  side : Side
  start : ℕ
  bytes : List UInt8

abbrev Memory := Side → ℕ → UInt8

def Memory.write (mem : Memory) (w : Write) : Memory := fun side i =>
  if side = w.side ∧ w.start ≤ i ∧ i < w.start + w.bytes.length then w.bytes.getD (i - w.start) 0
  else mem side i

def Memory.read (mem : Memory) (side : Side) (offset size : ℕ) : List UInt8 :=
  (List.range' offset size).map (mem side)

/-- `weight.transpose(-2, -1).contiguous()` of a stack of matrices. -/
structure ExportTranspose where
  apply : Tensor → Tensor
  twice : ∀ t, apply (apply t) = t

/-- What is streamed, and what either side was told before. -/
structure Setting where
  stream : List (String × Tensor)
  bufferSizeBytes : ℕ
  info : Dict String (List ℕ × DType)
  gptOss : Bool
  transpose : ExportTranspose

namespace Setting

variable (c : Setting)

def half : ℕ := c.bufferSizeBytes / 2

def allocated : ℕ := alignedSize c.half

/-- `fix_gpt_oss_export_transpose`, for the architecture that it is for. -/
def fixExport (key : String) (weight : Tensor) : Tensor :=
  if c.gptOss ∧ "mlp.experts.down_proj".toList <:+ key.toList then c.transpose.apply weight else weight

end Setting

inductive StreamError
  | parameterTooLarge | copySizeMismatch | socketState
deriving DecidableEq, Repr

/-- Where the trainer is. A group is sent in three steps, and behind it comes the tensor that did not
fit, or nothing when the stream is over. -/
inductive Trainer
  | next
  | synchronize (behind : Option (String × Tensor))
  | awaitSlot (behind : Option (String × Tensor))
  | send (behind : Option (String × Tensor))
  | pack (item : String × Tensor)
  | awaitLast
  | complete
  | awaitComplete
  | finished
  | raised (e : StreamError)
deriving DecidableEq

/-- A request: a group with the handle of its buffer, or `IPCProtocol.COMPLETE`. -/
inductive Request
  | group (side : Side) (paramNames : List String) (usedBytes : ℕ)
  | complete
deriving DecidableEq

/-- A slice of a buffer that is viewed as a weight. -/
structure View where
  key : String
  offset : ℕ
  shape : List ℕ
  dtype : DType
deriving DecidableEq

/-- Where the inference worker is. -/
inductive Receiver
  | waiting
  | loading (side : Side) (views : List View)
  | acknowledge (side : Side)
  | acknowledgeComplete
  | finished
  | failed
deriving DecidableEq

structure State where
  trainer : Trainer
  rest : List (String × Tensor)
  currentBuffer : Side
  usedBytes : ℕ
  paramNames : List String
  awaitRecv : Bool
  /-- Copies that were issued and are not done. -/
  queued : List Write
  /-- The tensors that were packed so far. -/
  packed : List (String × Tensor)
  /-- The REQ socket has sent and not received. -/
  expecting : Bool
  request : Option Request
  reply : Bool
  memory : Memory
  receiver : Receiver
  /-- What reached the `load_weights` of the model. -/
  loaded : List (String × Tensor)

inductive Event
  | trainer | device | receiver
deriving DecidableEq, Repr

section Steps

variable (c : Setting)

def State.receive (s : State) (following : Trainer) : Option State :=
  if s.expecting then
    if s.reply then some { s with trainer := following, reply := false, expecting := false } else none
  else some { s with trainer := .raised .socketState }

def State.sendRequest (s : State) (request : Request) : State :=
  if s.expecting then { s with trainer := .raised .socketState }
  else { s with request := some request, expecting := true }

/-- The next tensor of the stream. -/
def State.take (s : State) : State :=
  match s.rest with
  | [] => { s with trainer := if s.paramNames = [] then .awaitLast else .synchronize none }
  | item :: rest =>
    if c.half < alignedSize item.2.bytes.length then
      { s with trainer := .raised .parameterTooLarge }
    else if c.half < s.usedBytes + alignedSize item.2.bytes.length then
      { s with trainer := .synchronize (some item), rest := rest }
    else { s with trainer := .pack item, rest := rest }

def State.packTensor (s : State) (item : String × Tensor) : State :=
  if s.usedBytes + item.2.bytes.length ≤ c.allocated then
    { s with
      trainer := .next
      queued := s.queued ++ [⟨s.currentBuffer,s.usedBytes,item.2.bytes⟩]
      packed := s.packed ++ [item]
      paramNames := s.paramNames ++ [item.1]
      usedBytes := s.usedBytes + alignedSize item.2.bytes.length }
  else { s with trainer := .raised .copySizeMismatch }

/-- The handle is sent; a tensor that did not fit goes to the other buffer. -/
def State.sendGroup (s : State) (behind : Option (String × Tensor)) : State :=
  let sent := s.sendRequest (.group s.currentBuffer s.paramNames s.usedBytes)
  if s.expecting then sent
  else
    match behind with
    | none => { sent with trainer := .awaitLast, awaitRecv := true }
    | some item =>
      { sent with
        trainer := .pack item
        awaitRecv := true
        currentBuffer := s.currentBuffer.other
        usedBytes := 0
        paramNames := [] }

/-- A step of `stream_weights_via_ipc_zmq_impl`. -/
def trainerStep (s : State) : Option State :=
  match s.trainer with
  | .next => some (s.take c)
  | .synchronize behind => if s.queued = [] then some { s with trainer := .awaitSlot behind } else none
  | .awaitSlot behind =>
    if s.awaitRecv then s.receive (.send behind) else some { s with trainer := .send behind }
  | .send behind => some (s.sendGroup behind)
  | .pack item => some (s.packTensor c item)
  | .awaitLast => if s.awaitRecv then s.receive .complete else some { s with trainer := .complete }
  | .complete =>
    if s.queued = [] then some ({ s with trainer := .awaitComplete }.sendRequest .complete) else none
  | .awaitComplete => s.receive .finished
  | .finished => none
  | .raised _ => none

def deviceStep (s : State) : Option State :=
  match s.queued with
  | [] => none
  | w :: queued => some { s with queued := queued, memory := s.memory.write w }

/-- The views of a group and the offset behind them, unless a name is unknown or a slice does not
have the bytes for its view. -/
def viewsOf : ℕ → List String → Option (List View × ℕ)
  | offset, [] => some ([],offset)
  | offset, key :: keys =>
    match c.info.get? key with
    | none => none
    | some (shape,dtype) =>
      let sizeBytes := shape.prod * dtype.itemsize
      if offset % dtype.itemsize = 0 ∧
          min (offset + sizeBytes) c.allocated - min offset c.allocated = sizeBytes then
        (viewsOf (offset + alignedSize sizeBytes) keys).map fun more =>
          (⟨key,offset,shape,dtype⟩ :: more.1,more.2)
      else none

def View.show (v : View) (mem : Memory) (side : Side) : Tensor :=
  ⟨v.dtype,v.shape,mem.read side v.offset (v.shape.prod * v.dtype.itemsize),by simp [Memory.read]⟩

def loadWeight (mem : Memory) (side : Side) (v : View) : String × Tensor :=
  (v.key,c.fixExport v.key (c.fixExport v.key (v.show mem side)))

/-- A step of `update_weights_via_ipc_zmq`. -/
def receiverStep (s : State) : Option State :=
  match s.receiver with
  | .waiting =>
    match s.request with
    | none => none
    | some .complete => some { s with receiver := .acknowledgeComplete, request := none }
    | some (.group side paramNames usedBytes) =>
      match viewsOf c 0 paramNames with
      | none => some { s with receiver := .failed, request := none }
      | some (views,offset) =>
        if offset = usedBytes then
          some { s with receiver := .loading side views, request := none }
        else some { s with receiver := .failed, request := none }
  | .loading side [] => some { s with receiver := .acknowledge side }
  | .loading side (v :: views) =>
    some { s with
      receiver := .loading side views
      loaded := s.loaded ++ [loadWeight c s.memory side v] }
  | .acknowledge _ => some { s with receiver := .waiting, reply := true }
  | .acknowledgeComplete => some { s with receiver := .finished, reply := true }
  | .finished => none
  | .failed => none

/-- Both processes and the device take their steps in any order; the buffers hold anything at
first. -/
def machine : Machine State Event where
  init s := ∃ memory, s = ⟨.next,c.stream,.bufferA,0,[],false,[],[],false,none,false,memory,.waiting,[]⟩
  step s
    | .trainer => trainerStep c s
    | .device => deviceStep s
    | .receiver => receiverStep c s

end Steps

end PingPong
end Refit
end DockyardRL
