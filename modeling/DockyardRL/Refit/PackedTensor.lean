import DockyardRL.Lib.Chunks
import DockyardRL.Lib.Dict

/-! Weights broadcast in packed buffers: the producer packs named tensors into buffers of bytes,
the consumer takes the buffers apart with the shapes and types it was told before. -/
namespace DockyardRL
namespace Refit

/-- Element types of tensors. -/
inductive DType
  | uint8 | int8 | bool | float8E4m3fn | float8E5m2 | bfloat16 | float16 | int16 | float32 | int32
  | float64 | int64 | complex64 | complex128
deriving DecidableEq, Repr

def DType.itemsize : DType → ℕ
  | .uint8 | .int8 | .bool | .float8E4m3fn | .float8E5m2 => 1
  | .bfloat16 | .float16 | .int16 => 2
  | .float32 | .int32 => 4
  | .float64 | .int64 | .complex64 => 8
  | .complex128 => 16

/-- A contiguous tensor: as many bytes as its shape and its type ask for. -/
structure Tensor where
  dtype : DType
  shape : List ℕ
  bytes : List UInt8
  size_eq : bytes.length = shape.prod * dtype.itemsize
deriving DecidableEq

inductive TensorError
  | viewOfScalar
  | misalignedOffset
  | lastDimNotDivisible
  | viewWithoutShape
  | shapeMismatch
  | noBroadcast
  | broadcastSizeMismatch
deriving DecidableEq, Repr

/-- `tensor.view(torch.uint8).view(-1)`; a scalar is only reinterpreted at its own width. -/
def Tensor.flatBytes (t : Tensor) : Except TensorError (List UInt8) :=
  if t.shape = [] ∧ t.dtype.itemsize ≠ 1 then .error .viewOfScalar else .ok t.bytes

/-- One-dimensional tensor of bytes inside a buffer. -/
structure Chunk where
  offset : ℕ
  bytes : List UInt8

/-- `chunk.view(dtype).view(*shape)`. -/
def Chunk.view (c : Chunk) (dtype : DType) (shape : List ℕ) : Except TensorError Tensor :=
  if c.offset % dtype.itemsize ≠ 0 then .error .misalignedOffset
  else if c.bytes.length % dtype.itemsize ≠ 0 then .error .lastDimNotDivisible
  else if shape = [] then .error .viewWithoutShape
  else if h : c.bytes.length = shape.prod * dtype.itemsize then .ok ⟨dtype,shape,c.bytes,h⟩
  else .error .shapeMismatch

/-- `name.rsplit(".", 1)[-1]`. -/
def lastComponent (name : String) : String :=
  String.ofList (name.toList.reverse.takeWhile (· ≠ '.')).reverse

/-- `_FP32_REFIT_SUFFIXES`. -/
def fp32RefitSuffixes : List String := ["e_score_correction_bias"]

def refitTensorDtype (name : String) (t : Tensor) (defaultDtype : DType) : DType :=
  if t.dtype ≠ .float32 then defaultDtype
  else if lastComponent name ∈ fp32RefitSuffixes then t.dtype
  else defaultDtype

/-- `tensor.to(dtype)`: the type changes, the shape stays. -/
structure Casting where
  convert : Tensor → DType → Tensor
  dtype_convert : ∀ t d, (convert t d).dtype = d
  shape_convert : ∀ t d, (convert t d).shape = t.shape

/-- `prepare_refit_info`: shape and streamed type of every tensor of the state dict. -/
def prepareRefitInfo (defaultDtype : DType) (stateDict : Dict String Tensor) :
    Dict String (List ℕ × DType) where
  entries := stateDict.entries.map fun entry =>
    (entry.1,entry.2.shape,refitTensorDtype entry.1 entry.2 defaultDtype)
  nodup := by simpa [Function.comp_def] using stateDict.nodup

/-- The named tensors that are streamed: `_dtensor_post_iter_func` of each. -/
def streamed (cast : Casting) (defaultDtype : DType) (stateDict : Dict String Tensor) :
    List (String × Tensor) :=
  stateDict.entries.map fun entry =>
    (entry.1,cast.convert entry.2 (refitTensorDtype entry.1 entry.2 defaultDtype))

/-- The rotating buffers of either side: what is packed into each, and how many bytes that is. -/
structure Buffers (α : Type*) where
  bufferIdx : ℕ
  packing : List (List α)
  sizes : List ℕ

namespace Buffers

variable {α : Type*}

def initial (numBuffers : ℕ) : Buffers α :=
  ⟨0,List.replicate numBuffers [],List.replicate numBuffers 0⟩

def rotate (s : Buffers α) : Buffers α :=
  let next := (s.bufferIdx + 1) % s.packing.length
  ⟨next,s.packing.set next [],s.sizes.set next 0⟩

def append (s : Buffers α) (x : α) (size : ℕ) : Buffers α :=
  { s with
    packing := s.packing.modify s.bufferIdx (· ++ [x])
    sizes := s.sizes.modify s.bufferIdx (· + size) }

def current (s : Buffers α) : List α := s.packing[s.bufferIdx]?.getD []

def currentSize (s : Buffers α) : ℕ := s.sizes[s.bufferIdx]?.getD 0

end Buffers

/-- What a producer has broadcast, and what stopped it. -/
structure Sent where
  broadcasts : List (List UInt8)
  error : Option TensorError
deriving DecidableEq

/-- `packed_broadcast_producer` from the current pass on. A pass ends when its buffer has more bytes
than the target; the end of the iterator sends what the last pass has packed. -/
def producerLoop (targetSize : ℕ) : Buffers (List UInt8) → List Tensor → Sent
  | s, [] => ⟨if s.current.isEmpty then [] else [s.current.flatten],none⟩
  | s, t :: rest =>
    match t.flatBytes with
    | .error e => ⟨[],some e⟩
    | .ok bytes =>
      let s := s.append bytes bytes.length
      if targetSize < s.currentSize then
        let sent := producerLoop targetSize s.rotate rest
        ⟨s.current.flatten :: sent.broadcasts,sent.error⟩
      else producerLoop targetSize s rest

def packedBroadcastProducer (targetSize numBuffers : ℕ) (tensors : List (String × Tensor)) : Sent :=
  producerLoop targetSize (Buffers.initial numBuffers).rotate (tensors.map Prod.snd)

/-- Name, shape and type of a tensor, its offset in the buffer and its size in bytes. -/
structure TensorMeta where
  name : String
  shape : List ℕ
  dtype : DType
  offset : ℕ
  size : ℕ

/-- `packed_tensor.split_with_sizes(sizes)`, from a position of the buffer on. -/
def splitWithSizes (packed : List UInt8) : ℕ → List ℕ → List Chunk
  | _, [] => []
  | offset, size :: sizes =>
    ⟨offset,(packed.drop offset).take size⟩ :: splitWithSizes packed (offset + size) sizes

def unpack (packed : List UInt8) (metas : List TensorMeta) :
    Except TensorError (List (String × Tensor)) :=
  (metas.zip (splitWithSizes packed 0 (metas.map TensorMeta.size))).mapM fun entry =>
    (entry.2.view entry.1.dtype entry.1.shape).map (Prod.mk entry.1.name)

/-- The broadcasts a consumer has made, by size, the lists it has passed to `post_unpack_func`, and
what stopped it. -/
structure Received where
  sizes : List ℕ
  loaded : List (List (String × Tensor))
  error : Option TensorError
deriving DecidableEq

/-- A broadcast into the current buffer, and the rest of the run after it is unpacked. A broadcast
that nobody sends, or of another size, does not complete. -/
def receive (s : Buffers TensorMeta) (incoming : List (List UInt8))
    (next : List (List UInt8) → Received) : Received :=
  match incoming with
  | [] => ⟨[s.currentSize],[],some .noBroadcast⟩
  | packed :: incoming =>
    if packed.length ≠ s.currentSize then ⟨[s.currentSize],[],some .broadcastSizeMismatch⟩
    else match unpack packed s.current with
      | .error e => ⟨[s.currentSize],[],some e⟩
      | .ok tensors =>
        let received := next incoming
        ⟨s.currentSize :: received.sizes,tensors :: received.loaded,received.error⟩

/-- `packed_broadcast_consumer` from the current pass on. -/
def consumerLoop (targetSize : ℕ) : Buffers TensorMeta → List (String × List ℕ × DType) →
    List (List UInt8) → Received
  | s, [], incoming => if s.current.isEmpty then ⟨[],[],none⟩ else receive s incoming fun _ => ⟨[],[],none⟩
  | s, (name,shape,dtype) :: rest, incoming =>
    let tensorSize := shape.prod * dtype.itemsize
    let s := s.append ⟨name,shape,dtype,s.currentSize,tensorSize⟩ tensorSize
    if targetSize < s.currentSize then
      receive s incoming fun incoming => consumerLoop targetSize s.rotate rest incoming
    else consumerLoop targetSize s rest incoming

def packedBroadcastConsumer (targetSize numBuffers : ℕ) (info : List (String × List ℕ × DType))
    (incoming : List (List UInt8)) : Received :=
  consumerLoop targetSize (Buffers.initial numBuffers).rotate info incoming

namespace Buffers

variable {α : Type*} {s : Buffers α}

/-- A buffer of bytes that is as full as its size says. -/
structure Valid (size : α → ℕ) (s : Buffers α) : Prop where
  packing : s.bufferIdx < s.packing.length
  sizes : s.sizes.length = s.packing.length
  sum : s.currentSize = (s.current.map size).sum

variable {size : α → ℕ}

theorem rotate_valid (hpos : 0 < s.packing.length) (hsizes : s.sizes.length = s.packing.length) :
    s.rotate.Valid size ∧ s.rotate.current = [] := by
  have hlt : (s.bufferIdx + 1) % s.packing.length < s.packing.length := Nat.mod_lt _ hpos
  have hcurrent : s.rotate.current = [] := by
    rw [current,rotate,List.getElem?_set_self hlt,Option.getD_some]
  have hsize : s.rotate.currentSize = 0 := by
    rw [currentSize,rotate,List.getElem?_set_self (hsizes ▸ hlt),Option.getD_some]
  refine ⟨⟨?_,?_,?_⟩,hcurrent⟩
  · rw [rotate,List.length_set]
    exact hlt
  · rw [rotate,List.length_set,List.length_set,hsizes]
  · rw [hcurrent,hsize]
    rfl

theorem Valid.rotate (h : s.Valid size) : s.rotate.Valid size ∧ s.rotate.current = [] :=
  rotate_valid (Nat.zero_lt_of_lt h.packing) h.sizes

theorem Valid.append (h : s.Valid size) (x : α) :
    (s.append x (size x)).Valid size ∧ (s.append x (size x)).current = s.current ++ [x] := by
  have hcurrent : (s.append x (size x)).current = s.current ++ [x] := by
    rw [current,Buffers.append,List.getElem?_modify_eq,List.getElem?_eq_getElem h.packing]
    simp [current,h.packing]
  have hlt : s.bufferIdx < s.sizes.length := h.sizes ▸ h.packing
  have hsize : (s.append x (size x)).currentSize = s.currentSize + size x := by
    rw [currentSize,Buffers.append,List.getElem?_modify_eq,List.getElem?_eq_getElem hlt]
    simp [currentSize,hlt]
  refine ⟨⟨?_,?_,?_⟩,hcurrent⟩
  · rw [Buffers.append,List.length_modify]
    exact h.packing
  · rw [Buffers.append,List.length_modify,List.length_modify,h.sizes]
  · rw [hcurrent,hsize,h.sum,List.map_append,List.sum_append]
    simp

theorem initial_valid (size : α → ℕ) {numBuffers : ℕ} (h : 1 ≤ numBuffers) :
    (initial numBuffers : Buffers α).rotate.Valid size ∧
      (initial numBuffers : Buffers α).rotate.current = [] := by
  refine rotate_valid ?_ ?_
  · rw [initial,List.length_replicate]
    exact h
  · rw [initial,List.length_replicate,List.length_replicate]

end Buffers

end Refit
end DockyardRL
