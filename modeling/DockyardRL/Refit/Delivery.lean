import DockyardRL.Refit.PackedTensor

/-! What a packed broadcast delivers. Both sides cut the stream at the same tensors; a buffer is
taken apart into the tensors it was packed from when none of them is a scalar and each starts at a
multiple of the width of its elements. -/
namespace DockyardRL
namespace Refit

open Buffers Cut Fallible

variable {targetSize : ℕ}

def byteSize (x : String × Tensor) : ℕ := x.2.bytes.length

def packedBytes (piece : List (String × Tensor)) : List UInt8 := (piece.map fun x => x.2.bytes).flatten

def pieces (targetSize : ℕ) (tensors : List (String × Tensor)) : List (List (String × Tensor)) :=
  cutFrom byteSize targetSize [] tensors

def Aligned : ℕ → List (String × Tensor) → Prop
  | _, [] => True
  | offset, x :: rest => x.2.dtype.itemsize ∣ offset ∧ Aligned (offset + byteSize x) rest

instance decidableAligned : ∀ offset piece, Decidable (Aligned offset piece)
  | _, [] => isTrue trivial
  | offset, x :: rest =>
    have := decidableAligned (offset + byteSize x) rest
    inferInstanceAs (Decidable (_ ∧ _))

theorem length_packedBytes (piece : List (String × Tensor)) :
    (packedBytes piece).length = (piece.map byteSize).sum := by
  rw [packedBytes,List.length_flatten,List.map_map]
  rfl

section Producer

theorem producerLoop_ok {s : Buffers (List UInt8)} (hs : s.Valid List.length) {tensors : List Tensor}
    (h : ∀ t ∈ tensors, ¬(t.shape = [] ∧ t.dtype.itemsize ≠ 1)) :
    producerLoop targetSize s tensors =
      ⟨(cutFrom List.length targetSize s.current (tensors.map Tensor.bytes)).map List.flatten,none⟩ := by
  induction tensors generalizing s with
  | nil =>
    rw [producerLoop,List.map_nil,cutFrom]
    split_ifs <;> rfl
  | cons t rest ih =>
    have hrest : ∀ u ∈ rest, ¬(u.shape = [] ∧ u.dtype.itemsize ≠ 1) :=
      fun u hu => h u (List.mem_cons_of_mem _ hu)
    have hflat : t.flatBytes = .ok t.bytes := if_neg (h t List.mem_cons_self)
    obtain ⟨hvalid,hcurrent⟩ := hs.append t.bytes
    rw [producerLoop,hflat,List.map_cons,cutFrom,← hcurrent,← hvalid.sum]
    dsimp only
    split_ifs
    · obtain ⟨hnext,hempty⟩ := hvalid.rotate
      rw [ih hnext hrest,hempty,List.map_cons]
    · rw [ih hvalid hrest]

theorem producerLoop_scalar (s : Buffers (List UInt8)) {tensors : List Tensor} {t : Tensor}
    (ht : t ∈ tensors) (hscalar : t.shape = [] ∧ t.dtype.itemsize ≠ 1) :
    (producerLoop targetSize s tensors).error ≠ none := by
  induction tensors generalizing s with
  | nil => cases ht
  | cons u rest ih =>
    rw [producerLoop,Tensor.flatBytes]
    by_cases hu : u.shape = [] ∧ u.dtype.itemsize ≠ 1
    · rw [if_pos hu]
      exact Option.some_ne_none _
    · have hmem : t ∈ rest := by
        obtain rfl | hmem := List.mem_cons.mp ht
        · exact absurd hscalar hu
        · exact hmem
      rw [if_neg hu]
      dsimp only
      split_ifs
      · exact ih _ hmem
      · exact ih _ hmem

end Producer

section Unpacking

theorem view_tensor (t : Tensor) (offset : ℕ) :
    Chunk.view ⟨offset,t.bytes⟩ t.dtype t.shape =
      if offset % t.dtype.itemsize ≠ 0 then .error .misalignedOffset
      else if t.shape = [] then .error .viewWithoutShape else .ok t := by
  have hdivides : t.bytes.length % t.dtype.itemsize = 0 := by
    rw [t.size_eq]
    exact Nat.mul_mod_left _ _
  rw [Chunk.view]
  dsimp only
  rw [if_neg (not_not.mpr hdivides),dif_pos t.size_eq]

/-- The entries of `meta_data` describe a tensor, wherever they say that it is. -/
structure Describes (m : TensorMeta) (x : String × Tensor) : Prop where
  name : m.name = x.1
  shape : m.shape = x.2.shape
  dtype : m.dtype = x.2.dtype
  size : m.size = byteSize x

/-- A piece that can be read back from its buffer. -/
def Readable (offset : ℕ) (piece : List (String × Tensor)) : Prop :=
  Aligned offset piece ∧ ∀ x ∈ piece, x.2.shape ≠ []

theorem readable_cons {offset : ℕ} {x : String × Tensor} {piece : List (String × Tensor)} :
    Readable offset (x :: piece) ↔
      (x.2.dtype.itemsize ∣ offset ∧ x.2.shape ≠ []) ∧ Readable (offset + byteSize x) piece := by
  rw [Readable,Aligned,List.forall_mem_cons,Readable]
  exact and_and_and_comm

/-- `_unpack` from a position of the buffer on. -/
def unpackFrom (packed : List UInt8) (offset : ℕ) (metas : List TensorMeta) :
    Except TensorError (List (String × Tensor)) :=
  (metas.zip (splitWithSizes packed offset (metas.map TensorMeta.size))).mapM fun entry =>
    (entry.2.view entry.1.dtype entry.1.shape).map (Prod.mk entry.1.name)

theorem unpackFrom_cases {metas : List TensorMeta} {piece : List (String × Tensor)}
    (h : List.Forall₂ Describes metas piece) (before after : List UInt8) :
    (Readable before.length piece ∧
        unpackFrom (before ++ packedBytes piece ++ after) before.length metas = .ok piece) ∨
      (¬Readable before.length piece ∧
        ∃ e, unpackFrom (before ++ packedBytes piece ++ after) before.length metas = .error e) := by
  induction h generalizing before with
  | nil => exact Or.inl ⟨⟨trivial,fun x hx => by cases hx⟩,rfl⟩
  | @cons m x metas piece hm _ ih =>
    have hbuffer : before ++ packedBytes (x :: piece) ++ after =
        (before ++ x.2.bytes) ++ packedBytes piece ++ after := by
      simp [packedBytes]
    have hoffset : before.length + m.size = (before ++ x.2.bytes).length := by
      rw [hm.size,List.length_append,byteSize]
    have hfirst : ((before ++ x.2.bytes ++ packedBytes piece ++ after).drop before.length).take m.size =
        x.2.bytes := by
      rw [hm.size,byteSize,List.append_assoc,List.append_assoc,List.drop_left,List.take_left]
    have hstep : unpackFrom (before ++ packedBytes (x :: piece) ++ after) before.length (m :: metas) =
        (if before.length % x.2.dtype.itemsize ≠ 0 then .error .misalignedOffset
          else if x.2.shape = [] then .error .viewWithoutShape
          else (unpackFrom ((before ++ x.2.bytes) ++ packedBytes piece ++ after)
            (before ++ x.2.bytes).length metas).map (x :: ·)) := by
      rw [hbuffer,unpackFrom,List.map_cons,splitWithSizes,hfirst,hoffset,List.zip_cons_cons,
        List.mapM_cons,hm.dtype,hm.shape,hm.name,view_tensor,unpackFrom]
      split_ifs
      · rfl
      · rfl
      · cases (metas.zip (splitWithSizes (before ++ x.2.bytes ++ packedBytes piece ++ after)
          (before ++ x.2.bytes).length (metas.map TensorMeta.size))).mapM fun entry =>
            (entry.2.view entry.1.dtype entry.1.shape).map (Prod.mk entry.1.name) <;> rfl
    rw [hstep,readable_cons,Nat.dvd_iff_mod_eq_zero]
    by_cases hoff : before.length % x.2.dtype.itemsize = 0
    · rw [if_neg (not_not.mpr hoff)]
      by_cases hshape : x.2.shape = []
      · rw [if_pos hshape]
        exact Or.inr ⟨fun hread => hread.1.2 hshape,_,rfl⟩
      · rw [if_neg hshape]
        obtain ⟨hread,hrest⟩ | ⟨hread,e,hrest⟩ := ih (before ++ x.2.bytes)
        · rw [List.length_append] at hread
          exact Or.inl ⟨⟨⟨hoff,hshape⟩,hread⟩,by rw [hrest]; rfl⟩
        · rw [List.length_append] at hread
          exact Or.inr ⟨fun h => hread h.2,e,by rw [hrest]; rfl⟩
    · rw [if_pos hoff]
      exact Or.inr ⟨fun hread => hoff hread.1.1,_,rfl⟩

theorem unpack_cases {metas : List TensorMeta} {piece : List (String × Tensor)}
    (h : List.Forall₂ Describes metas piece) :
    (Readable 0 piece ∧ unpack (packedBytes piece) metas = .ok piece) ∨
      (¬Readable 0 piece ∧ ∃ e, unpack (packedBytes piece) metas = .error e) := by
  have hcases := unpackFrom_cases h [] []
  rwa [List.nil_append,List.append_nil] at hcases

end Unpacking

section Consumer

def infoOf (x : String × Tensor) : String × List ℕ × DType := (x.1,x.2.shape,x.2.dtype)

theorem currentSize_eq {s : Buffers TensorMeta} (hs : s.Valid TensorMeta.size)
    {piece : List (String × Tensor)} (hpiece : List.Forall₂ Describes s.current piece) :
    s.currentSize = (packedBytes piece).length := by
  have hsizes : ∀ {metas : List TensorMeta} {piece : List (String × Tensor)},
      List.Forall₂ Describes metas piece → metas.map TensorMeta.size = piece.map byteSize := by
    intro metas piece h
    induction h with
    | nil => rfl
    | cons hm _ ih => rw [List.map_cons,List.map_cons,hm.size,ih]
  rw [hs.sum,hsizes hpiece,length_packedBytes]

theorem receive_cases {s : Buffers TensorMeta} (hs : s.Valid TensorMeta.size)
    {piece : List (String × Tensor)} (hpiece : List.Forall₂ Describes s.current piece)
    (incoming : List (List UInt8)) (next : List (List UInt8) → Received) :
    (Readable 0 piece ∧ receive s (packedBytes piece :: incoming) next =
        ⟨(packedBytes piece).length :: (next incoming).sizes,piece :: (next incoming).loaded,
          (next incoming).error⟩) ∨
      (¬Readable 0 piece ∧ (receive s (packedBytes piece :: incoming) next).error ≠ none) := by
  have hsize := currentSize_eq hs hpiece
  rw [receive,hsize,if_neg (not_not.mpr rfl)]
  obtain ⟨hread,hunpack⟩ | ⟨hread,e,hunpack⟩ := unpack_cases hpiece
  · rw [hunpack]
    exact Or.inl ⟨hread,rfl⟩
  · rw [hunpack]
    exact Or.inr ⟨hread,Option.some_ne_none _⟩

variable (targetSize) in
theorem consumerLoop_cases {s : Buffers TensorMeta} (hs : s.Valid TensorMeta.size)
    {piece : List (String × Tensor)} (rest : List (String × Tensor))
    (hpiece : List.Forall₂ Describes s.current piece) :
    ((∀ p ∈ cutFrom byteSize targetSize piece rest, Readable 0 p) ∧
        consumerLoop targetSize s (rest.map infoOf)
            ((cutFrom byteSize targetSize piece rest).map packedBytes) =
          ⟨(cutFrom byteSize targetSize piece rest).map fun p => (packedBytes p).length,
            cutFrom byteSize targetSize piece rest,none⟩) ∨
      ((∃ p ∈ cutFrom byteSize targetSize piece rest, ¬Readable 0 p) ∧
        (consumerLoop targetSize s (rest.map infoOf)
          ((cutFrom byteSize targetSize piece rest).map packedBytes)).error ≠ none) := by
  induction rest generalizing s piece with
  | nil =>
    have hempty : s.current.isEmpty = piece.isEmpty := by
      rw [Bool.eq_iff_iff,List.isEmpty_iff_length_eq_zero,List.isEmpty_iff_length_eq_zero,
        hpiece.length_eq]
    rw [cutFrom,List.map_nil,consumerLoop,hempty]
    by_cases hnil : piece.isEmpty = true
    · rw [if_pos hnil,if_pos hnil]
      exact Or.inl ⟨fun p hp => (by cases hp),rfl⟩
    · rw [if_neg hnil,if_neg hnil,List.map_singleton]
      obtain ⟨hread,hreceive⟩ | ⟨hread,hreceive⟩ := receive_cases hs hpiece [] fun _ => ⟨[],[],none⟩
      · exact Or.inl ⟨fun p hp => List.mem_singleton.mp hp ▸ hread,hreceive⟩
      · exact Or.inr ⟨⟨piece,List.mem_singleton_self piece,hread⟩,hreceive⟩
  | cons x rest ih =>
    have hwidth : x.2.shape.prod * x.2.dtype.itemsize = byteSize x := x.2.size_eq.symm
    set t := s.append ⟨x.1,x.2.shape,x.2.dtype,s.currentSize,byteSize x⟩ (byteSize x) with ht
    have hvalid : t.Valid TensorMeta.size := (hs.append _).1
    have hcurrent : t.current = s.current ++ [⟨x.1,x.2.shape,x.2.dtype,s.currentSize,byteSize x⟩] :=
      (hs.append ⟨x.1,x.2.shape,x.2.dtype,s.currentSize,byteSize x⟩).2
    have hdescribes : List.Forall₂ Describes t.current (piece ++ [x]) := by
      rw [hcurrent]
      exact List.rel_append hpiece (List.Forall₂.cons ⟨rfl,rfl,rfl,rfl⟩ List.Forall₂.nil)
    have hsum : t.currentSize = ((piece ++ [x]).map byteSize).sum := by
      rw [currentSize_eq hvalid hdescribes,length_packedBytes]
    rw [List.map_cons,infoOf,consumerLoop,hwidth,← ht,cutFrom,hsum]
    by_cases hfull : targetSize < ((piece ++ [x]).map byteSize).sum
    · rw [if_pos hfull,if_pos hfull,List.map_cons]
      obtain ⟨hnext,hempty⟩ := hvalid.rotate
      have hnone : List.Forall₂ Describes t.rotate.current [] := hempty ▸ List.Forall₂.nil
      obtain ⟨hread,hreceive⟩ | ⟨hread,hreceive⟩ := receive_cases hvalid hdescribes
        ((cutFrom byteSize targetSize [] rest).map packedBytes)
        fun incoming => consumerLoop targetSize t.rotate (rest.map infoOf) incoming
      · rw [hreceive]
        obtain ⟨hall,hrest⟩ | ⟨⟨p,hp,hbad⟩,hrest⟩ := ih hnext hnone
        · rw [hrest]
          exact Or.inl ⟨List.forall_mem_cons.mpr ⟨hread,hall⟩,rfl⟩
        · exact Or.inr ⟨⟨p,List.mem_cons_of_mem _ hp,hbad⟩,hrest⟩
      · exact Or.inr ⟨⟨_,List.mem_cons_self,hread⟩,hreceive⟩
    · rw [if_neg hfull,if_neg hfull]
      exact ih hvalid hdescribes

end Consumer

section Delivery

variable (targetSize) (numBuffers : ℕ) (cast : Casting) (defaultDtype : DType)
  (stateDict : Dict String Tensor)

def sent : Sent :=
  packedBroadcastProducer targetSize numBuffers (streamed cast defaultDtype stateDict)

def received : Received :=
  packedBroadcastConsumer targetSize numBuffers (prepareRefitInfo defaultDtype stateDict).entries
    (sent targetSize numBuffers cast defaultDtype stateDict).broadcasts

/-- Both sides make the same broadcasts, neither fails, and what is loaded is what was streamed. -/
structure Delivers : Prop where
  producer : (sent targetSize numBuffers cast defaultDtype stateDict).error = none
  consumer : (received targetSize numBuffers cast defaultDtype stateDict).error = none
  broadcasts : (received targetSize numBuffers cast defaultDtype stateDict).sizes =
    (sent targetSize numBuffers cast defaultDtype stateDict).broadcasts.map List.length
  loaded : (received targetSize numBuffers cast defaultDtype stateDict).loaded.flatten =
    streamed cast defaultDtype stateDict

theorem prepareRefitInfo_entries : (prepareRefitInfo defaultDtype stateDict).entries =
    (streamed cast defaultDtype stateDict).map infoOf := by
  rw [prepareRefitInfo,streamed,List.map_map]
  refine List.map_congr_left fun entry _ => ?_
  rw [Function.comp_apply,infoOf,cast.dtype_convert,cast.shape_convert]

variable {numBuffers}

/-- A refit delivers every parameter exactly when none of them is a scalar and every one starts, in
its buffer, at a multiple of its element width. -/
theorem delivers_iff (hbuffers : 1 ≤ numBuffers) :
    Delivers targetSize numBuffers cast defaultDtype stateDict ↔
      (∀ x ∈ streamed cast defaultDtype stateDict, x.2.shape ≠ []) ∧
        ∀ piece ∈ pieces targetSize (streamed cast defaultDtype stateDict), Aligned 0 piece := by
  set tensors := streamed cast defaultDtype stateDict with htensors
  have hflatten : (pieces targetSize tensors).flatten = tensors := flatten_cutFrom byteSize targetSize [] tensors
  have hreadable : ((∀ x ∈ tensors, x.2.shape ≠ []) ∧
      ∀ piece ∈ pieces targetSize tensors, Aligned 0 piece) ↔
      ∀ piece ∈ pieces targetSize tensors, Readable 0 piece := by
    constructor
    · rintro ⟨hshape,haligned⟩ piece hpiece
      refine ⟨haligned piece hpiece,fun x hx => hshape x ?_⟩
      rw [← hflatten]
      exact List.mem_flatten_of_mem hpiece hx
    · intro hread
      refine ⟨fun x hx => ?_,fun piece hpiece => (hread piece hpiece).1⟩
      rw [← hflatten] at hx
      obtain ⟨piece,hpiece,hmem⟩ := List.mem_flatten.mp hx
      exact (hread piece hpiece).2 x hmem
  rw [hreadable]
  obtain ⟨hvalid,hempty⟩ := @initial_valid (List UInt8) List.length _ hbuffers
  by_cases hscalar : ∃ x ∈ tensors, x.2.shape = [] ∧ x.2.dtype.itemsize ≠ 1
  · obtain ⟨x,hx,hshape⟩ := hscalar
    refine iff_of_false (fun h => ?_) (fun h => (hreadable.mpr h).1 x hx hshape.1)
    exact producerLoop_scalar _ (List.mem_map_of_mem hx) hshape h.producer
  · have hsent : sent targetSize numBuffers cast defaultDtype stateDict =
        ⟨(pieces targetSize tensors).map packedBytes,none⟩ := by
      have hcut := @cutFrom_map (List UInt8) _ List.length targetSize
        (fun x : String × Tensor => x.2.bytes) [] tensors
      have hbytes : (tensors.map Prod.snd).map Tensor.bytes = tensors.map fun x => x.2.bytes :=
        List.map_map
      have hplain : ∀ t ∈ tensors.map Prod.snd, ¬(t.shape = [] ∧ t.dtype.itemsize ≠ 1) := by
        intro t ht hbad
        obtain ⟨x,hx,rfl⟩ := List.mem_map.mp ht
        exact hscalar ⟨x,hx,hbad⟩
      rw [List.map_nil] at hcut
      rw [sent,packedBroadcastProducer,← htensors,producerLoop_ok hvalid hplain,hempty,hbytes,hcut,
        List.map_map]
      rfl
    obtain ⟨hstart,hnone⟩ := initial_valid TensorMeta.size hbuffers
    have hmetas : List.Forall₂ Describes (Buffers.initial numBuffers).rotate.current [] :=
      hnone ▸ List.Forall₂.nil
    have hreceived : received targetSize numBuffers cast defaultDtype stateDict =
        consumerLoop targetSize (Buffers.initial numBuffers).rotate (tensors.map infoOf)
          ((pieces targetSize tensors).map packedBytes) := by
      rw [received,packedBroadcastConsumer,prepareRefitInfo_entries cast,hsent]
    obtain ⟨hread,hconsumed⟩ | ⟨⟨p,hp,hbad⟩,hconsumed⟩ :=
      consumerLoop_cases targetSize hstart tensors hmetas
    · have hall : received targetSize numBuffers cast defaultDtype stateDict =
          ⟨(pieces targetSize tensors).map fun p => (packedBytes p).length,
            pieces targetSize tensors,none⟩ := hreceived.trans hconsumed
      refine iff_of_true ⟨?_,?_,?_,?_⟩ hread
      · rw [hsent]
      · rw [hall]
      · rw [hall,hsent,List.map_map]
        rfl
      · rw [hall]
        exact hflatten
    · refine iff_of_false (fun h => hconsumed ?_) fun h => hbad (h p hp)
      have herror := h.consumer
      rwa [hreceived] at herror

def sameTypeCasting : Casting where
  convert t d := if t.dtype = d then t
    else ⟨d,t.shape,List.replicate (t.shape.prod * d.itemsize) 0,List.length_replicate⟩
  dtype_convert t d := by
    split_ifs with h
    · exact h
    · rfl
  shape_convert t d := by split_ifs <;> rfl

def routerStateDict (elements : ℕ) : Dict String Tensor where
  entries := [("gate.weight",⟨.bfloat16,[elements],List.replicate (elements * 2) 7,by simp [DType.itemsize]⟩),
    ("gate.e_score_correction_bias",⟨.float32,[1],[1,2,3,4],rfl⟩)]
  nodup := by
    show ["gate.weight","gate.e_score_correction_bias"].Nodup
    decide

def scalarStateDict : Dict String Tensor := ⟨[("scale",⟨.bfloat16,[],[1,2],rfl⟩)],by decide⟩

theorem delivers_router : Delivers 64 2 sameTypeCasting .bfloat16 (routerStateDict 4) :=
  (delivers_iff 64 sameTypeCasting .bfloat16 (routerStateDict 4) (by decide)).mpr (by decide)

/-- Three elements of two bytes leave the bias at the sixth byte, and a scalar is not packed at
all. -/
theorem router_not_delivered :
    ¬Delivers 64 2 sameTypeCasting .bfloat16 (routerStateDict 3) ∧
      ¬Delivers 64 2 sameTypeCasting .bfloat16 scalarStateDict :=
  ⟨fun h => absurd h.consumer (by decide),fun h => absurd h.producer (by decide)⟩

end Delivery

end Refit
end DockyardRL
