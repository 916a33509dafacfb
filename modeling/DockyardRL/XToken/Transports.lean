import DockyardRL.Lib.Gather
import DockyardRL.XToken.TeacherLogits

/-! Every transport gives a student rank its window of the logits of the teacher. -/
namespace DockyardRL
namespace XToken

open Blocks Packed

variable {α Payload : Type*} {storage : Storage α Payload} {T V : ℕ}

def ShardHandle.tile (h : ShardHandle Payload) : (ℕ × ℕ) × (ℕ × ℕ) :=
  ((h.globalSeqStart,h.globalSeqStart + h.actualShape.1),(h.vocabStartIndex,h.vocabEndIndex))

/-- The shards of a sample: tiles of its logits in any order, each at some row of some buffer of its
producer. -/
structure Sharded (storage : Storage α Payload) (T V : ℕ) (shards : List (ShardHandle Payload))
    (logits : List (List α)) : Prop where
  shape : HasShape T V logits
  listed : shards ≠ []
  tiled : Tiling T V (shards.map ShardHandle.tile)
  sizes : ∀ h ∈ shards, h.fullSeqLen = T ∧ h.fullVocabSize = V ∧
    h.actualShape.2 = h.vocabEndIndex - h.vocabStartIndex
  stored : ∀ h ∈ shards, ∃ buffer sample, (storage h.payloadIpc)[h.bufIdx]? = some buffer ∧
    buffer[h.sampleIndexInBuf]? = some sample ∧
      block (0,h.actualShape.1) (0,h.actualShape.2) sample = block h.tile.1 h.tile.2 logits

def window (T studentCpRank studentCpSize : ℕ) (logits : List (List α)) : List (List α) :=
  cut (studentCpRank * (T / studentCpSize),(studentCpRank + 1) * (T / studentCpSize)) logits

/-- A match writes a cell of the window. -/
def ShardMatch.Writes (found : ShardMatch Payload) (r v : ℕ) : Prop :=
  Within r found.destSeq ∧ Within v found.destVocab

instance (found : ShardMatch Payload) (r v : ℕ) : Decidable (found.Writes r v) :=
  inferInstanceAs (Decidable (_ ∧ _))

section Sample

variable {shards : List (ShardHandle Payload)} {logits : List (List α)} {rank size : ℕ}

theorem Sharded.tile_bounds (h : Sharded storage T V shards logits) {handle : ShardHandle Payload}
    (hmem : handle ∈ shards) : handle.tile.1.2 ≤ T ∧ handle.vocabStartIndex ≤ handle.vocabEndIndex ∧
      handle.tile.2.2 ≤ V :=
  h.tiled.inside handle.tile (List.mem_map_of_mem hmem)

theorem collect_eq (hdvd : size ∣ T) : collectOverlappingTeacherShards shards rank size T =
    shards.filterMap (overlap (rank * (T / size)) (rank * (T / size) + T / size)) := by
  rw [collectOverlappingTeacherShards,Nat.mul_div_assoc _ hdvd,Nat.mul_div_assoc _ hdvd,Nat.succ_mul]

theorem overlap_some {start height : ℕ} {handle : ShardHandle Payload} {found : ShardMatch Payload}
    (h : overlap start (start + height) handle = some found) :
    ∃ lo hi, start ≤ lo ∧ lo < hi ∧ hi ≤ start + height ∧ handle.globalSeqStart ≤ lo ∧
      hi ≤ handle.globalSeqStart + handle.actualShape.1 ∧
      found = ⟨handle,(lo - handle.globalSeqStart,hi - handle.globalSeqStart),
        (0,handle.vocabEndIndex - handle.vocabStartIndex),(lo - start,hi - start),
        (handle.vocabStartIndex,handle.vocabEndIndex)⟩ := by
  unfold overlap at h
  dsimp only at h
  split_ifs at h with hover
  refine ⟨_,_,Nat.le_max_left _ _,Nat.lt_of_not_le hover,Nat.min_le_left _ _,Nat.le_max_right _ _,
    Nat.min_le_right _ _,(Option.some.inj h).symm⟩

theorem overlap_writes {start height r v : ℕ} (hr : r < height) (handle : ShardHandle Payload) :
    (∃ found, overlap start (start + height) handle = some found ∧ found.Writes r v) ↔
      Within (start + r) handle.tile.1 ∧ Within v handle.tile.2 := by
  unfold overlap ShardMatch.Writes Within ShardHandle.tile
  dsimp only
  split_ifs with hover
  · simp only [false_and,exists_false,false_iff]
    omega
  · simp only [Option.some.injEq,exists_eq_left']
    omega

theorem window_le (hrank : rank < size) : rank * (T / size) + T / size ≤ T := by
  rw [← Nat.succ_mul]
  exact (Nat.mul_le_mul_right _ hrank).trans (Nat.mul_div_le _ _)

theorem collect_covers_once (h : Sharded storage T V shards logits) (hrank : rank < size)
    (hdvd : size ∣ T) {r v : ℕ} (hr : r < T / size) (hv : v < V) :
    (collectOverlappingTeacherShards shards rank size T).countP
      (fun found => decide (found.Writes r v)) = 1 := by
  have hcount : (shards.filterMap (overlap (rank * (T / size)) (rank * (T / size) + T / size))).countP
      (fun found => decide (found.Writes r v)) =
        shards.countP fun handle => decide (Within (rank * (T / size) + r) handle.tile.1 ∧
          Within v handle.tile.2) := by
    rw [List.countP_filterMap]
    refine List.countP_congr fun handle _ => ?_
    have hwrites := @overlap_writes _ (rank * (T / size)) (T / size) r v hr handle
    rw [decide_eq_true_iff,← hwrites]
    cases overlap (rank * (T / size)) (rank * (T / size) + T / size) handle <;> simp
  have hle := @window_le T rank size hrank
  have honce := h.tiled.once (rank * (T / size) + r) (by omega) v hv
  rw [List.countP_map] at honce
  rw [collect_eq hdvd,hcount,← honce]
  rfl

/-- The cells that are written so far are those of the window. -/
structure Filled (logits : List (List α)) (start height width : ℕ)
    (done : List (ShardMatch Payload)) (dest : List (List α)) : Prop where
  shape : HasShape height width dest
  cells : ∀ r < height, ∀ v < width, (∃ found ∈ done, found.Writes r v) →
    Blocks.cell dest r v = Blocks.cell logits (start + r) v

theorem Filled.copyShard (h : Sharded storage T V shards logits) (hrank : rank < size)
    (hdvd : size ∣ T) {done : List (ShardMatch Payload)} {dest : List (List α)}
    (hfilled : Filled logits (rank * (T / size)) (T / size) V done dest)
    {found : ShardMatch Payload}
    (hfound : found ∈ collectOverlappingTeacherShards shards rank size T) :
    ∃ next, copyShard storage dest found = .ok next ∧
      Filled logits (rank * (T / size)) (T / size) V (done ++ [found]) next := by
  rw [collect_eq hdvd] at hfound
  obtain ⟨handle,hmem,hsome⟩ := List.mem_filterMap.mp hfound
  obtain ⟨hrows,hcols,hcolsV⟩ := h.tile_bounds hmem
  obtain ⟨_,_,hvocab⟩ := h.sizes handle hmem
  obtain ⟨buffer,sample,hbuffer,hsample,hstored⟩ := h.stored handle hmem
  have hle := @window_le T rank size hrank
  obtain ⟨lo,hi,hlo,hlt,hhi,hfirst,hlast,rfl⟩ := overlap_some hsome
  have hread : readShard storage handle = .ok (block handle.tile.1 handle.tile.2 logits) := by
    unfold readShard
    rw [hbuffer]
    dsimp only
    rw [hsample,← hstored]
  have hsrc := hasShape_block h.shape hrows hcolsV
  have hseq : hi - handle.globalSeqStart ≤ handle.tile.1.2 - handle.tile.1.1 := by
    show hi - handle.globalSeqStart ≤
      handle.globalSeqStart + handle.actualShape.1 - handle.globalSeqStart
    omega
  obtain ⟨values,hdef⟩ : ∃ values, values = block (lo - handle.globalSeqStart,hi - handle.globalSeqStart)
    (0,handle.vocabEndIndex - handle.vocabStartIndex)
      (block handle.tile.1 handle.tile.2 logits) := ⟨_,rfl⟩
  have hvalues := @hasShape_block _ _ _ _ hsrc (lo - handle.globalSeqStart,hi - handle.globalSeqStart)
    (0,handle.vocabEndIndex - handle.vocabStartIndex) hseq le_rfl
  rw [← hdef] at hvalues
  have hheight : hi - handle.globalSeqStart - (lo - handle.globalSeqStart) =
      hi - rank * (T / size) - (lo - rank * (T / size)) := by omega
  have hassign : assign dest (lo - rank * (T / size),hi - rank * (T / size)) handle.tile.2 values =
      .ok (setBlock (lo - rank * (T / size),hi - rank * (T / size)) handle.tile.2 values dest) := by
    refine if_pos ⟨?_,?_,?_⟩
    · rw [← hheight]
      exact hvalues
    · rw [hfilled.shape.1]
      dsimp only
      omega
    · intro row hrow
      rw [hfilled.shape.2 row hrow]
      exact hcolsV
  refine ⟨setBlock (lo - rank * (T / size),hi - rank * (T / size)) handle.tile.2 values dest,?_,
    hasShape_setBlock hfilled.shape _ _ _,?_⟩
  · unfold XToken.copyShard
    dsimp only
    rw [hread]
    show assign dest _ _ (block _ _ (block handle.tile.1 handle.tile.2 logits)) = _
    rw [← hdef]
    exact hassign
  · intro r hr v hv hwritten
    obtain ⟨x,hx⟩ := cell_isSome hfilled.shape hr hv
    obtain ⟨y,hy⟩ := cell_isSome h.shape (show rank * (T / size) + r < T by omega) hv
    rw [cell_setBlock,hx,hy,Option.map_some]
    split_ifs with hin
    · have hcell : Blocks.cell values (r - (lo - rank * (T / size))) (v - handle.vocabStartIndex) =
          some y := by
        obtain ⟨⟨hrlo,hrhi⟩,hvlo,hvhi⟩ := hin
        have hvlo : handle.vocabStartIndex ≤ v := hvlo
        have hvhi : v < handle.vocabEndIndex := hvhi
        have hsrcIn : lo - handle.globalSeqStart + (r - (lo - rank * (T / size))) <
            handle.globalSeqStart + handle.actualShape.1 - handle.globalSeqStart ∧
            0 + (v - handle.vocabStartIndex) < handle.vocabEndIndex - handle.vocabStartIndex := by
          dsimp only at hrlo hrhi
          omega
        have hrow : handle.globalSeqStart + (lo - handle.globalSeqStart +
            (r - (lo - rank * (T / size)))) = rank * (T / size) + r := by
          dsimp only at hrlo
          omega
        have hcol : handle.vocabStartIndex + (0 + (v - handle.vocabStartIndex)) = v := by omega
        rw [hdef,cell_block,if_pos (by dsimp only at hrlo hrhi ⊢; omega),cell_block]
        refine (if_pos hsrcIn).trans ?_
        show Blocks.cell logits (handle.globalSeqStart + _) (handle.vocabStartIndex + _) = _
        rw [hrow,hcol,hy]
      exact congrArg (fun found => some (Option.getD found x)) hcell
    · obtain ⟨found,hfoundMem,hwrites⟩ := hwritten
      rcases List.mem_append.mp hfoundMem with hdone | hlast
      · rw [← hx,hfilled.cells r hr v hv ⟨found,hdone,hwrites⟩,hy]
      · obtain rfl := List.mem_singleton.mp hlast
        exact absurd hwrites hin

theorem assemble_eq [Zero α] (h : Sharded storage T V shards logits) (hrank : rank < size)
    (hdvd : size ∣ T) : assembleTeacherLogitsFromShards storage shards rank size =
      .ok (window T rank size logits) := by
  have hrun : ∀ (ms done : List (ShardMatch Payload)) (dest : List (List α)),
      (∀ found ∈ ms, found ∈ collectOverlappingTeacherShards shards rank size T) →
      Filled logits (rank * (T / size)) (T / size) V done dest →
        ∃ out, ms.foldlM (copyShard storage) dest = .ok out ∧
          Filled logits (rank * (T / size)) (T / size) V (done ++ ms) out := by
    intro ms
    induction ms with
    | nil =>
      intro done dest _ hfilled
      exact ⟨dest,rfl,by rwa [List.append_nil]⟩
    | cons found ms ih =>
      intro done dest hmem hfilled
      obtain ⟨next,hnext,hfilled'⟩ := hfilled.copyShard h hrank hdvd (hmem found List.mem_cons_self)
      obtain ⟨out,hout,hdone⟩ := ih (done ++ [found]) next
        (fun m hm => hmem m (List.mem_cons_of_mem found hm)) hfilled'
      refine ⟨out,?_,?_⟩
      · rw [List.foldlM_cons,hnext]
        exact hout
      · rwa [List.append_assoc] at hdone
  cases hshards : shards with
  | nil => exact absurd hshards h.listed
  | cons first more =>
    have hfirst := h.sizes first (by rw [hshards]; exact List.mem_cons_self)
    have hinit : Filled logits (rank * (T / size)) (T / size) V ([] : List (ShardMatch Payload))
        (List.replicate (T / size) (List.replicate V (0 : α))) := by
      refine ⟨⟨List.length_replicate,fun row hrow => ?_⟩,fun _ _ _ _ hnone => ?_⟩
      · rw [List.eq_of_mem_replicate hrow,List.length_replicate]
      · obtain ⟨_,hmem,_⟩ := hnone
        cases hmem
    obtain ⟨out,hout,hfilled⟩ := hrun _ _ _ (fun _ => id) hinit
    have hequal : out = window T rank size logits := by
      have hle := @window_le T rank size hrank
      have hwindow := block_width h.shape (rank * (T / size),rank * (T / size) + T / size)
      have hshape := @hasShape_block _ _ _ _ h.shape
        (rank * (T / size),rank * (T / size) + T / size) (0,V) hle le_rfl
      rw [window,Nat.succ_mul,← hwindow]
      dsimp only at hshape
      rw [Nat.add_sub_cancel_left,Nat.sub_zero] at hshape
      refine eq_of_cells hfilled.shape hshape fun r hr v hv => ?_
      have hcovered := collect_covers_once h hrank hdvd hr hv
      have hpos : 0 < (collectOverlappingTeacherShards shards rank size T).countP
          (fun found => decide (found.Writes r v)) := by
        rw [hcovered]
        exact Nat.one_pos
      obtain ⟨found,hmem,hwrites⟩ := List.countP_pos_iff.mp hpos
      rw [hfilled.cells r hr v hv ⟨found,by simpa using hmem,of_decide_eq_true hwrites⟩,cell_block,
        if_pos (by dsimp only; omega),Nat.zero_add]
    unfold assembleTeacherLogitsFromShards
    dsimp only
    rw [hfirst.1,hfirst.2.1,if_neg (by rw [Nat.mod_eq_zero_of_dvd hdvd]; exact fun hne => hne rfl),
      ← hshards,← hequal]
    exact hout

theorem covering_window (h : Sharded storage T V shards logits) {handle : ShardHandle Payload}
    (hcover : handle ∈ covering shards V (rank * (T / size)) (rank * (T / size) + T / size)) :
    handle.globalSeqStart ≤ rank * (T / size) ∧
    ∃ buffer sample, (storage handle.payloadIpc)[handle.bufIdx]? = some buffer ∧
      buffer[handle.sampleIndexInBuf]? = some sample ∧
      block (rank * (T / size) - handle.globalSeqStart,
        rank * (T / size) + T / size - handle.globalSeqStart) (0,V) sample =
          window T rank size logits := by
  obtain ⟨hmem,hcond⟩ := List.mem_filter.mp hcover
  obtain ⟨hfirst,hlast,hbefore,hbehind⟩ := of_decide_eq_true hcond
  obtain ⟨buffer,sample,hbuffer,hsample,hstored⟩ := h.stored handle hmem
  obtain ⟨_,_,hvocab⟩ := h.sizes handle hmem
  refine ⟨hbefore,buffer,sample,hbuffer,hsample,?_⟩
  have hwide : handle.actualShape.2 = V := by omega
  have hinner := @block_block _ (rank * (T / size) - handle.globalSeqStart,
    rank * (T / size) + T / size - handle.globalSeqStart) (0,V) (0,handle.actualShape.1) (0,V) sample
    (by dsimp only; omega) le_rfl
  have houter := @block_block _ (rank * (T / size) - handle.globalSeqStart,
    rank * (T / size) + T / size - handle.globalSeqStart) (0,V) handle.tile.1 (0,V) logits
    (by
      show rank * (T / size) + T / size - handle.globalSeqStart ≤
        handle.globalSeqStart + handle.actualShape.1 - handle.globalSeqStart
      omega) le_rfl
  have htile : handle.tile.2 = (0,V) := by
    unfold ShardHandle.tile
    rw [hfirst,hlast]
  rw [hwide,htile] at hstored
  rw [hstored] at hinner
  simp only [Nat.zero_add] at hinner
  rw [← hinner,houter,window,Nat.succ_mul]
  have hlo : handle.tile.1.1 + (rank * (T / size) - handle.globalSeqStart) = rank * (T / size) :=
    Nat.add_sub_cancel' hbefore
  have hhi : handle.tile.1.1 + (rank * (T / size) + T / size - handle.globalSeqStart) =
      rank * (T / size) + T / size :=
    Nat.add_sub_cancel' (hbefore.trans (Nat.le_add_right _ _))
  simp only [hlo,hhi,Nat.zero_add]
  exact block_width h.shape _

end Sample

section Batch

variable {entries : List (List (ShardHandle Payload))} {batch : List (List (List α))} {rank size : ℕ}

theorem chooseHandles_covering {vocab lo hi : ℕ} {chosen : List (ShardHandle Payload)}
    (h : chooseHandles vocab lo hi entries = some chosen) :
    List.Forall₂ (fun shards handle => handle ∈ covering shards vocab lo hi) entries chosen := by
  induction entries generalizing chosen with
  | nil =>
    obtain rfl := Option.some.inj h
    exact .nil
  | cons shards entries ih =>
    unfold chooseHandles at h
    split at h
    · rename_i handle hcovering
      obtain ⟨more,hmore,rfl⟩ := Option.map_eq_some_iff.mp h
      exact .cons (by rw [hcovering]; exact List.mem_cons_self) (ih hmore)
    · cases h

theorem map_take_samples {β γ : Type*} {samples : List β} {f : β → γ} {views : List γ} {k : ℕ}
    (h : ∀ i (hi : i < views.length), ∃ sample, samples[k + i]? = some sample ∧ f sample = views[i]) :
    ((samples.drop k).take views.length).map f = views := by
  induction views generalizing k with
  | nil => simp
  | cons view views ih =>
    obtain ⟨sample,hsample,hview⟩ := h 0 (by simp)
    rw [Nat.add_zero] at hsample
    obtain ⟨hlt,hget⟩ := List.getElem?_eq_some_iff.mp hsample
    have hrest := @ih (k + 1) fun i hi => by
      obtain ⟨next,hnext,heq⟩ := h (i + 1) (by simpa using hi)
      rw [Nat.add_right_comm,Nat.add_assoc]
      exact ⟨next,hnext,heq⟩
    rw [List.drop_eq_getElem_cons hlt,List.length_cons,List.take_succ_cons,List.map_cons,hrest,hget,hview]
    rfl

theorem slab_windows [DecidableEq Payload] (h : List.Forall₂ (Sharded storage T V) entries batch)
    {h0 : ShardHandle Payload} {chosen : List (ShardHandle Payload)}
    (hcover : List.Forall₂ (fun shards handle => handle ∈
      covering shards V (rank * (T / size)) (rank * (T / size) + T / size)) entries chosen)
    (hslab : isSlab h0 chosen = true) {buffer : List (List (List α))}
    (hbuffer : (storage h0.payloadIpc)[h0.bufIdx]? = some buffer) :
    (buffer.take chosen.length).map
      (block (rank * (T / size) - h0.globalSeqStart,
        rank * (T / size) + T / size - h0.globalSeqStart) (0,V)) = batch.map (window T rank size) := by
  have hlen := h.length_eq
  have hcoverLen := hcover.length_eq
  have hviews := @map_take_samples _ _ buffer
    (block (rank * (T / size) - h0.globalSeqStart,
      rank * (T / size) + T / size - h0.globalSeqStart) (0,V)) (batch.map (window T rank size)) 0
    fun i hi => by
      rw [List.length_map] at hi
      have hchosen : i < chosen.length := by omega
      have hentry : i < entries.length := by omega
      have hslabAt := List.all_eq_true.mp hslab (chosen[i],i)
        (List.mk_mem_zipIdx_iff_getElem?.mpr (List.getElem?_eq_getElem hchosen))
      obtain ⟨hpayload,hbuf,hsampleIdx,hseqStart⟩ := of_decide_eq_true hslabAt
      obtain ⟨_,buffer',sample,hbuffer',hsample,hwindow⟩ :=
        covering_window (h.get hentry hi) (hcover.get hentry hchosen)
      simp only [List.get_eq_getElem] at hbuffer' hsample hwindow
      rw [hpayload,hbuf,hbuffer] at hbuffer'
      obtain rfl := Option.some.inj hbuffer'
      rw [hsampleIdx] at hsample
      rw [hseqStart] at hwindow
      exact ⟨sample,by rwa [Nat.zero_add],by rw [hwindow,List.getElem_map]⟩
  rw [List.length_map,← hlen,hcoverLen] at hviews
  exact hviews

theorem zeroCopy_eq [DecidableEq Payload] (h : List.Forall₂ (Sharded storage T V) entries batch)
    (hdvd : size ∣ T) :
    tryZeroCopyTeacherLogits storage entries rank size = .ok none ∨
      tryZeroCopyTeacherLogits storage entries rank size =
        .ok (some (batch.map (window T rank size))) := by
  cases h with
  | nil => exact .inl rfl
  | @cons shards logits entries batch hfirst hrest =>
    have hall := List.Forall₂.cons hfirst hrest
    cases hshards : shards with
    | nil => exact absurd hshards hfirst.listed
    | cons first more =>
      obtain ⟨hseq,hvocab,_⟩ := hfirst.sizes first (by rw [hshards]; exact List.mem_cons_self)
      rw [hshards] at hall
      unfold tryZeroCopyTeacherLogits
      dsimp only
      rw [hseq,hvocab,Nat.mul_div_assoc _ hdvd,Nat.mul_div_assoc _ hdvd,Nat.succ_mul]
      cases hchosen : chooseHandles V (rank * (T / size)) (rank * (T / size) + T / size)
          ((first :: more) :: entries) with
      | none => exact .inl rfl
      | some chosen =>
        have hcover := chooseHandles_covering hchosen
        cases chosen with
        | nil => exact .inl rfl
        | cons h0 others =>
          dsimp only
          split_ifs with hslab
          · have hhead : h0 ∈ covering shards V (rank * (T / size))
                (rank * (T / size) + T / size) := by
              cases hcover with
              | cons hhead _ => rwa [hshards]
            obtain ⟨_,buffer,_,hbuffer,_⟩ := covering_window hfirst hhead
            rw [hbuffer]
            exact .inr (congrArg (fun views => Except.ok (some views))
              (slab_windows hall hcover hslab hbuffer))
          · exact .inl rfl

theorem assemble_all [Zero α] (h : List.Forall₂ (Sharded storage T V) entries batch)
    (hrank : rank < size) (hdvd : size ∣ T) :
    (entries.mapM fun entry => assembleTeacherLogitsFromShards storage entry rank size) =
      .ok (batch.map (window T rank size)) := by
  induction h with
  | nil => rfl
  | cons hfirst _ ih =>
    rw [List.mapM_cons,assemble_eq hfirst hrank hdvd,ih]
    rfl

theorem foldl_chunks (samples : List (List (List α))) (total width k : ℕ) :
    ((List.range k).map fun i => LogitsBatch.mk (min width (total - (i + 1) * width))
        (samples.map (cut ((i + 1) * width,(i + 1 + 1) * width)))).foldl LogitsBatch.append
          ⟨min width total,samples.map (cut (0,width))⟩ =
      ⟨min ((k + 1) * width) total,samples.map (List.take ((k + 1) * width))⟩ := by
  induction k with
  | zero =>
    rw [Nat.zero_add,Nat.one_mul]
    rfl
  | succ k ih =>
    rw [List.range_succ,List.map_append,List.foldl_append,ih]
    show LogitsBatch.mk _ (List.zipWith _ _ _) = _
    rw [List.zipWith_map,List.zipWith_self,Nat.succ_mul (k + 1)]
    congr 1
    · dsimp only
      omega
    · refine List.map_congr_left fun logits _ => ?_
      rw [cut,List.take_add]
      dsimp only
      rw [Nat.add_sub_cancel_left]

theorem chunks_joined (hbatch : ∀ logits ∈ batch, logits.length = T) {numSeqChunks : ℕ}
    (hn : 1 ≤ numSeqChunks) : ∃ first more,
      chunkTeacherLogitsForCrossCluster ⟨T,batch⟩ numSeqChunks = .ok (first :: more) ∧
        more.foldl LogitsBatch.append first = ⟨T,batch⟩ := by
  obtain ⟨width,hwidth⟩ : ∃ width, width = (T + numSeqChunks - 1) / numSeqChunks := ⟨_,rfl⟩
  obtain ⟨k,hk,hrows⟩ : ∃ k, (if width = 0 then numSeqChunks else (T + width - 1) / width) = k + 1 ∧
      T ≤ (k + 1) * width := by
    by_cases hzero : width = 0
    · have hsmall := (Nat.div_eq_zero_iff_lt hn).mp (hwidth.symm.trans hzero)
      exact ⟨numSeqChunks - 1,by rw [if_pos hzero]; omega,by omega⟩
    · have hpos := Nat.pos_of_ne_zero hzero
      have hrows : T ≤ (T + width - 1) / width * width := by
        have hlt := Nat.lt_mul_div_succ (T + width - 1) hpos
        rw [Nat.mul_succ,Nat.mul_comm] at hlt
        omega
      have hT : 1 ≤ T := by
        by_contra hnone
        obtain rfl : T = 0 := by omega
        exact hzero (hwidth.trans (Nat.div_eq_of_lt (by omega)))
      have hcount := (Nat.one_le_div_iff hpos).mpr (show width ≤ T + width - 1 by omega)
      refine ⟨(T + width - 1) / width - 1,?_,?_⟩
      · rw [if_neg hzero]
        omega
      · rwa [Nat.sub_add_cancel hcount]
  refine ⟨⟨min width T,batch.map (cut (0,width))⟩,(List.range k).map fun i =>
    ⟨min width (T - (i + 1) * width),batch.map (cut ((i + 1) * width,(i + 1 + 1) * width))⟩,?_,
    (foldl_chunks batch T width k).trans ?_⟩
  · unfold chunkTeacherLogitsForCrossCluster chunkSeq
    rw [if_neg (Nat.not_lt.mpr hn)]
    dsimp only
    rw [← hwidth,hk,List.range_succ_eq_map,List.map_cons,List.map_map,Nat.zero_mul,Nat.zero_add,
      Nat.one_mul,Nat.sub_zero]
    rfl
  · rw [Nat.min_eq_right hrows]
    congr 1
    refine (List.map_congr_left fun logits hlogits => ?_).trans (List.map_id batch)
    exact List.take_of_length_le (by rwa [hbatch logits hlogits])

theorem window_alone {logits : List (List α)} (hlen : logits.length = T) :
    window T 0 1 logits = logits := by
  rw [window,Nat.div_one,Nat.zero_mul,Nat.zero_add,Nat.one_mul,cut]
  exact List.take_of_length_le (Nat.le_of_eq hlen)

theorem forall₂_lengths (h : List.Forall₂ (Sharded storage T V) entries batch) :
    ∀ logits ∈ batch, logits.length = T := by
  induction h with
  | nil => exact fun _ hmem => absurd hmem List.not_mem_nil
  | cons hfirst _ ih =>
    intro logits hmem
    rcases List.mem_cons.mp hmem with rfl | hmore
    · exact hfirst.shape.1
    · exact ih logits hmore

theorem crossCluster_eq (hbatch : ∀ logits ∈ batch, logits.length = T) {cpGroup : Option (ℕ × ℕ)}
    (hrank : (rankAndSize cpGroup).1 < (rankAndSize cpGroup).2) (hdvd : (rankAndSize cpGroup).2 ∣ T)
    {numSeqChunks : ℕ} (hn : 1 ≤ numSeqChunks) :
    (chunkTeacherLogitsForCrossCluster ⟨T,batch⟩ numSeqChunks >>= fun chunks =>
      rebuildTeacherFullLogitsCrossCluster chunks cpGroup) =
        .ok ⟨T / (rankAndSize cpGroup).2,
          batch.map (window T (rankAndSize cpGroup).1 (rankAndSize cpGroup).2)⟩ := by
  obtain ⟨first,more,hchunks,hjoined⟩ := chunks_joined hbatch hn
  rw [hchunks]
  show rebuildTeacherFullLogitsCrossCluster (first :: more) cpGroup = _
  have halone : batch.map (window T 0 1) = batch :=
    (List.map_congr_left fun logits hlogits => window_alone (hbatch logits hlogits)).trans
      (List.map_id batch)
  unfold rebuildTeacherFullLogitsCrossCluster
  dsimp only
  rw [hjoined]
  cases cpGroup with
  | none =>
    show Except.ok _ = Except.ok (LogitsBatch.mk (T / 1) (batch.map (window T 0 1)))
    rw [halone,Nat.div_one]
  | some cp =>
    obtain ⟨rank,size⟩ := cp
    have hrank : rank < size := hrank
    have hdvd : size ∣ T := hdvd
    dsimp only [rankAndSize,Option.getD_some]
    by_cases hone : 1 < size
    · simp only [if_pos hone,if_neg (Nat.ne_of_gt hone),Nat.mod_eq_zero_of_dvd hdvd,ne_eq,
        not_true_eq_false,if_false]
      rw [Nat.min_eq_left (Nat.le_sub_of_add_le' (window_le hrank))]
      refine congrArg (fun samples => Except.ok (LogitsBatch.mk _ samples)) ?_
      refine List.map_congr_left fun logits _ => ?_
      rw [window,Nat.succ_mul]
    · obtain rfl : size = 1 := by omega
      obtain rfl : rank = 0 := by omega
      rw [halone,Nat.div_one]
      rfl

/-- For every tiling of the logits of every sample into shards, in any order and at any place of the
storage, and for every rank of a context-parallel group of the student: the planned slices hold each
cell of the window once, the assembled shards are the window, a view in the storage is the stack of
the windows, and so are the rebuilt logits and the logits that are sent in any number of chunks. -/
theorem transports_agree [DecidableEq Payload] [Zero α] (cpGroup : Option (ℕ × ℕ))
    (hrank : (rankAndSize cpGroup).1 < (rankAndSize cpGroup).2) (hdvd : (rankAndSize cpGroup).2 ∣ T)
    (h : List.Forall₂ (Sharded storage T V) entries batch) :
    let rank := (rankAndSize cpGroup).1
    let size := (rankAndSize cpGroup).2
    (∀ shards ∈ entries, ∀ r < T / size, ∀ v < V,
      (collectOverlappingTeacherShards shards rank size T).countP
        (fun found => decide (found.Writes r v)) = 1) ∧
    List.Forall₂ (fun shards logits =>
      assembleTeacherLogitsFromShards storage shards rank size =
        .ok (window T rank size logits)) entries batch ∧
    (∀ view, tryZeroCopyTeacherLogits storage entries rank size = .ok (some view) →
      view = batch.map (window T rank size)) ∧
    rebuildTeacherFullLogitsFromIpc storage entries cpGroup =
      stack (batch.map (window T rank size)) ∧
    ∀ numSeqChunks, 1 ≤ numSeqChunks →
      (chunkTeacherLogitsForCrossCluster ⟨T,batch⟩ numSeqChunks >>= fun chunks =>
        rebuildTeacherFullLogitsCrossCluster chunks cpGroup) =
          .ok ⟨T / size,batch.map (window T rank size)⟩ := by
  have hzero := @zeroCopy_eq _ _ storage T V entries batch (rankAndSize cpGroup).1
    (rankAndSize cpGroup).2 _ h hdvd
  refine ⟨fun shards hshards r hr v hv => ?_,?_,fun view hview => ?_,?_,fun numSeqChunks hn => ?_⟩
  · obtain ⟨i,hi,rfl⟩ := List.mem_iff_getElem.mp hshards
    exact collect_covers_once (h.get hi (by rwa [← h.length_eq])) hrank hdvd hr hv
  · exact h.imp fun shards logits hsharded => assemble_eq hsharded hrank hdvd
  · rcases hzero with hnone | hsome
    · rw [hnone] at hview
      cases hview
    · rw [hsome] at hview
      exact (Option.some.inj (Except.ok.inj hview)).symm
  · unfold rebuildTeacherFullLogitsFromIpc
    dsimp only
    rcases hzero with hnone | hsome
    · rw [hnone,assemble_all h hrank hdvd]
    · rw [hsome]
      cases h with
      | nil => cases hsome
      | cons hfirst hrest => rfl
  · exact crossCluster_eq (forall₂_lengths h) hrank hdvd hn

end Batch

def fourRows (a : ℕ) : List (List ℕ) := (List.range 4).map fun i =>
  [a + 3 * i,a + 3 * i + 1,a + 3 * i + 2]

/-- The storage of the producer of a slab of the sequence and of the vocabulary: two samples in the
second buffer. -/
def producerStorage : Storage ℕ (ℕ × ℕ) := fun p =>
  [[],[fourRows 0,fourRows 100].map (block (p.1,p.1 + 2) (if p.2 = 0 then (0,2) else (2,3)))]

def quarter (sample : ℕ) (seqStart : ℕ) (vocab : ℕ × ℕ) : ShardHandle (ℕ × ℕ) :=
  ⟨vocab.1,vocab.2,seqStart,(2,vocab.2 - vocab.1),4,3,(seqStart,vocab.1),1,sample⟩

def quarters (sample : ℕ) : List (ShardHandle (ℕ × ℕ)) :=
  [quarter sample 2 (2,3),quarter sample 0 (0,2),quarter sample 2 (0,2),quarter sample 0 (2,3)]

theorem sharded_quarters {sample : ℕ} (h : sample = 0 ∨ sample = 1) :
    Sharded producerStorage 4 3 (quarters sample) (fourRows (100 * sample)) := by
  refine ⟨?_,List.cons_ne_nil _ _,?_,?_,fun handle hmem => ?_⟩
  · rcases h with rfl | rfl <;> decide
  · exact @tiling_of_perm_grid [2,2] [2,1] _ (by rcases h with rfl | rfl <;> decide)
  · rcases h with rfl | rfl <;> decide
  · simp only [quarters,List.mem_cons,List.not_mem_nil,or_false] at hmem
    rcases h with rfl | rfl <;> rcases hmem with rfl | rfl | rfl | rfl <;>
      exact ⟨_,_,rfl,rfl,by decide⟩

/-- The second of two ranks. -/
theorem transports_agree_quarters :
    (collectOverlappingTeacherShards (quarters 1) 1 2 4).countP
      (fun found => decide (found.Writes 1 2)) = 1 ∧
    rebuildTeacherFullLogitsFromIpc producerStorage [quarters 0,quarters 1] (some (1,2)) =
      .ok [[[6,7,8],[9,10,11]],[[106,107,108],[109,110,111]]] ∧
    (chunkTeacherLogitsForCrossCluster ⟨4,[fourRows 0,fourRows 100]⟩ 3 >>= fun chunks =>
      rebuildTeacherFullLogitsCrossCluster chunks (some (1,2))) =
        .ok ⟨2,[[[6,7,8],[9,10,11]],[[106,107,108],[109,110,111]]]⟩ := by
  obtain ⟨hcover,_,_,hrebuilt,hchunks⟩ := transports_agree (some (1,2)) Nat.one_lt_two ⟨2,rfl⟩
    (.cons (sharded_quarters (.inl rfl)) (.cons (sharded_quarters (.inr rfl)) .nil))
  exact ⟨hcover (quarters 1) (.tail _ (.head _)) 1 Nat.one_lt_two 2 (Nat.lt_succ_self 2),hrebuilt,
    hchunks 3 (Nat.succ_pos 2)⟩

end XToken
end DockyardRL
