import DockyardRL.Logprob.Layouts
import DockyardRL.Logprob.VocabGathers

/-! Whatever is read of logits that are cut over ranks is what the whole logits have: at the indices of
the positions, at the columns of a list, at the greatest logit, and in whole rows that are exchanged. -/
namespace DockyardRL
namespace Logprob

open Chunks Distributed Exchange Grid TopK
open ChunkedDistributedGatherLogprob (inRange localIndices mulMask joinChunks)

variable {K : Type} [Field K]

def readTokens (row : List K) (tokens : List ℕ) : List K := tokens.map fun v => row.getD v 0

/-- The tensor-parallel groups that go with the logits: one of all their ranks, or none for one rank. -/
def GroupOf (L : ShardedLogits K) (tpGroup : Option ℕ) : Prop :=
  tpGroup = some L.tp ∨ tpGroup = none ∧ L.tp = 1

section Gather

variable {L : ShardedLogits K} {tpGroup : Option ℕ} {gi : Grid (List ℕ)}

theorem sum_read {row : List K} {tp vLocal v : ℕ} (hv : 0 < vLocal) (hrow : row.length = tp * vLocal)
    (hlt : v < tp * vLocal) : ((List.range tp).map fun r =>
      (part vLocal r row).getD (min (v - r * vLocal) (vLocal - 1)) 0 *
        if decide (r * vLocal ≤ v ∧ v < (r + 1) * vLocal) = true then 1 else 0).sum = row.getD v 0 := by
  have hsum := sum_gather_clamped hv hrow id hlt
  simpa only [List.map_id,id] using hsum

theorem gatherChunk_dense (hgroup : GroupOf L tpGroup) {b s start stop : ℕ} (hb : b < L.B)
    (hs : start + s < L.S) (hids : ∀ v ∈ gi.entry b (start + s), v < L.vocab) {tpRank : ℕ}
    (htp : tpRank < L.tp) :
    (gatherChunk tpGroup L.shard gi (· * L.vLocal) (fun r => (r + 1) * L.vLocal) tpRank start
      stop).entry b s = readTokens (L.row b (start + s)) (gi.entry b (start + s)) := by
  have hrow := L.length_row b hb _ hs
  have hB := Nat.zero_lt_of_lt hb
  have hS := Nat.zero_lt_of_lt hs
  have hlocal : ∀ r < L.tp, mulMask (((gi.entry b (start + s)).map fun v =>
        min (v - r * L.vLocal) ((L.shard r).lastDim - 1)).map fun i =>
          (part L.vLocal r (L.row b (start + s))).getD i 0)
      ((gi.entry b (start + s)).map fun v => decide (r * L.vLocal ≤ v ∧ v < (r + 1) * L.vLocal)) =
      (gi.entry b (start + s)).map fun v =>
        (part L.vLocal r (L.row b (start + s))).getD (min (v - r * L.vLocal) (L.vLocal - 1)) 0 *
          if decide (r * L.vLocal ≤ v ∧ v < (r + 1) * L.vLocal) = true then 1 else 0 := by
    intro r hr
    rw [lastDim_part hB hS hr,List.map_map,mulMask_map]
    rfl
  rcases hgroup with rfl | ⟨rfl,hone⟩
  · exact (allReduceSumRows_entry L.tp_pos hlocal).trans (List.map_congr_left fun v hv =>
      sum_read L.vLocal_pos hrow (hids v hv))
  · obtain rfl : tpRank = 0 := by omega
    refine (hlocal 0 htp).trans (List.map_congr_left fun v hv => ?_)
    have hsum := sum_read L.vLocal_pos hrow (hids v hv)
    rw [hone,List.range_one,List.map_singleton,List.sum_singleton] at hsum
    exact hsum

theorem gatherChunks_eq (start stop : ℕ → ℕ) (chunkSize : Option ℕ) (tpRank : ℕ) :
    gatherChunks tpGroup L.shard gi start stop chunkSize tpRank =
      if chunkSize.getD L.S = 0 then .error (.value "range() arg 3 must not be zero")
      else joinChunks ((List.range (rangeSteps L.S (chunkSize.getD L.S))).map fun c =>
        gatherChunk tpGroup L.shard gi start stop tpRank (c * chunkSize.getD L.S)
          (min L.S ((c + 1) * chunkSize.getD L.S))) := rfl

theorem gatherChunks_dense (hgroup : GroupOf L tpGroup) (hrows : gi.rows = L.B) (hle : gi.cols ≤ L.S)
    (hids : ∀ b < L.B, ∀ s < gi.cols, ∀ v ∈ gi.entry b s, v < L.vocab) {chunkSize : Option ℕ}
    (hS : 0 < L.S) (hchunk : chunkSize ≠ some 0) {tpRank : ℕ} (htp : tpRank < L.tp) :
    ∃ out, gatherChunks tpGroup L.shard gi (· * L.vLocal) (fun r => (r + 1) * L.vLocal) chunkSize
        tpRank = .ok out ∧ out.rows = L.B ∧ out.cols = gi.cols ∧
      ∀ b < L.B, ∀ s < gi.cols, out.entry b s = readTokens (L.row b s) (gi.entry b s) := by
  have hsize : 0 < chunkSize.getD L.S := by
    cases chunkSize with
    | none => exact hS
    | some c => exact Nat.pos_of_ne_zero fun hzero => hchunk (congrArg some hzero)
  let chunk := fun c => gatherChunk tpGroup L.shard gi (· * L.vLocal) (fun r => (r + 1) * L.vLocal)
    tpRank (c * chunkSize.getD L.S) (min L.S ((c + 1) * chunkSize.getD L.S))
  have hshape : ∀ c, (chunk c).rows = L.B ∧ (chunk c).cols =
      min gi.cols ((c + 1) * chunkSize.getD L.S) - c * chunkSize.getD L.S := by
    intro c
    have hcols : min (min L.S ((c + 1) * chunkSize.getD L.S)) gi.cols - c * chunkSize.getD L.S =
        min gi.cols ((c + 1) * chunkSize.getD L.S) - c * chunkSize.getD L.S := by
      omega
    rcases hgroup with rfl | ⟨rfl,-⟩
    · exact ⟨hrows,hcols⟩
    · exact ⟨hrows,hcols⟩
  obtain ⟨out,hcat,hr,hc,hentry⟩ := cat_chunks_le hS hle hsize chunk
    (fun b s => readTokens (L.row b s) (gi.entry b s)) (fun c => (hshape c).1) (fun c => (hshape c).2)
    fun c b hb s hs => gatherChunk_dense hgroup hb (hs.trans_le hle) (hids b hb _ hs) htp
  refine ⟨out,?_,hr,hc,hentry⟩
  rw [gatherChunks_eq,if_neg hsize.ne']
  exact joinChunks_of_cat hcat

theorem gatherChunks_empty {chunkSize : Option ℕ} (h : ¬(0 < L.S ∧ chunkSize ≠ some 0))
    (start stop : ℕ → ℕ) (tpRank : ℕ) :
    ∃ error, gatherChunks tpGroup L.shard gi start stop chunkSize tpRank = .error error := by
  rw [gatherChunks_eq]
  by_cases hzero : chunkSize.getD L.S = 0
  · rw [if_pos hzero]
    exact ⟨_,rfl⟩
  · have hS : L.S = 0 := Nat.eq_zero_of_not_pos fun hS => h ⟨hS,fun hsome => hzero (by rw [hsome]; rfl)⟩
    have hsteps : rangeSteps L.S (chunkSize.getD L.S) = 0 := by
      rw [hS,rangeSteps_zero (Nat.pos_of_ne_zero (hS ▸ hzero))]
    rw [if_neg hzero,hsteps]
    exact ⟨_,rfl⟩

end Gather

section Context

theorem mem_getTokens {α : Type} {cpRank cpSize : ℕ} {l : List α} {x : α}
    (h : x ∈ getTokensOnThisCpRank cpRank cpSize l) : x ∈ l := by
  rw [getTokensOnThisCpRank] at h
  split_ifs at h
  · exact h
  · obtain ⟨ind,-,hmem⟩ := List.mem_flatMap.mp h
    exact List.mem_of_mem_drop (List.mem_of_mem_take hmem)

theorem getTokens_range_lt {cpRank cpSize n s : ℕ}
    (hs : s < (getTokensOnThisCpRank cpRank cpSize (List.range n)).length) :
    (getTokensOnThisCpRank cpRank cpSize (List.range n)).getD s 0 < n := by
  rw [List.getD_eq_getElem _ _ hs]
  exact List.mem_range.mp (mem_getTokens (List.getElem_mem hs))

/-- The logits of a context-parallel rank. -/
def ShardedLogits.cpPart (L : ShardedLogits K) (cpRank cpSize : ℕ) : ShardedLogits K where
  B := L.B
  S := (getTokensOnThisCpRank cpRank cpSize (List.range L.S)).length
  tp := L.tp
  vLocal := L.vLocal
  row b s := L.row b ((getTokensOnThisCpRank cpRank cpSize (List.range L.S)).getD s 0)
  tp_pos := L.tp_pos
  vLocal_pos := L.vLocal_pos
  length_row b hb _ hs := L.length_row b hb _ (getTokens_range_lt hs)

variable {L : ShardedLogits K} {tpGroup : Option ℕ} {cpSize : ℕ} {gi : Grid (List ℕ)}

omit [Field K] in
theorem cols_cpPart {s : ℕ} (hcp : 0 < cpSize) (hS : L.S = cpSize * 2 * s) {cpRank : ℕ}
    (hrank : cpRank < cpSize) : (L.cpPart cpRank cpSize).S = 2 * s :=
  length_getTokens hcp (by rw [List.length_range,hS]) hrank

theorem mem_padCols {padLen k b s v bound : ℕ} (hbound : 0 < bound)
    (hids : ∀ s < gi.cols, ∀ v ∈ gi.entry b s, v < bound)
    (hv : v ∈ (padCols padLen (List.replicate k 0) gi).entry b s) : v < bound := by
  simp only [padCols] at hv
  split_ifs at hv with hs
  · exact hids s hs v hv
  · rwa [List.eq_of_mem_replicate hv]

theorem gatherChunks_cpPart (hgroup : GroupOf L tpGroup) (hrows : gi.rows = L.B)
    (hids : ∀ b < L.B, ∀ s < gi.cols, ∀ v ∈ gi.entry b s, v < L.vocab) {chunkSize : Option ℕ}
    (hchunk : chunkSize ≠ some 0) {s : ℕ} (hone : 1 < cpSize) (hS : L.S = cpSize * 2 * s) (hpos : 0 < s)
    (hle : gi.cols ≤ L.S) (k : ℕ) {cpRank tpRank : ℕ} (hcp : cpRank < cpSize) (htp : tpRank < L.tp) :
    let padded := padCols (L.S - gi.cols) (List.replicate k 0) gi
    ∃ out, gatherChunks tpGroup (L.cpPart cpRank cpSize).shard (cpShard cpRank cpSize padded)
        (· * L.vLocal) (fun r => (r + 1) * L.vLocal) chunkSize tpRank = .ok out ∧ out.rows = L.B ∧
      out.cols = 2 * s ∧ ∀ b < L.B, (List.range out.cols).map (out.entry b) =
        getTokensOnThisCpRank cpRank cpSize
          ((List.range L.S).map fun t => readTokens (L.row b t) (padded.entry b t)) := by
  intro padded
  have hcpPos : 0 < cpSize := Nat.zero_lt_of_lt hone
  have hpadded : padded.cols = L.S := Nat.add_sub_of_le hle
  have hpart := cols_cpPart hcpPos hS hcp
  have hlength : (getTokensOnThisCpRank cpRank cpSize (List.range padded.cols)).length =
      (L.cpPart cpRank cpSize).S := by rw [hpadded]; rfl
  have hids' : ∀ b < L.B, ∀ t, ∀ v ∈ padded.entry b t, v < L.vocab := fun b hb t v hv =>
    mem_padCols (Nat.mul_pos L.tp_pos L.vLocal_pos) (hids b hb) hv
  obtain ⟨out,hok,hr,hc,hentry⟩ := @gatherChunks_dense K _ (L.cpPart cpRank cpSize) tpGroup
    (cpShard cpRank cpSize padded) hgroup hrows hlength.le (fun b hb t _ v hv => hids' b hb _ v hv)
    chunkSize (by omega) hchunk tpRank htp
  refine ⟨out,hok,hr,hc.trans (hlength.trans hpart),fun b hb => ?_⟩
  rw [getTokensOnThisCpRank_map]
  refine List.ext_getElem ?_ fun t ht _ => ?_
  · rw [List.length_map,List.length_map,List.length_range,hc]
    exact hlength
  · have ht : t < out.cols := by simpa using ht
    rw [hc] at ht
    have hlt : t < (getTokensOnThisCpRank cpRank cpSize (List.range L.S)).length := by
      rwa [← hpadded]
    rw [List.getElem_map,List.getElem_range,List.getElem_map,hentry b hb t ht,
      ← List.getD_eq_getElem _ 0 hlt]
    show readTokens _ (padded.entry b
      ((getTokensOnThisCpRank cpRank cpSize (List.range padded.cols)).getD t 0)) = _
    rw [hpadded]
    rfl

theorem gatherLogits_one (hgroup : GroupOf L tpGroup) (hrows : gi.rows = L.B) (hle : gi.cols ≤ L.S)
    (hids : ∀ b < L.B, ∀ s < gi.cols, ∀ v ∈ gi.entry b s, v < L.vocab) (k : ℕ) {chunkSize : Option ℕ}
    (hS : 0 < L.S) (hchunk : chunkSize ≠ some 0) {tpRank : ℕ} (htp : tpRank < L.tp) :
    ∃ out, gatherLogitsAtGlobalIndices tpGroup 1 k (fun c => (L.cpPart c 1).shard) gi (· * L.vLocal)
        (fun r => (r + 1) * L.vLocal) chunkSize 0 tpRank = .ok out ∧ out.rows = L.B ∧
      out.cols = gi.cols ∧
      ∀ b < L.B, ∀ s < gi.cols, out.entry b s = readTokens (L.row b s) (gi.entry b s) := by
  have horder : getTokensOnThisCpRank 0 1 (List.range L.S) = List.range L.S := if_pos rfl
  have hpart : (L.cpPart 0 1).S = L.S := by
    show (getTokensOnThisCpRank 0 1 (List.range L.S)).length = L.S
    rw [horder,List.length_range]
  obtain ⟨out,hok,hr,hc,hentry⟩ := @gatherChunks_dense K _ (L.cpPart 0 1) tpGroup gi hgroup hrows
    (hle.trans_eq hpart.symm) hids chunkSize (hS.trans_eq hpart.symm) hchunk tpRank htp
  refine ⟨out,?_,hr,hc,fun b hb s hs => (hentry b hb s hs).trans ?_⟩
  · exact congrArg (fun own => own >>= fun own => Except.ok own) hok
  · show readTokens (L.row b ((getTokensOnThisCpRank 0 1 (List.range L.S)).getD s 0)) _ = _
    rw [horder,List.getD_eq_getElem _ _ (by rw [List.length_range]; omega),List.getElem_range]

theorem gatherLogits_rejected (hcp : 0 < cpSize) (heven : cpSize = 1 ∨ cpSize * 2 ∣ L.S)
    {chunkSize : Option ℕ} (h : ¬(0 < L.S ∧ chunkSize ≠ some 0)) {cpRank : ℕ} (hrank : cpRank < cpSize)
    (k tpRank : ℕ) :
    ∃ error, gatherLogitsAtGlobalIndices tpGroup cpSize k (fun c => (L.cpPart c cpSize).shard) gi
      (· * L.vLocal) (fun r => (r + 1) * L.vLocal) chunkSize cpRank tpRank = .error error := by
  have hpart : ¬(0 < (L.cpPart cpRank cpSize).S ∧ chunkSize ≠ some 0) := by
    refine fun hpos => h ⟨Nat.pos_of_ne_zero fun hzero => hpos.1.ne' ?_,hpos.2⟩
    rcases heven with rfl | ⟨s,hs⟩
    · show (getTokensOnThisCpRank cpRank 1 (List.range L.S)).length = 0
      rw [getTokensOnThisCpRank,if_pos rfl,List.length_range,hzero]
    · rw [cols_cpPart hcp hs hrank]
      simpa [hcp.ne',hzero] using hs
  obtain ⟨error,herror⟩ := @gatherChunks_empty K _ _ tpGroup
    (localGlobalIndices cpSize cpRank ((L.cpPart cpRank cpSize).shard tpRank).cols k gi) _ hpart
    (· * L.vLocal) (fun r => (r + 1) * L.vLocal) tpRank
  exact ⟨error,congrArg (· >>= _) herror⟩

theorem gatherLogits_dense (hgroup : GroupOf L tpGroup) (hcp : 0 < cpSize)
    (heven : cpSize = 1 ∨ cpSize * 2 ∣ L.S) (hrows : gi.rows = L.B) (hle : gi.cols ≤ L.S)
    (hids : ∀ b < L.B, ∀ s < gi.cols, ∀ v ∈ gi.entry b s, v < L.vocab) (k : ℕ) {chunkSize : Option ℕ}
    (hS : 0 < L.S) (hchunk : chunkSize ≠ some 0) {cpRank tpRank : ℕ} (hrank : cpRank < cpSize)
    (htp : tpRank < L.tp) :
    ∃ out, gatherLogitsAtGlobalIndices tpGroup cpSize k (fun c => (L.cpPart c cpSize).shard) gi
        (· * L.vLocal) (fun r => (r + 1) * L.vLocal) chunkSize cpRank tpRank = .ok out ∧
      out.rows = L.B ∧ out.cols = gi.cols ∧
      ∀ b < L.B, ∀ s < gi.cols, out.entry b s = readTokens (L.row b s) (gi.entry b s) := by
  rcases Nat.eq_or_lt_of_le hcp with hone | hone
  · obtain rfl : cpSize = 1 := hone.symm
    obtain rfl : cpRank = 0 := by omega
    exact gatherLogits_one hgroup hrows hle hids k hS hchunk htp
  · obtain ⟨s,hs⟩ := heven.resolve_left hone.ne'
    have hpos : 0 < s := Nat.pos_of_ne_zero fun hzero => by simp [hs,hzero] at hS
    have hlen : ∀ c < cpSize, (L.cpPart c cpSize).S * cpSize = L.S := by
      intro c hc
      rw [cols_cpPart hcp hs hc,hs]
      ring
    have hlocal : ∀ c < cpSize,
        localGlobalIndices cpSize c ((L.cpPart c cpSize).shard tpRank).cols k gi =
        cpShard c cpSize (padCols (L.S - gi.cols) (List.replicate k 0) gi) := by
      intro c hc
      rw [localGlobalIndices,if_pos hone,ShardedLogits.cols_shard,hlen c hc]
    have : Nonempty (Grid (List K)) := ⟨gi.map (readTokens [])⟩
    choose! outs hok hrow hcols hread using fun c (hc : c < cpSize) =>
      gatherChunks_cpPart hgroup hrows hids hchunk hone hs hpos hle k hc htp
    have hranks : ∀ c < cpSize, gatherChunks tpGroup (L.cpPart c cpSize).shard
        (localGlobalIndices cpSize c ((L.cpPart c cpSize).shard tpRank).cols k gi) (· * L.vLocal)
        (fun r => (r + 1) * L.vLocal) chunkSize tpRank = .ok (outs c) := fun c hc => by
      rw [hlocal c hc,hok c hc]
    have hall := Fallible.mapM_ok fun c (hc : c ∈ List.range cpSize) => hranks c (List.mem_range.mp hc)
    let all := fun c => ((List.range cpSize).map outs).getD c (outs cpRank)
    have hget : ∀ c < cpSize, all c = outs c := fun c hc => getD_range_map _ _ hc
    have hlength : (allgatherCpSharded cpSize all).cols = L.S :=
      (cols_allgatherCpSharded hcp fun c hc => by rw [hget c hc,hcols c hc]).trans hs.symm
    refine ⟨dropCols (L.S - gi.cols) (allgatherCpSharded cpSize all),?_,?_,?_,fun b hb t ht => ?_⟩
    · unfold gatherLogitsAtGlobalIndices
      dsimp only
      rw [hranks cpRank hrank,hall,ShardedLogits.cols_shard,hlen cpRank hrank]
      simp only [hone,if_true]
      rfl
    · exact (congrArg Grid.rows (hget 0 hcp)).trans (hrow 0 hcp)
    · show (allgatherCpSharded cpSize all).cols - (L.S - gi.cols) = gi.cols
      rw [hlength,Nat.sub_sub_self hle]
    · have hfull : ((List.range L.S).map fun t => readTokens (L.row b t)
          ((padCols (L.S - gi.cols) (List.replicate k 0) gi).entry b t)).length = cpSize * 2 * s := by
        rw [List.length_map,List.length_range,hs]
      have hentry := (entry_allgatherCpSharded (x := all) hcp hfull (b := b) fun c hc => by
        rw [hget c hc]
        exact hread c hc b hb).2 t (by rw [hfull,← hs]; omega)
      rw [List.getElem_map,List.getElem_range] at hentry
      refine hentry.trans (congrArg _ ?_)
      simp only [padCols,if_pos ht]

end Context

section Columns

variable {L : ShardedLogits K}

theorem gatherColumns_dense {columns : List ℕ} (hcolumns : ∀ c ∈ columns, c < L.vocab) {rank : ℕ}
    (hrank : rank < L.tp) {b s : ℕ} (hb : b < L.B) (hs : s < L.S) :
    (vocabParallelGatherColumns L.tp L.vLocal L.shard columns rank).entry b s =
      readTokens (L.row b s) columns := by
  have hrow := L.length_row b hb s hs
  rw [vocabParallelGatherColumns]
  split_ifs with hone
  · have htp : L.tp = 1 := by omega
    obtain rfl : rank = 0 := by omega
    refine List.map_congr_left fun c hc => ?_
    have hlt : c < 1 * L.vLocal := htp ▸ hcolumns c hc
    show (part L.vLocal 0 (L.row b s)).getD c 0 = _
    rw [getD_part _ _ (by omega),Nat.zero_mul,Nat.zero_add]
  · have hlocal : ∀ r < L.tp, mulMask ((columns.map fun c => min (c - r * L.vLocal) (L.vLocal - 1)).map
          fun i => (part L.vLocal r (L.row b s)).getD i 0)
        (columns.map fun c => decide (r * L.vLocal ≤ c ∧ c < r * L.vLocal + L.vLocal)) =
        columns.map fun c =>
          (part L.vLocal r (L.row b s)).getD (min (c - r * L.vLocal) (L.vLocal - 1)) 0 *
          if decide (r * L.vLocal ≤ c ∧ c < (r + 1) * L.vLocal) = true then 1 else 0 := by
      intro r _
      rw [List.map_map,mulMask_map]
      simp only [Nat.succ_mul]
      rfl
    exact (allReduceSumRows_entry L.tp_pos hlocal).trans (List.map_congr_left fun c hc =>
      sum_read L.vLocal_pos hrow (hcolumns c hc))

theorem shape_gatherColumns (columns : List ℕ) (rank : ℕ) :
    (vocabParallelGatherColumns L.tp L.vLocal L.shard columns rank).rows = L.B ∧
      (vocabParallelGatherColumns L.tp L.vLocal L.shard columns rank).cols = L.S := by
  rw [vocabParallelGatherColumns]
  split_ifs
  · exact ⟨rfl,rfl⟩
  · exact ⟨rfl,rfl⟩

end Columns

section Greatest

variable {L : ShardedLogits K} {argmax : List K → ℕ} {topk : List K → ℕ → List (K × ℕ)}

omit [Field K] in
theorem argmax_dense [LinearOrder K] (hargmax : IsArgmax argmax) (htopk : IsTopk topk)
    (hS : L.tp = 1 ∨ 0 < L.S) {rank : ℕ} (hrank : rank < L.tp) :
    ∃ out, vocabParallelArgmax argmax topk L.tp L.vLocal L.shard rank = .ok out ∧ out.rows = L.B ∧
      out.cols = L.S ∧ ∀ b < L.B, ∀ s < L.S, GreatestAt (L.row b s) (out.entry b s) := by
  rw [vocabParallelArgmax]
  split_ifs with hone
  · have hpos : 0 < L.S := hS.resolve_left hone.ne'
    obtain ⟨sel,hsel⟩ := @distributedVocabTopk_dense K _ topk L 1 none htopk hpos hpos
    obtain ⟨vals,idx,hok,-,-,hrows,hcols,hentry⟩ := hsel rank hrank
    refine ⟨idx.map fun is => is.headD 0,by rw [hok]; rfl,hrows,hcols,fun b hb s hs => ?_⟩
    obtain ⟨-,hidx,hselection⟩ := hentry b hb s hs
    have hvocab : 1 ≤ L.vocab := Nat.mul_pos L.tp_pos L.vLocal_pos
    rw [Nat.min_eq_left hvocab] at hselection
    show GreatestAt _ ((idx.entry b s).headD 0)
    rw [hidx]
    exact hselection.greatestAt
  · have htp : L.tp = 1 := by omega
    obtain rfl : rank = 0 := by omega
    refine ⟨_,rfl,rfl,rfl,fun b hb s hs => ?_⟩
    have hrow := L.length_row b hb s hs
    have hwhole : part L.vLocal 0 (L.row b s) = L.row b s := by
      rw [htp,Nat.one_mul] at hrow
      rw [part,Nat.zero_mul,List.drop_zero,List.take_of_length_le hrow.le]
    show GreatestAt _ (argmax (part L.vLocal 0 (L.row b s)))
    rw [hwhole]
    exact hargmax _ (List.ne_nil_of_length_pos (hrow ▸ Nat.mul_pos L.tp_pos L.vLocal_pos))

omit [Field K] in
theorem argmax_rejected (h : ¬(L.tp = 1 ∨ 0 < L.S)) (rank : ℕ) :
    ∃ error, vocabParallelArgmax argmax topk L.tp L.vLocal L.shard rank = .error error := by
  obtain ⟨hne,hS⟩ := not_or.mp h
  have hone : 1 < L.tp := lt_of_le_of_ne L.tp_pos (Ne.symm hne)
  rw [vocabParallelArgmax,if_pos hone]
  cases hcall : distributedVocabTopk topk L.tp L.shard 1 (· * L.vLocal)
      (fun r => (r + 1) * L.vLocal) none rank with
  | error error => exact ⟨error,rfl⟩
  | ok result => exact absurd hcall (distributedVocabTopk_empty (fun hpos => hS hpos.1) _ _ rank result)

end Greatest

section Rows

variable {rows : List (List K)} {tp vLocal : ℕ}

omit [Field K] in
theorem exchange_back (htp : 0 < tp) (hdvd : tp ∣ rows.length)
    (hrows : ∀ row ∈ rows, row.length = tp * vLocal) :
    ∃ whole, allToAllVp2sq tp (fun r => rows.map (part vLocal r)) = .ok whole ∧
      (∀ r < tp, whole r = part (rows.length / tp) r rows) ∧
      ∃ back, allToAllSq2vp tp whole = .ok back ∧ ∀ r < tp, back r = rows.map (part vLocal r) := by
  have hlength : rows.length = tp * (rows.length / tp) := (Nat.mul_div_cancel' hdvd).symm
  obtain ⟨whole,hwhole,hrank⟩ := allToAllVp2sq_eq (R := id) htp hlength hrows fun _ _ => rfl
  obtain ⟨back,hback,hparts⟩ := allToAllSq2vp_eq (D := id) htp hlength hrows hrank
  exact ⟨whole,hwhole,fun r hr => (hrank r hr).trans (List.map_id _),back,hback,hparts⟩

omit [Field K] in
theorem exchange_rejected (hdvd : ¬tp ∣ rows.length) :
    ∃ message, allToAllVp2sq tp (fun r => rows.map (part vLocal r)) = .error (.value message) := by
  rw [allToAllVp2sq,require,if_neg (by simpa [Nat.dvd_iff_mod_eq_zero] using hdvd)]
  exact ⟨_,rfl⟩

end Rows

/-- What the ranks get of logits that are cut over them: where the sizes are accepted, what the whole
logits have, and an exception where they are not. -/
structure EveryGatherDense [LinearOrder K] (L : ShardedLogits K) (tpGroup : Option ℕ) (cpSize k : ℕ)
    (gi : Grid (List ℕ)) (chunkSize : Option ℕ) (columns : List ℕ) (argmax : List K → ℕ)
    (topk : List K → ℕ → List (K × ℕ)) (rows : List (List K)) : Prop where
  gather : 0 < L.S ∧ chunkSize ≠ some 0 → ∀ cpRank < cpSize, ∀ tpRank < L.tp,
    ∃ out, gatherLogitsAtGlobalIndices tpGroup cpSize k (fun c => (L.cpPart c cpSize).shard) gi
        (· * L.vLocal) (fun r => (r + 1) * L.vLocal) chunkSize cpRank tpRank = .ok out ∧
      out.rows = L.B ∧ out.cols = gi.cols ∧
      ∀ b < L.B, ∀ s < gi.cols, out.entry b s = readTokens (L.row b s) (gi.entry b s)
  gather_rejected : ¬(0 < L.S ∧ chunkSize ≠ some 0) → ∀ cpRank < cpSize, ∀ tpRank < L.tp,
    ∃ error, gatherLogitsAtGlobalIndices tpGroup cpSize k (fun c => (L.cpPart c cpSize).shard) gi
      (· * L.vLocal) (fun r => (r + 1) * L.vLocal) chunkSize cpRank tpRank = .error error
  gatherColumns : ∀ rank < L.tp,
    (vocabParallelGatherColumns L.tp L.vLocal L.shard columns rank).rows = L.B ∧
    (vocabParallelGatherColumns L.tp L.vLocal L.shard columns rank).cols = L.S ∧
    ∀ b < L.B, ∀ s < L.S, (vocabParallelGatherColumns L.tp L.vLocal L.shard columns rank).entry b s =
      readTokens (L.row b s) columns
  greatest : L.tp = 1 ∨ 0 < L.S → ∀ rank < L.tp,
    ∃ out, vocabParallelArgmax argmax topk L.tp L.vLocal L.shard rank = .ok out ∧ out.rows = L.B ∧
      out.cols = L.S ∧ ∀ b < L.B, ∀ s < L.S, GreatestAt (L.row b s) (out.entry b s)
  greatest_rejected : ¬(L.tp = 1 ∨ 0 < L.S) → ∀ rank < L.tp,
    ∃ error, vocabParallelArgmax argmax topk L.tp L.vLocal L.shard rank = .error error
  exchange : L.tp ∣ rows.length →
    ∃ whole, allToAllVp2sq L.tp (fun r => rows.map (part L.vLocal r)) = .ok whole ∧
      (∀ r < L.tp, whole r = part (rows.length / L.tp) r rows) ∧
      ∃ back, allToAllSq2vp L.tp whole = .ok back ∧ ∀ r < L.tp, back r = rows.map (part L.vLocal r)
  exchange_rejected : ¬L.tp ∣ rows.length →
    ∃ message, allToAllVp2sq L.tp (fun r => rows.map (part L.vLocal r)) = .error (.value message)

theorem every_gather_dense [LinearOrder K] {L : ShardedLogits K} {tpGroup : Option ℕ}
    (hgroup : GroupOf L tpGroup) {cpSize : ℕ} (hcp : 0 < cpSize)
    (heven : cpSize = 1 ∨ cpSize * 2 ∣ L.S) (k : ℕ) {gi : Grid (List ℕ)} (hgi : gi.rows = L.B)
    (hle : gi.cols ≤ L.S) (hids : ∀ b < L.B, ∀ s < gi.cols, ∀ v ∈ gi.entry b s, v < L.vocab)
    (chunkSize : Option ℕ) {columns : List ℕ} (hcolumns : ∀ c ∈ columns, c < L.vocab)
    {argmax : List K → ℕ} (hargmax : IsArgmax argmax) {topk : List K → ℕ → List (K × ℕ)}
    (htopk : IsTopk topk) {rows : List (List K)} (hrows : ∀ row ∈ rows, row.length = L.vocab) :
    EveryGatherDense L tpGroup cpSize k gi chunkSize columns argmax topk rows where
  gather h _ hc _ ht := gatherLogits_dense hgroup hcp heven hgi hle hids k h.1 h.2 hc ht
  gather_rejected h _ hc tpRank _ := gatherLogits_rejected hcp heven h hc k tpRank
  gatherColumns rank hrank := ⟨(shape_gatherColumns columns rank).1,(shape_gatherColumns columns rank).2,
    fun _ hb _ hs => gatherColumns_dense hcolumns hrank hb hs⟩
  greatest h _ hrank := argmax_dense hargmax htopk h hrank
  greatest_rejected h rank _ := argmax_rejected h rank
  exchange h := exchange_back L.tp_pos h hrows
  exchange_rejected h := exchange_rejected h

/-- Four positions with two logits each. -/
def fourPositions : ShardedLogits ℚ where
  B := 1
  S := 4
  tp := 2
  vLocal := 1
  row _ s := [s,1]
  tp_pos := Nat.zero_lt_two
  vLocal_pos := Nat.zero_lt_one
  length_row _ _ _ _ := rfl

theorem every_gather_dense_fourPositions :
    EveryGatherDense fourPositions (some 2) 2 1 ⟨1,3,fun _ s => [s % 2]⟩ (some 1) [1,0,1]
      (fun row => ((topkLast row 1).map Prod.snd).headD 0) topkLast [[1,2],[3,4]] :=
  every_gather_dense (.inl rfl) Nat.zero_lt_two (.inr ⟨1,rfl⟩) 1 rfl (by decide)
    (fun _ _ s _ v hv => by
      rw [List.eq_of_mem_singleton hv]
      exact Nat.mod_lt s Nat.zero_lt_two) _ (by decide) topkLast_isArgmax topkLast_isTopk (by decide)

/-- One row cannot be shared by two ranks, and no sequence is read in steps of zero. -/
theorem exchange_of_one_row :
    (¬∃ whole, allToAllVp2sq 2 (fun r => [[(0 : ℚ),1]].map (part 1 r)) = .ok whole) ∧
      gatherLogitsAtGlobalIndices (some 2) 1 1 (fun c => (fourPositions.cpPart c 1).shard)
          ⟨1,4,fun _ _ => [0]⟩ (· * 1) (fun r => (r + 1) * 1) (some 0) 0 0 =
        .error (.value "range() arg 3 must not be zero") := by
  refine ⟨?_,rfl⟩
  rintro ⟨whole,hwhole⟩
  cases hwhole

end Logprob
end DockyardRL
