import DockyardRL.Lib.Fallible
import DockyardRL.Logprob.Layouts

/-! The rows of a rank after the exchange and the filter: the log-softmax over the kept tokens, the
values at the targets and the gradients.

The passes with top-k and top-p: all positions at once, and in chunks of the flat positions. -/
namespace DockyardRL
namespace Logprob

section

open Chunks Grid Softmax

variable {K : Type} [Field K] [LinearOrder K] {e : Exponential K} {tp vLocal m : ℕ} {row : List K}

theorem rowsBetween_eq_part {α : Type} (l : List α) (r m : ℕ) :
    rowsBetween l (r * m) ((r + 1) * m) = part m r l := by
  rw [rowsBetween,part,Nat.succ_mul,Nat.add_sub_cancel_left]

theorem logSoftmax_keptLogits (row : List K) (j : ℕ) :
    logSoftmax e (keptLogits row ((descending row).take j)) =
      (List.range row.length).map (logprobOn e row ((descending row).take j)) := by
  have hexp : ∀ v, e.expBot (if v ∈ (descending row).take j then ((row.getD v 0 : K) : WithBot K) else ⊥) =
      if v ∈ (descending row).take j then e.exp (row.getD v 0) else 0 := by
    intro v
    split_ifs <;> rfl
  have hnodup := nodup_descending row
  rw [← List.take_append_drop j (descending row)] at hnodup
  have hfront := sum_take_front (fun v => e.exp (row.getD v 0)) hnodup row.length
  rw [List.take_append_drop,List.take_of_length_le (length_descending row).le,take_take_descending,
    ← massOf,((descending_perm row).map _).sum_eq] at hfront
  rw [logSoftmax,keptLogits,List.map_map,List.map_map]
  simp only [Function.comp_def,hexp,hfront]
  refine List.map_congr_left fun v _ => ?_
  rw [logprobOn]
  split_ifs <;> rfl

theorem exists_keptTokens_eq (e : Exponential K) (k : ℕ) (p : K) (row : List K) :
    ∃ j, keptTokens e k p row = (descending row).take j :=
  ⟨_,(keptTokens_eq e k p row).trans (List.take_take)⟩

variable [IsStrictOrderedRing K]

section Items

variable {ι : Type} {items : List ι} {R : ι → List K} {topK : Option ℤ} {topP : K}
variable (htp : 0 < tp) (hv : 0 < vLocal) (hitems : items.length = tp * m)
variable (hR : ∀ i ∈ items, (R i).Nodup ∧ (R i).length = tp * vLocal)
variable (hk : ∀ k ∈ topK, k ≤ tp * vLocal) (hp0 : 0 < topP) (hp1 : topP ≤ 1)

variable (e topK topP) in
noncomputable def keptOf (row : List K) : List ℕ := keptTokens e (topCount topK row.length) topP row

include htp hv hitems hR hk hp0 hp1 in
theorem filteredRows_eq {x : ℕ → List (List K)}
    (hx : ∀ r < tp, x r = items.map fun i => part vLocal r (R i)) :
    ∃ rows, filteredRows e tp topK topP x = .ok rows ∧ ∀ d < tp,
      (rows d).logProbs = (part m d items).map (fun i =>
        (List.range (tp * vLocal)).map (logprobOn e (R i) (keptOf e topK topP (R i)))) ∧
      ((rows d).keepMask = none ∧ (∀ i ∈ part m d items, keptOf e topK topP (R i) = descending (R i)) ∨
        (rows d).keepMask = some ((part m d items).map fun i =>
          keptMask (R i) (keptOf e topK topP (R i)))) := by
  obtain ⟨out,hout,hrows⟩ := allToAllVp2sq_eq htp hitems (fun i hi => (hR i hi).2) hx
  refine ⟨_,by rw [filteredRows,hout]; rfl,fun d hd => ?_⟩
  have hlocal : ∀ row ∈ (part m d items).map R, row.Nodup ∧ row.length = tp * vLocal := by
    intro row hrow
    obtain ⟨i,hi,rfl⟩ := List.mem_map.mp hrow
    exact hR i (mem_of_mem_part hi)
  obtain ⟨hlogits,hmask⟩ := applyTopKTopP_eq (e := e) hp0 hp1 (Nat.mul_pos htp hv)
    (by exact_mod_cast hk) hlocal (show 0 < topKTopPChunkSize by decide)
  have hkept : ∀ i ∈ part m d items, keptTokens e (topCount topK (tp * vLocal)) topP (R i) =
      keptOf e topK topP (R i) := by
    intro i hi
    rw [keptOf,(hR i (mem_of_mem_part hi)).2]
  refine ⟨?_,?_⟩
  · show List.map _ (applyTopKTopP e topK topP topKTopPChunkSize (out d)).1 = _
    rw [hrows d hd,hlogits,List.map_map,List.map_map]
    refine List.map_congr_left fun i hi => ?_
    obtain ⟨j,hj⟩ := exists_keptTokens_eq e (topCount topK (tp * vLocal)) topP (R i)
    show logSoftmax e (keptLogits (R i) _) = _
    rw [← hkept i hi,hj,logSoftmax_keptLogits,(hR i (mem_of_mem_part hi)).2]
  · show (applyTopKTopP e topK topP topKTopPChunkSize (out d)).2 = none ∧ _ ∨
      (applyTopKTopP e topK topP topKTopPChunkSize (out d)).2 = _
    rw [hrows d hd]
    rcases hmask with ⟨hnone,hall⟩ | hsome
    · refine .inl ⟨hnone,fun i hi => ?_⟩
      rw [← hkept i hi]
      exact hall _ (List.mem_map_of_mem hi)
    · refine .inr ?_
      rw [hsome,List.map_map]
      refine congrArg some (List.map_congr_left fun i hi => ?_)
      rw [← hkept i hi]
      rfl

omit [IsStrictOrderedRing K] in
include hitems in
theorem allGather_gatherTargets {T : ι → ℕ} (hT : ∀ i ∈ items, T i < tp * vLocal)
    {logProbs : ℕ → List (List (WithBot K))}
    (hrows : ∀ d < tp, logProbs d = (part m d items).map fun i =>
      (List.range (tp * vLocal)).map (logprobOn e (R i) (keptOf e topK topP (R i)))) :
    (allGather tp fun r => gatherTargets (logProbs r) (part m r (items.map T))) =
      items.map fun i => logprobOn e (R i) (keptOf e topK topP (R i)) (T i) := by
  have hlocal : ∀ r < tp, gatherTargets (logProbs r) (part m r (items.map T)) =
      part m r (items.map fun i => logprobOn e (R i) (keptOf e topK topP (R i)) (T i)) := by
    intro r hr
    rw [hrows r hr,part_map,part_map,gatherTargets,List.zipWith_map,List.zipWith_self]
    refine List.map_congr_left fun i hi => ?_
    exact Exchange.getD_range_map _ _ (hT i (mem_of_mem_part hi))
  rw [allGather,List.flatMap_congr fun r hr => hlocal r (List.mem_range.mp hr)]
  exact flatMap_part (by rw [List.length_map,hitems])

end Items

theorem keptTokens_ne_nil {k : ℕ} (hk : 0 < k) {p : K} (hp0 : 0 < p) (hp1 : p ≤ 1)
    (hn : 0 < row.length) : keptTokens e k p row ≠ [] := by
  have hne := take_descending_ne_nil hk hn
  have hreach : 0 < reach (weights e row ((descending row).take k)) p := by
    rw [lt_reach_iff (fun x hx => (weights_pos x hx).le) (by rwa [sum_weights hne])]
    simpa using hp0
  rw [keptTokens_eq]
  exact fun hnil => hne (by simpa [hreach.ne'] using hnil)

section Gradient

variable {ι : Type} {l : List ι} {R : ι → List K} {kept : ι → List ℕ} {n : ℕ}

theorem expBot_logprobOn {tokens : List ℕ} (h : tokens ≠ []) (row : List K) (v : ℕ) :
    e.expBot (logprobOn e row tokens v) =
      if v ∈ tokens then e.exp (row.getD v 0) / massOf e row tokens else 0 := by
  rw [logprobOn]
  split_ifs
  · exact e.exp_sub_log _ (massOf_pos e row h)
  · rfl

theorem localGradient_eq (hl : ∀ i ∈ l, (R i).length = n) (hkept : ∀ i ∈ l, kept i ≠ []) (T : ι → ℕ)
    (G : ι → K) {keepMask : Option (List (List Bool))}
    (hmask : (keepMask = none ∧ ∀ i ∈ l, ∀ v < n, v ∈ kept i) ∨
      keepMask = some (l.map fun i => keptMask (R i) (kept i))) :
    localGradient ((l.map fun i => (List.range n).map (logprobOn e (R i) (kept i))).map fun row =>
        row.map e.expBot) (l.map T) keepMask (l.map G) =
      l.map fun i => gradOn e (R i) (kept i) (T i) (G i) := by
  have hsoftmax : ((l.map fun i => (List.range n).map (logprobOn e (R i) (kept i))).map fun row =>
      row.map e.expBot) = l.map fun i => (List.range n).map fun v =>
        if v ∈ kept i then e.exp ((R i).getD v 0) / massOf e (R i) (kept i) else 0 := by
    rw [List.map_map]
    refine List.map_congr_left fun i hi => ?_
    rw [Function.comp_apply,List.map_map]
    exact List.map_congr_left fun v _ => expBot_logprobOn (hkept i hi) (R i) v
  have hones : (l.map T).map (fun t => oneHot (K := K) t (((l.map fun i => (List.range n).map fun v =>
      if v ∈ kept i then e.exp ((R i).getD v 0) / massOf e (R i) (kept i) else 0).headD []).length)) =
      l.map fun i => (List.range n).map fun v => if v = T i then 1 else 0 := by
    cases l with
    | nil => rfl
    | cons i l =>
      have hwidth : (((i :: l).map fun i => (List.range n).map fun v => if v ∈ kept i
          then e.exp ((R i).getD v 0) / massOf e (R i) (kept i) else 0).headD []).length = n := by
        rw [List.map_cons,List.headD_cons,List.length_map,List.length_range]
      rw [hwidth,List.map_map]
      rfl
  rw [hsoftmax]
  unfold localGradient
  dsimp only
  rw [hones,List.zipWith_map,List.zipWith_self,List.zipWith_map,List.zipWith_self]
  rcases hmask with ⟨rfl,hall⟩ | rfl
  · refine List.map_congr_left fun i hi => ?_
    rw [List.zipWith_map,List.zipWith_self,List.map_map,gradOn,hl i hi]
    refine List.map_congr_left fun v hv => ?_
    have hv := hall i hi v (List.mem_range.mp hv)
    rw [Function.comp_apply,gradAt,if_pos hv,if_pos hv]
  · show List.zipWith _ _ _ = _
    rw [List.zipWith_map,List.zipWith_self]
    refine List.map_congr_left fun i hi => ?_
    rw [List.zipWith_map,List.zipWith_self,List.map_map,keptMask,hl i hi,List.zipWith_map,
      List.zipWith_self,gradOn,hl i hi]
    refine List.map_congr_left fun v _ => ?_
    rw [Function.comp_apply,gradAt]
    by_cases hv : v ∈ kept i
    · rw [if_pos hv,if_pos hv,decide_eq_true hv,if_pos rfl,mul_one]
    · rw [if_neg hv,if_neg hv,decide_eq_false hv,if_neg Bool.false_ne_true,mul_zero]

end Gradient

section Passes

variable {ι : Type} {items : List ι} {R : ι → List K} {T : ι → ℕ} {topK : Option ℤ} {topP : K}

theorem sampled_rows (htp : 0 < tp) (hv : 0 < vLocal) (hitems : items.length = tp * m)
    (hR : ∀ i ∈ items, (R i).Nodup ∧ (R i).length = tp * vLocal)
    (hT : ∀ i ∈ items, T i < tp * vLocal) (hk : ∀ k ∈ topK, k ≤ tp * vLocal) (hp0 : 0 < topP)
    (hp1 : topP ≤ 1) (G : ι → K) {x : ℕ → List (List K)}
    (hx : ∀ r < tp, x r = items.map fun i => part vLocal r (R i)) :
    ∃ rows, filteredRows e tp topK topP x = .ok rows ∧
      (allGather tp fun r => gatherTargets (rows r).logProbs (part m r (items.map T))) =
        items.map (fun i => logprobOn e (R i) (keptOf e topK topP (R i)) (T i)) ∧
      ∃ grads, allToAllSq2vp tp (fun r => localGradient
          ((rows r).logProbs.map fun row => row.map e.expBot) (part m r (items.map T)) (rows r).keepMask
          (part m r (items.map G))) = .ok grads ∧
        ∀ r < tp, grads r = items.map fun i =>
          part vLocal r (gradOn e (R i) (keptOf e topK topP (R i)) (T i) (G i)) := by
  obtain ⟨rows,hrows,hlocal⟩ := filteredRows_eq (e := e) htp hv hitems hR hk hp0 hp1 hx
  refine ⟨rows,hrows,allGather_gatherTargets hitems hT fun d hd => (hlocal d hd).1,?_⟩
  refine allToAllSq2vp_eq htp hitems (fun i hi => ?_) fun d hd => ?_
  · rw [gradOn,List.length_map,List.length_range,(hR i hi).2]
  · obtain ⟨hlogProbs,hmask⟩ := hlocal d hd
    have hpart : ∀ i ∈ part m d items, (R i).Nodup ∧ (R i).length = tp * vLocal := fun i hi =>
      hR i (mem_of_mem_part hi)
    rw [hlogProbs,part_map,part_map]
    refine localGradient_eq (fun i hi => (hpart i hi).2) (fun i hi => ?_) T G ?_
    · have hn : 0 < (R i).length := by
        rw [(hpart i hi).2]
        exact Nat.mul_pos htp hv
      exact keptTokens_ne_nil (topCount_pos topK hn) hp0 hp1 hn
    · refine hmask.imp (fun h => ⟨h.1,fun i hi v hlt => ?_⟩) id
      rw [h.2 i hi,(descending_perm (R i)).mem_iff,(hpart i hi).2]
      exact List.mem_range.mpr hlt

end Passes

end

open Chunks Grid Softmax

variable {K : Type} [Field K] [LinearOrder K] [IsStrictOrderedRing K] {e : Exponential K} {L : Logits K}
variable {target : ℕ → ℕ → ℕ} {topK : Option ℤ} {topP : K}

variable (e L target topK topP) in
noncomputable def keptLogprob (b s : ℕ) : WithBot K :=
  logprobOn e (L.row b s) (keptOf e topK topP (L.row b s)) (target b s)

variable (e L target topK topP) in
/-- The gradient of `g` times that value. -/
noncomputable def keptGradient (g : ℕ → ℕ → K) (b s : ℕ) : List K :=
  gradOn e (L.row b s) (keptOf e topK topP (L.row b s)) (target b s) (g b s)

section Passes

variable (ht : ∀ b < L.B, ∀ s < L.S, target b s < L.vocab) (hk : ∀ k ∈ topK, k ≤ L.vocab)
variable (hp0 : 0 < topP) (hp1 : topP ≤ 1)

include ht hk hp0 hp1

theorem sampled_positions {items : List (ℕ × ℕ)} (hitems : ∀ p ∈ items, p ∈ positions L.B L.S) {m : ℕ}
    (hlength : items.length = L.tp * m) (g : ℕ → ℕ → K) {x : ℕ → List (List K)}
    (hx : ∀ r < L.tp, x r = items.map fun p => part L.vLocal r (L.row p.1 p.2)) :
    ∃ rows, filteredRows e L.tp topK topP x = .ok rows ∧
      (allGather L.tp fun r => gatherTargets (rows r).logProbs
        (part m r (items.map fun p => target p.1 p.2))) =
          items.map (fun p => keptLogprob e L target topK topP p.1 p.2) ∧
      ∃ grads, allToAllSq2vp L.tp (fun r => localGradient
          ((rows r).logProbs.map fun row => row.map e.expBot)
          (part m r (items.map fun p => target p.1 p.2)) (rows r).keepMask
          (part m r (items.map fun p => g p.1 p.2))) = .ok grads ∧
        ∀ r < L.tp, grads r = items.map fun p =>
          part L.vLocal r (keptGradient e L target topK topP g p.1 p.2) :=
  sampled_rows L.tp_pos L.vLocal_pos hlength
    (fun p hp => have hp := mem_positions.mp (hitems p hp)
      ⟨L.nodup_row _ hp.1 _ hp.2,L.length_row _ hp.1 _ hp.2⟩)
    (fun p hp => have hp := mem_positions.mp (hitems p hp)
      ht _ hp.1 _ hp.2) hk hp0 hp1 _ hx

theorem sampling_passes (hdvd : L.tp ∣ L.B * L.S) (g : ℕ → ℕ → K) :
    ∃ out saved, (∀ inferenceOnly, DistributedLogprobWithSampling.forward e L.tp L.shard (L.grid target)
        topK topP inferenceOnly = .ok (out,fun r => if inferenceOnly then none else some (saved r))) ∧
      out.rows = L.B ∧ out.cols = L.S ∧
      (∀ b < L.B, ∀ s < L.S, out.entry b s = keptLogprob e L target topK topP b s) ∧
      ∃ grads, DistributedLogprobWithSampling.backward L.tp saved (L.grid g) = .ok grads ∧
        ∀ r < L.tp, (grads r).rows = L.B ∧ (grads r).cols = L.S ∧ ∀ b < L.B, ∀ s < L.S,
          (grads r).entry b s = part L.vLocal r (keptGradient e L target topK topP g b s) := by
  have hlength : (positions L.B L.S).length = L.tp * (L.B * L.S / L.tp) := by
    rw [length_positions,Nat.mul_div_cancel' hdvd]
  obtain ⟨rows,hrows,hvalues,grads,hgrads,hlocal⟩ := sampled_positions (e := e) ht hk hp0 hp1
    (fun _ h => h) hlength g (x := fun r => (L.shard r).flatten) fun _ _ => rfl
  have hok : require (decide (L.B * L.S % L.tp = 0)) (indivisible (L.B * L.S) L.tp) = .ok () :=
    if_pos (decide_eq_true (Nat.mod_eq_zero_of_dvd hdvd))
  refine ⟨view L.B L.S ⊥ ((positions L.B L.S).map fun p => keptLogprob e L target topK topP p.1 p.2),
    fun r => ⟨(rows r).logProbs.map fun row => row.map e.expBot,
      part (L.B * L.S / L.tp) r ((positions L.B L.S).map fun p => target p.1 p.2),(rows r).keepMask,
      L.B * L.S / L.tp,L.B,L.S⟩,fun inferenceOnly => ?_,rfl,rfl,fun b hb s hs => ?_,
    fun r => view L.B L.S [] (grads r),?_,fun r hr => ⟨rfl,rfl,fun b hb s hs => ?_⟩⟩
  · rw [DistributedLogprobWithSampling.forward]
    show (require (decide (L.B * L.S % L.tp = 0)) (indivisible (L.B * L.S) L.tp) >>= _) = _
    rw [hok]
    show (filteredRows e L.tp topK topP (fun r => (L.shard r).flatten) >>= _) = _
    rw [hrows,← hvalues]
    simp only [rowsBetween_eq_part]
    rfl
  · exact view_map hb hs (fun p => keptLogprob e L target topK topP p.1 p.2) ⊥
  · rw [DistributedLogprobWithSampling.backward]
    simp only [rowsBetween_eq_part]
    refine (congrArg (· >>= _) hgrads).trans ?_
    rfl
  · show (view L.B L.S [] (grads r)).entry b s = _
    rw [hlocal r hr]
    exact view_map hb hs (fun p => part L.vLocal r (keptGradient e L target topK topP g p.1 p.2)) []

omit [Field K] [LinearOrder K] [IsStrictOrderedRing K] ht hk hp0 hp1 in
theorem rowsBetween_map {α β : Type} (f : α → β) (l : List α) (start stop : ℕ) :
    rowsBetween (l.map f) start stop = (rowsBetween l start stop).map f := by
  rw [rowsBetween,rowsBetween,← List.map_drop,← List.map_take]

omit [Field K] [LinearOrder K] [IsStrictOrderedRing K] ht hk hp0 hp1 in
theorem rowsBetween_chunk {α : Type} (l : List α) (c k : ℕ) :
    rowsBetween l (c * k) (min l.length ((c + 1) * k)) = (l.drop (c * k)).take k := by
  rw [rowsBetween,Nat.succ_mul]
  rcases Nat.le_total l.length (c * k + k) with hle | hge
  · rw [Nat.min_eq_left hle,List.take_of_length_le (by simp),
      List.take_of_length_le (by rw [List.length_drop]; omega)]
  · rw [Nat.min_eq_right hge,Nat.add_sub_cancel_left]

omit [Field K] [LinearOrder K] [IsStrictOrderedRing K] ht hk hp0 hp1 in
theorem flatMap_chunks {α β : Type} {k : ℕ} (hk : 0 < k) (l : List α) (f : α → β) :
    ((List.range (rangeSteps l.length k)).flatMap fun c =>
      (rowsBetween l (c * k) (min l.length ((c + 1) * k))).map f) = l.map f := by
  have hall := congrArg (List.map f) (flatten_chunks hk l)
  rw [chunks,← List.flatMap_def,List.map_flatMap] at hall
  rw [← hall]
  exact List.flatMap_congr fun c _ => by rw [rowsBetween_chunk]

omit [Field K] [LinearOrder K] [IsStrictOrderedRing K] ht hk hp0 hp1 in
theorem mem_of_mem_rowsBetween {α : Type} {l : List α} {start stop : ℕ} {x : α}
    (h : x ∈ rowsBetween l start stop) : x ∈ l :=
  List.mem_of_mem_drop (List.mem_of_mem_take h)

omit [Field K] [LinearOrder K] [IsStrictOrderedRing K] ht hk hp0 hp1 in
theorem length_chunk {chunkSize : ℕ} (hdvd : L.tp ∣ L.B * L.S) (hchunk : L.tp ∣ chunkSize * L.B) (c : ℕ) :
    (rowsBetween (positions L.B L.S) (c * (chunkSize * L.B))
      (min (L.B * L.S) ((c + 1) * (chunkSize * L.B)))).length =
      L.tp * ((min (L.B * L.S) ((c + 1) * (chunkSize * L.B)) - c * (chunkSize * L.B)) / L.tp) := by
  have hstop : L.tp ∣ min (L.B * L.S) ((c + 1) * (chunkSize * L.B)) := by
    rcases Nat.le_total (L.B * L.S) ((c + 1) * (chunkSize * L.B)) with hle | hge
    · rwa [Nat.min_eq_left hle]
    · rw [Nat.min_eq_right hge]
      exact hchunk.mul_left _
  rw [Nat.mul_div_cancel' (Nat.dvd_sub hstop (hchunk.mul_left _)),rowsBetween,List.length_take,
    List.length_drop,length_positions]
  omega

theorem sampling_chunk {chunkSize : ℕ} (hdvd : L.tp ∣ L.B * L.S) (hchunk : L.tp ∣ chunkSize * L.B)
    (g : ℕ → ℕ → K) (c : ℕ) :
    ChunkedDistributedLogprobWithSampling.forwardChunk e L.tp (fun r => (L.shard r).flatten)
        (L.grid target).flatten topK topP (c * (chunkSize * L.B))
        (min (L.B * L.S) ((c + 1) * (chunkSize * L.B))) =
      .ok ((rowsBetween (positions L.B L.S) (c * (chunkSize * L.B))
        (min (L.B * L.S) ((c + 1) * (chunkSize * L.B)))).map fun p =>
          keptLogprob e L target topK topP p.1 p.2) ∧
    ∃ grads, ChunkedDistributedLogprobWithSampling.backwardChunk e L.tp (fun r => (L.shard r).flatten)
        (L.grid target).flatten topK topP (L.grid g).flatten (c * (chunkSize * L.B))
        (min (L.B * L.S) ((c + 1) * (chunkSize * L.B))) = .ok grads ∧
      ∀ r < L.tp, grads r = (rowsBetween (positions L.B L.S) (c * (chunkSize * L.B))
        (min (L.B * L.S) ((c + 1) * (chunkSize * L.B)))).map fun p =>
          part L.vLocal r (keptGradient e L target topK topP g p.1 p.2) := by
  obtain ⟨rows,hrows,hvalues,grads,hgrads,hlocal⟩ := sampled_positions (e := e) ht hk hp0 hp1
    (fun p hp => mem_of_mem_rowsBetween hp)
    (length_chunk hdvd hchunk c) g (x := fun r => rowsBetween (L.shard r).flatten
      (c * (chunkSize * L.B)) (min (L.B * L.S) ((c + 1) * (chunkSize * L.B))))
    fun r _ => rowsBetween_map _ _ _ _
  refine ⟨?_,grads,?_,hlocal⟩
  · rw [ChunkedDistributedLogprobWithSampling.forwardChunk]
    dsimp only
    rw [hrows,← hvalues]
    simp only [rowsBetween_eq_part,Grid.flatten,rowsBetween_map]
    rfl
  · rw [ChunkedDistributedLogprobWithSampling.backwardChunk]
    dsimp only
    rw [hrows,← hgrads]
    simp only [rowsBetween_eq_part,Grid.flatten,rowsBetween_map]
    rfl

omit [Field K] [LinearOrder K] [IsStrictOrderedRing K] ht hk hp0 hp1 in
theorem chunks_cover {chunkSize : ℕ} (hk : 0 < chunkSize * L.B) {β : Type} (f : ℕ × ℕ → β) :
    ((List.range (rangeSteps (L.B * L.S) (chunkSize * L.B))).flatMap fun c =>
      (rowsBetween (positions L.B L.S) (c * (chunkSize * L.B))
        (min (L.B * L.S) ((c + 1) * (chunkSize * L.B)))).map f) = (positions L.B L.S).map f := by
  have hall := flatMap_chunks hk (positions L.B L.S) f
  rwa [length_positions] at hall

omit ht hk hp0 hp1 in
theorem catFlat_range {α : Type} {n : ℕ} (hn : 0 < n) (f : ℕ → List α) :
    ChunkedDistributedLogprobWithSampling.catFlat ((List.range n).map f) = .ok ((List.range n).flatMap f) := by
  obtain ⟨k,rfl⟩ := Nat.exists_eq_succ_of_ne_zero hn.ne'
  rw [List.flatMap_def,List.range_succ_eq_map]
  rfl

omit ht hk hp0 hp1 in
theorem catRanks_range {α : Type} {n : ℕ} (hn : 0 < n) (f : ℕ → ℕ → List α) :
    ChunkedDistributedLogprobWithSampling.catRanks ((List.range n).map f) =
      .ok fun r => (List.range n).flatMap fun c => f c r := by
  obtain ⟨k,rfl⟩ := Nat.exists_eq_succ_of_ne_zero hn.ne'
  have hranks : (fun r => (List.range (k + 1)).flatMap fun c => f c r) =
      fun r => ((List.range (k + 1)).map f).flatMap fun chunk => chunk r := by
    funext r
    rw [List.flatMap_map]
  rw [Nat.succ_eq_add_one,hranks,List.range_succ_eq_map]
  rfl

theorem chunkedSampling_forward {chunkSize : ℕ} (hc : 0 < chunkSize) (hBS : 0 < L.B * L.S)
    (hdvd : L.tp ∣ L.B * L.S) (hchunk : L.tp ∣ chunkSize * L.B) (inferenceOnly : Bool) :
    ChunkedDistributedLogprobWithSampling.forward e L.tp L.shard (L.grid target) topK topP chunkSize
      inferenceOnly = .ok (view L.B L.S ⊥ ((positions L.B L.S).map fun p =>
        keptLogprob e L target topK topP p.1 p.2),fun r => if inferenceOnly then none
          else some ⟨L.shard r,L.grid target,topK,topP,chunkSize⟩) := by
  have hk' : 0 < chunkSize * L.B := Nat.mul_pos hc (Nat.pos_of_mul_pos_right hBS)
  have hmap := Fallible.mapM_ok (l := List.range (rangeSteps (L.B * L.S) (chunkSize * L.B))) fun c _ =>
    (sampling_chunk (e := e) ht hk hp0 hp1 hdvd hchunk (fun _ _ => 0) c).1
  have hrows : (L.shard 0).rows = L.B := rfl
  have hcols : (L.shard 0).cols = L.S := rfl
  rw [ChunkedDistributedLogprobWithSampling.forward]
  simp only [hrows,hcols]
  rw [require,if_pos (decide_eq_true (Nat.mod_eq_zero_of_dvd hdvd)),require,
    if_pos (decide_eq_true (Nat.mod_eq_zero_of_dvd hchunk)),numChunks,if_neg hk'.ne']
  show (((List.range (rangeSteps (L.B * L.S) (chunkSize * L.B))).mapM _ : Except Raised _) >>= _) = _
  rw [hmap]
  show (ChunkedDistributedLogprobWithSampling.catFlat _ >>= _) = _
  rw [catFlat_range (rangeSteps_bounds hBS hk').1,chunks_cover hk']
  rfl

theorem chunkedSampling_backward {chunkSize : ℕ} (hc : 0 < chunkSize) (hBS : 0 < L.B * L.S)
    (hdvd : L.tp ∣ L.B * L.S) (hchunk : L.tp ∣ chunkSize * L.B) (g : ℕ → ℕ → K) :
    ∃ grads, ChunkedDistributedLogprobWithSampling.backward e L.tp
        (fun r => ⟨L.shard r,L.grid target,topK,topP,chunkSize⟩) (L.grid g) = .ok grads ∧
      ∀ r < L.tp, (grads r).rows = L.B ∧ (grads r).cols = L.S ∧ ∀ b < L.B, ∀ s < L.S,
        (grads r).entry b s = part L.vLocal r (keptGradient e L target topK topP g b s) := by
  have hk' : 0 < chunkSize * L.B := Nat.mul_pos hc (Nat.pos_of_mul_pos_right hBS)
  choose grads hgrads hlocal using fun c =>
    (sampling_chunk (e := e) ht hk hp0 hp1 hdvd hchunk g c).2
  have hmap := Fallible.mapM_ok (l := List.range (rangeSteps (L.B * L.S) (chunkSize * L.B))) fun c _ =>
    hgrads c
  refine ⟨fun r => view L.B L.S [] ((List.range (rangeSteps (L.B * L.S) (chunkSize * L.B))).flatMap
    fun c => grads c r),?_,fun r hr => ⟨rfl,rfl,fun b hb s hs => ?_⟩⟩
  · have hrows : (L.shard 0).rows = L.B := rfl
    have hcols : (L.shard 0).cols = L.S := rfl
    rw [ChunkedDistributedLogprobWithSampling.backward]
    simp only [hrows,hcols]
    rw [numChunks,if_neg hk'.ne']
    show (((List.range (rangeSteps (L.B * L.S) (chunkSize * L.B))).mapM _ : Except Raised _) >>= _) = _
    rw [hmap]
    show (ChunkedDistributedLogprobWithSampling.catRanks _ >>= _) = _
    rw [catRanks_range (rangeSteps_bounds hBS hk').1]
    rfl
  · have hrank : ((List.range (rangeSteps (L.B * L.S) (chunkSize * L.B))).flatMap fun c => grads c r) =
        (positions L.B L.S).map fun p => part L.vLocal r (keptGradient e L target topK topP g p.1 p.2) := by
      rw [← chunks_cover hk']
      exact List.flatMap_congr fun c _ => hlocal c r hr
    dsimp only
    rw [hrank]
    exact view_map hb hs (fun p => part L.vLocal r (keptGradient e L target topK topP g p.1 p.2)) []

end Passes

section Rejected

omit [IsStrictOrderedRing K] in
theorem sampling_rejected (h : ¬L.tp ∣ L.B * L.S) (inferenceOnly : Bool) :
    DistributedLogprobWithSampling.forward e L.tp L.shard (L.grid target) topK topP inferenceOnly =
      .error (.value (indivisible (L.B * L.S) L.tp)) := by
  have hrows : (L.shard 0).rows = L.B := rfl
  have hcols : (L.shard 0).cols = L.S := rfl
  rw [DistributedLogprobWithSampling.forward]
  simp only [hrows,hcols]
  rw [require,if_neg (by simpa [Nat.dvd_iff_mod_eq_zero] using h)]
  rfl

omit [IsStrictOrderedRing K] in
theorem chunkedSampling_rejected {chunkSize : ℕ} (h : ¬(0 < chunkSize ∧ 0 < L.B * L.S ∧
    L.tp ∣ L.B * L.S ∧ L.tp ∣ chunkSize * L.B)) (inferenceOnly : Bool) :
    ∃ error, ChunkedDistributedLogprobWithSampling.forward e L.tp L.shard (L.grid target) topK topP
      chunkSize inferenceOnly = .error error := by
  have hrows : (L.shard 0).rows = L.B := rfl
  have hcols : (L.shard 0).cols = L.S := rfl
  rw [ChunkedDistributedLogprobWithSampling.forward]
  simp only [hrows,hcols]
  by_cases hdvd : L.tp ∣ L.B * L.S
  swap
  · exact ⟨_,by rw [require,if_neg (by simpa [Nat.dvd_iff_mod_eq_zero] using hdvd)]; rfl⟩
  rw [require,if_pos (decide_eq_true (Nat.mod_eq_zero_of_dvd hdvd))]
  by_cases hchunk : L.tp ∣ chunkSize * L.B
  swap
  · exact ⟨_,by rw [require,if_neg (by simpa [Nat.dvd_iff_mod_eq_zero] using hchunk)]; rfl⟩
  rw [require,if_pos (decide_eq_true (Nat.mod_eq_zero_of_dvd hchunk))]
  by_cases hzero : chunkSize * L.B = 0
  · exact ⟨_,by rw [numChunks,if_pos hzero]; rfl⟩
  have hempty : L.B * L.S = 0 := by
    by_contra hBS
    refine h ⟨Nat.pos_of_ne_zero fun hc => hzero ?_,Nat.pos_of_ne_zero hBS,hdvd,hchunk⟩
    rw [hc,Nat.zero_mul]
  exact ⟨_,by rw [numChunks,if_neg hzero,hempty,rangeSteps_zero (Nat.pos_of_ne_zero hzero)]; rfl⟩

end Rejected

end Logprob
end DockyardRL
