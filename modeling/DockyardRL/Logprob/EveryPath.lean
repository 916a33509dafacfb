import DockyardRL.Logprob.SampledRows
import DockyardRL.Logprob.VocabChunks
import Mathlib.Analysis.SpecialFunctions.Log.Basic

/-! Every path computes the log-softmax of whole rows over the tokens it keeps, and its gradient. -/
namespace DockyardRL
namespace Logprob

open Grid Softmax

variable {K : Type} [Field K] [LinearOrder K]

/-- A forward and a backward pass give these values and these gradients: every rank holds all values,
and its part of the gradients. -/
def Computes (L : Logits K) {β γ σ : Type} (read : β → γ)
    (forward : Bool → Except Raised (Grid β × (ℕ → Option σ)))
    (backward : (ℕ → σ) → Except Raised (ℕ → Grid (List K))) (values : ℕ → ℕ → γ)
    (gradient : ℕ → ℕ → List K) : Prop :=
  ∃ out saved, (∀ inferenceOnly, forward inferenceOnly =
      .ok (out,fun r => if inferenceOnly then none else some (saved r))) ∧
    out.rows = L.B ∧ out.cols = L.S ∧ (∀ b < L.B, ∀ s < L.S, read (out.entry b s) = values b s) ∧
    ∃ grads, backward saved = .ok grads ∧ ∀ r < L.tp, (grads r).rows = L.B ∧ (grads r).cols = L.S ∧
      ∀ b < L.B, ∀ s < L.S, (grads r).entry b s = part L.vLocal r (gradient b s)

variable {e : Exponential K} {L : Logits K}

theorem coe_dense {b s t : ℕ} (hb : b < L.B) (hs : s < L.S) (ht : t < L.vocab) :
    (((L.row b s).getD t 0 - e.log (e.total (L.row b s)) : K) : WithBot K) =
      logprobOn e (L.row b s) (List.range L.vocab) t := by
  have hlength : (L.row b s).length = L.vocab := L.length_row b hb s hs
  rw [logprobOn,if_pos (List.mem_range.mpr ht),← hlength,massOf_range]

variable [IsStrictOrderedRing K]

section Targets

variable {target : ℕ → ℕ → ℕ} (ht : ∀ b < L.B, ∀ s < L.S, target b s < L.vocab) (g : ℕ → ℕ → K)

include ht

theorem distributedLogprob_computes :
    Computes L (fun x : K => (x : WithBot K))
      (fun inferenceOnly => .ok (DistributedLogprob.forward e L.tp L.shard (L.grid target)
        L.vocabStartIndex L.vocabEndIndex inferenceOnly))
      (fun saved => .ok fun r => DistributedLogprob.backward (saved r) (L.grid g))
      (fun b s => logprobOn e (L.row b s) (List.range L.vocab) (target b s))
      fun b s => gradOn e (L.row b s) (List.range L.vocab) (target b s) (g b s) := by
  refine ⟨_,_,fun inferenceOnly => rfl,rfl,rfl,fun b hb s hs => ?_,_,rfl,
    fun r hr => ⟨rfl,rfl,fun b hb s hs => ?_⟩⟩
  · exact (congrArg (fun x : K => (x : WithBot K))
      (distributedLogprob_forward (e := e) false hb hs (ht b hb s hs))).trans
        (coe_dense hb hs (ht b hb s hs))
  · have hlength : (L.row b s).length = L.vocab := L.length_row b hb s hs
    have hgradient := distributedLogprob_gradient (e := e) hb hs hr target g
    rw [hlength] at hgradient
    exact hgradient

theorem chunkedLogprob_computes {chunkSize : ℕ} (hc : 0 < chunkSize) (hS : 0 < L.S) :
    Computes L (fun x : K => (x : WithBot K))
      (fun inferenceOnly => ChunkedDistributedLogprob.forward e L.tp L.shard (L.grid target)
        L.vocabStartIndex L.vocabEndIndex chunkSize inferenceOnly)
      (fun saved => ChunkedDistributedLogprob.backward e L.tp saved (L.grid g))
      (fun b s => logprobOn e (L.row b s) (List.range L.vocab) (target b s))
      fun b s => gradOn e (L.row b s) (List.range L.vocab) (target b s) (g b s) := by
  obtain ⟨out,hout,hrows,hcols,hvalues⟩ := chunkedLogprob_forward (e := e) ht hc hS
  obtain ⟨grads,hgrads,hlocal⟩ := chunkedLogprob_backward (e := e) hc hS target g
  refine ⟨out,_,hout,hrows,hcols,fun b hb s hs => ?_,grads,hgrads,fun r hr => ?_⟩
  · rw [hvalues b hb s hs]
    exact coe_dense hb hs (ht b hb s hs)
  · obtain ⟨hr1,hr2,hentry⟩ := hlocal r hr
    refine ⟨hr1,hr2,fun b hb s hs => ?_⟩
    have hlength : (L.row b s).length = L.vocab := L.length_row b hb s hs
    rw [hentry b hb s hs,hlength]

end Targets

theorem gatherLogprob_computes {indices : ℕ → ℕ → List ℕ}
    (hi : ∀ b < L.B, ∀ s < L.S, ∀ v ∈ indices b s, v < L.vocab) {gs : ℕ → ℕ → List K}
    (hg : ∀ b < L.B, ∀ s < L.S, (gs b s).length = (indices b s).length) {chunkSize : ℕ}
    (hc : 0 < chunkSize) (hS : 0 < L.S) :
    Computes L finite
      (fun inferenceOnly => ChunkedDistributedGatherLogprob.forward e L.tp L.shard (L.grid indices)
        L.vocabStartIndex L.vocabEndIndex chunkSize inferenceOnly)
      (fun saved => ChunkedDistributedGatherLogprob.backward e L.tp saved (L.grid gs))
      (fun b s => (indices b s).map fun t => logprobOn e (L.row b s) (List.range L.vocab) t)
      fun b s => gradsOn e (L.row b s) (List.range L.vocab) (indices b s) (gs b s) := by
  obtain ⟨out,hout,hrows,hcols,hvalues⟩ := gatherLogprob_forward (e := e) hi hc hS
  obtain ⟨grads,hgrads,hlocal⟩ := gatherLogprob_backward (e := e) hc hS hg
  refine ⟨out,_,hout,hrows,hcols,fun b hb s hs => ?_,grads,hgrads,fun r hr => ?_⟩
  · rw [hvalues b hb s hs,denseLogprobs,finite,List.map_map]
    exact List.map_congr_left fun t ht => coe_dense hb hs (hi b hb s hs t ht)
  · obtain ⟨hr1,hr2,hentry⟩ := hlocal r hr
    refine ⟨hr1,hr2,fun b hb s hs => ?_⟩
    have hlength : (L.row b s).length = L.vocab := L.length_row b hb s hs
    rw [hentry b hb s hs,hlength]

theorem filters_agree {row : List K} (h : row.Nodup) (hn : 0 < row.length) :
    (∀ k : ℕ, 0 < k → k ≤ row.length →
      applyTopKOnly k row = (keptLogits row (keptTokens e k 1 row),keptMask row (keptTokens e k 1 row)) ∧
        applySorted e (some k) 1 row = applyTopKOnly k row) ∧
      (keptOf e none 1 row).Perm (List.range row.length) := by
  refine ⟨fun k hk hkn => ?_,?_⟩
  · have honly := applyTopKOnly_eq hk hkn h
    rw [← keptTokens_one e hk hn] at honly
    have hcount : topCount (some (k : ℤ)) row.length = k := if_pos (by exact_mod_cast hk)
    have hle : ∀ j ∈ some (k : ℤ), j ≤ row.length := by
      rintro j ⟨⟩
      exact_mod_cast hkn
    have hsorted := applySorted_eq (e := e) one_pos le_rfl h hle hn
    rw [hcount] at hsorted
    exact ⟨honly,hsorted.trans honly.symm⟩
  · rw [keptOf,topCount,keptTokens_one e hn hn,List.take_of_length_le (length_descending row).le]
    exact descending_perm row

/-- What every path gives: values and gradients over the kept tokens where its sizes are accepted, and
an exception where they are not. -/
structure EveryPathDense (e : Exponential K) (L : Logits K) (target : ℕ → ℕ → ℕ) (g : ℕ → ℕ → K)
    (indices : ℕ → ℕ → List ℕ) (gs : ℕ → ℕ → List K) (topK : Option ℤ) (topP : K) (chunkSize : ℕ) :
    Prop where
  plain : Computes L (fun x : K => (x : WithBot K))
    (fun inferenceOnly => .ok (DistributedLogprob.forward e L.tp L.shard (L.grid target)
      L.vocabStartIndex L.vocabEndIndex inferenceOnly))
    (fun saved => .ok fun r => DistributedLogprob.backward (saved r) (L.grid g))
    (fun b s => logprobOn e (L.row b s) (List.range L.vocab) (target b s))
    fun b s => gradOn e (L.row b s) (List.range L.vocab) (target b s) (g b s)
  chunked : 0 < chunkSize ∧ 0 < L.S → Computes L (fun x : K => (x : WithBot K))
    (fun inferenceOnly => ChunkedDistributedLogprob.forward e L.tp L.shard (L.grid target)
      L.vocabStartIndex L.vocabEndIndex chunkSize inferenceOnly)
    (fun saved => ChunkedDistributedLogprob.backward e L.tp saved (L.grid g))
    (fun b s => logprobOn e (L.row b s) (List.range L.vocab) (target b s))
    fun b s => gradOn e (L.row b s) (List.range L.vocab) (target b s) (g b s)
  chunked_rejected : ¬(0 < chunkSize ∧ 0 < L.S) → ∀ inferenceOnly, ∃ error,
    ChunkedDistributedLogprob.forward e L.tp L.shard (L.grid target) L.vocabStartIndex L.vocabEndIndex
      chunkSize inferenceOnly = .error error
  gather : 0 < chunkSize ∧ 0 < L.S → Computes L finite
    (fun inferenceOnly => ChunkedDistributedGatherLogprob.forward e L.tp L.shard (L.grid indices)
      L.vocabStartIndex L.vocabEndIndex chunkSize inferenceOnly)
    (fun saved => ChunkedDistributedGatherLogprob.backward e L.tp saved (L.grid gs))
    (fun b s => (indices b s).map fun t => logprobOn e (L.row b s) (List.range L.vocab) t)
    fun b s => gradsOn e (L.row b s) (List.range L.vocab) (indices b s) (gs b s)
  gather_rejected : ¬(0 < chunkSize ∧ 0 < L.S) → ∀ inferenceOnly, ∃ error,
    ChunkedDistributedGatherLogprob.forward e L.tp L.shard (L.grid indices) L.vocabStartIndex
      L.vocabEndIndex chunkSize inferenceOnly = .error error
  sampling : L.tp ∣ L.B * L.S → Computes L id
    (fun inferenceOnly => DistributedLogprobWithSampling.forward e L.tp L.shard (L.grid target) topK topP
      inferenceOnly)
    (fun saved => DistributedLogprobWithSampling.backward L.tp saved (L.grid g))
    (fun b s => logprobOn e (L.row b s) (keptOf e topK topP (L.row b s)) (target b s))
    fun b s => gradOn e (L.row b s) (keptOf e topK topP (L.row b s)) (target b s) (g b s)
  sampling_rejected : ¬L.tp ∣ L.B * L.S → ∀ inferenceOnly,
    DistributedLogprobWithSampling.forward e L.tp L.shard (L.grid target) topK topP inferenceOnly =
      .error (.value (indivisible (L.B * L.S) L.tp))
  chunkedSampling : 0 < chunkSize ∧ 0 < L.B * L.S ∧ L.tp ∣ L.B * L.S ∧ L.tp ∣ chunkSize * L.B →
    Computes L id
      (fun inferenceOnly => ChunkedDistributedLogprobWithSampling.forward e L.tp L.shard
        (L.grid target) topK topP chunkSize inferenceOnly)
      (fun saved => ChunkedDistributedLogprobWithSampling.backward e L.tp saved (L.grid g))
      (fun b s => logprobOn e (L.row b s) (keptOf e topK topP (L.row b s)) (target b s))
      fun b s => gradOn e (L.row b s) (keptOf e topK topP (L.row b s)) (target b s) (g b s)
  chunkedSampling_rejected :
    ¬(0 < chunkSize ∧ 0 < L.B * L.S ∧ L.tp ∣ L.B * L.S ∧ L.tp ∣ chunkSize * L.B) →
      ∀ inferenceOnly, ∃ error, ChunkedDistributedLogprobWithSampling.forward e L.tp L.shard
        (L.grid target) topK topP chunkSize inferenceOnly = .error error
  filters : ∀ b < L.B, ∀ s < L.S,
    (∀ k : ℕ, 0 < k → k ≤ L.vocab →
      applyTopKOnly k (L.row b s) = (keptLogits (L.row b s) (keptTokens e k 1 (L.row b s)),
        keptMask (L.row b s) (keptTokens e k 1 (L.row b s))) ∧
      applySorted e (some k) 1 (L.row b s) = applyTopKOnly k (L.row b s)) ∧
    (keptOf e none 1 (L.row b s)).Perm (List.range L.vocab)

/-- Forward and backward, every path is the dense one over the tokens that top-k and top-p keep. -/
theorem every_path_dense (e : Exponential K) (L : Logits K) {target : ℕ → ℕ → ℕ}
    (ht : ∀ b < L.B, ∀ s < L.S, target b s < L.vocab) (g : ℕ → ℕ → K) {indices : ℕ → ℕ → List ℕ}
    (hi : ∀ b < L.B, ∀ s < L.S, ∀ v ∈ indices b s, v < L.vocab) {gs : ℕ → ℕ → List K}
    (hg : ∀ b < L.B, ∀ s < L.S, (gs b s).length = (indices b s).length) {topK : Option ℤ}
    (hk : ∀ k ∈ topK, k ≤ L.vocab) {topP : K} (hp0 : 0 < topP) (hp1 : topP ≤ 1) (chunkSize : ℕ) :
    EveryPathDense e L target g indices gs topK topP chunkSize where
  plain := distributedLogprob_computes ht g
  chunked h := chunkedLogprob_computes ht g h.1 h.2
  chunked_rejected h := chunkedLogprob_rejected h target
  gather h := gatherLogprob_computes hi hg h.1 h.2
  gather_rejected h := gatherLogprob_rejected h indices
  sampling hdvd := sampling_passes ht hk hp0 hp1 hdvd g
  sampling_rejected h := sampling_rejected h
  chunkedSampling h := ⟨_,_,fun _ => chunkedSampling_forward ht hk hp0 hp1 h.1 h.2.1 h.2.2.1 h.2.2.2 _,
    rfl,rfl,fun b hb s hs => view_map hb hs (fun p => keptLogprob e L target topK topP p.1 p.2) ⊥,
    chunkedSampling_backward ht hk hp0 hp1 h.1 h.2.1 h.2.2.1 h.2.2.2 g⟩
  chunkedSampling_rejected h := chunkedSampling_rejected h
  filters b hb s hs := by
    have hlength : (L.row b s).length = L.vocab := L.length_row b hb s hs
    have hagree := filters_agree (e := e) (L.nodup_row b hb s hs)
      (List.length_pos_of_ne_nil (row_ne_nil hb hs))
    rwa [hlength] at hagree

noncomputable def realExponential : Exponential ℝ where
  exp := Real.exp
  log := Real.log
  exp_pos := Real.exp_pos
  exp_strictMono := Real.exp_strictMono
  exp_add := Real.exp_add
  log_exp := Real.log_exp
  exp_log _ hy := Real.exp_log hy

/-- `S` positions with two logits each, one on each of two ranks. -/
def twoRanks (S : ℕ) : Logits ℝ where
  B := 1
  S := S
  tp := 2
  vLocal := 1
  row _ _ := [0,1]
  tp_pos := Nat.zero_lt_two
  vLocal_pos := Nat.zero_lt_one
  length_row _ _ _ _ := rfl
  nodup_row _ _ _ _ := by simp

theorem every_path_dense_twoRanks : EveryPathDense realExponential (twoRanks 2) (fun _ s => s)
    (fun _ _ => 1) (fun _ _ => [1,0]) (fun _ _ => [1,2]) (some 1) (1 / 2) 2 :=
  every_path_dense realExponential (twoRanks 2) (fun _ _ s hs => hs) _
    (by
      intro b _ s _ v hv
      show v < 2
      simp only [List.mem_cons,List.not_mem_nil,or_false] at hv
      omega) (fun _ _ _ _ => rfl)
    (by
      rintro k ⟨⟩
      show (1 : ℤ) ≤ 2
      decide) (by norm_num) (by norm_num) 2

/-- One position cannot be shared by two ranks. -/
theorem sampling_of_one_position :
    DistributedLogprobWithSampling.forward realExponential 2 (twoRanks 1).shard
        ((twoRanks 1).grid fun _ _ => 0) none 1 false =
      .error (.value (indivisible 1 2)) ∧
    ¬Computes (twoRanks 1) id
      (fun inferenceOnly => DistributedLogprobWithSampling.forward realExponential 2 (twoRanks 1).shard
        ((twoRanks 1).grid fun _ _ => 0) none 1 inferenceOnly)
      (fun saved => DistributedLogprobWithSampling.backward 2 saved ((twoRanks 1).grid fun _ _ => 1))
      (fun _ _ => logprobOn realExponential [0,1] [0,1] 0)
      fun _ _ => gradOn realExponential [0,1] [0,1] 0 1 := by
  have herror : ∀ inferenceOnly, DistributedLogprobWithSampling.forward realExponential 2
      (twoRanks 1).shard ((twoRanks 1).grid fun _ _ => 0) none 1 inferenceOnly =
        .error (.value (indivisible 1 2)) :=
    sampling_rejected (L := twoRanks 1) (by decide)
  refine ⟨herror false,?_⟩
  rintro ⟨out,saved,hout,-⟩
  have hforward := (herror false).symm.trans (hout false)
  cases hforward

end Logprob
end DockyardRL
