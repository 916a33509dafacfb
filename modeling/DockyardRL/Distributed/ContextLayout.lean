import DockyardRL.Lib.Packed
import DockyardRL.Lib.SortByKey
import DockyardRL.Lib.Fallible
import DockyardRL.Lib.Gather
import Mathlib.Data.List.Rotate
import Mathlib.Tactic.Ring

/-! The layout of sequences over context-parallel ranks. Each rank has one chunk from the front and
one from the back. The batch dimension is left to a function of the row; a collective operation is a
function of what all ranks give to it.

The layout over context-parallel ranks is undone exactly, for single rows, for packed sequences and
for the windows of the ranks. -/
namespace DockyardRL
namespace Distributed

section

open Packed SortByKey

variable {α lgt ρ : Type*}

def getTokensOnThisCpRank (cpRank cpSize : ℕ) (ids : List α) : List α :=
  if cpSize = 1 then ids
  else
    let shardSize := ids.length / (cpSize * 2)
    [cpRank,cpSize * 2 - cpRank - 1].flatMap fun ind => (ids.drop (ind * shardSize)).take shardSize

/-- `torch.chunk` with two chunks. -/
def chunkInTwo (tensor : List α) : List (List α) :=
  let size := (tensor.length + 1) / 2
  if tensor.length = 1 then [tensor] else [tensor.take size,tensor.drop size]

/-- `AllGatherCPTensor.forward` on the tensors of all ranks. -/
def allGatherCp (cpSize : ℕ) (tensors : ℕ → List α) : List α :=
  let tensorChunks := (List.range cpSize).flatMap fun rank => chunkInTwo (tensors rank)
  let chunkIndices := (List.range cpSize).flatMap fun rank => [rank,2 * cpSize - rank - 1]
  (sortByKey Prod.snd (tensorChunks.zip chunkIndices)).flatMap Prod.fst

/-- The tensor without its last `n` positions, where `n` may be zero. -/
def dropLast (n : ℕ) (tensor : List α) : List α := tensor.take (tensor.length - n)

section Logprobs

variable (logprob : lgt → ℤ → ρ) (cpSize : ℕ)

/-- The targets of a rank in `from_parallel_logits_to_logprobs`: moved by one, padded and sharded. -/
def localTargets (cpRank logitsLen : ℕ) (target : List ℤ) : List ℤ :=
  let padLen := logitsLen * cpSize - target.length
  getTokensOnThisCpRank cpRank cpSize (target.rotate 1 ++ List.replicate padLen 0)

/-- `from_parallel_logits_to_logprobs` on one row, for the logits of all ranks. -/
def fromParallelLogitsToLogprobs (logits : ℕ → List lgt) (target : List ℤ) (cpRank : ℕ) : List ρ :=
  let padLen := (logits cpRank).length * cpSize - target.length
  let probs (rank : ℕ) := List.zipWith logprob (logits rank)
    (localTargets cpSize rank (logits rank).length target)
  let logprobs := if 1 < cpSize then allGatherCp cpSize probs else probs cpRank
  dropLast 1 (dropLast padLen logprobs)

def rolledTargets (cpRank : ℕ) (cuSeqlens : List ℕ) (target : List ℤ) : List ℤ :=
  (spans cuSeqlens).foldl (fun rolled span =>
      let seqTargets := (target.drop span.1).take (span.2 - span.1)
      setSlice rolled (span.1 / cpSize) (span.2 / cpSize)
        (getTokensOnThisCpRank cpRank cpSize (seqTargets.rotate 1)))
    (List.replicate (target.length / cpSize) 0)

def gatherPacked [Zero ρ] (cuSeqlens : List ℕ) (probs : ℕ → List ρ) (cpRank : ℕ) : List ρ :=
  (spans cuSeqlens).foldl (fun final span =>
      setSlice final span.1 span.2 (allGatherCp cpSize fun rank =>
        ((probs rank).drop (span.1 / cpSize)).take (span.2 / cpSize - span.1 / cpSize)))
    (List.replicate ((probs cpRank).length * cpSize) 0)

/-- `from_parallel_logits_to_logprobs_packed_sequences` for the logits of all ranks. -/
def fromParallelLogitsToLogprobsPackedSequences [Zero ρ] (logits : ℕ → List lgt) (target : List ℤ)
    (cuSeqlens : List ℕ) (unpackedSeqlen cpRank : ℕ) : List (List ρ) :=
  let probs (rank : ℕ) := List.zipWith logprob (logits rank)
    (rolledTargets cpSize rank cuSeqlens target)
  let probs := if 1 < cpSize then gatherPacked cpSize cuSeqlens probs cpRank else probs cpRank
  (spans cuSeqlens).map fun span =>
    let seqProbs := (probs.drop span.1).take (span.2 - 1 - span.1)
    let seqLen := min seqProbs.length (unpackedSeqlen - 1)
    setSlice (List.replicate (unpackedSeqlen - 1) 0) 0 seqLen (seqProbs.take seqLen)

end Logprobs

def cpLoadBalancedToContiguous (cpSize : ℕ) (tensors : ℕ → List α) (cpRank : ℕ) : List α :=
  if cpSize ≤ 1 then tensors cpRank
  else
    let full := allGatherCp cpSize tensors
    let localLen := full.length / cpSize
    (full.drop (cpRank * localLen)).take localLen

/-- `cp_shift_next`; there is no first position in an empty tensor. -/
def cpShiftNext (cpSize : ℕ) (fill : α) (tensors : ℕ → List α) (cpRank : ℕ) : Option (List α) :=
  let x := tensors cpRank
  let out := x.rotate 1
  if cpSize ≤ 1 then
    if x = [] then none else some (out.set (x.length - 1) fill)
  else do
    let gathered ← (List.range cpSize).mapM fun rank => (tensors rank).head?
    let last := if cpRank < cpSize - 1 then gathered.getD (cpRank + 1) fill else fill
    some (out.set (x.length - 1) last)

end

open Packed SortByKey Stripes

variable {α β lgt ρ : Type*} {cpSize s : ℕ}

/-- Chunk `j` of a sequence. -/
def block (x : List α) (s j : ℕ) : List α := (x.drop (j * s)).take s

theorem length_block {x : List α} {n j : ℕ} (hx : x.length = n * s) (hj : j < n) :
    (block x s j).length = s := by
  have hle : (j + 1) * s ≤ n * s := Nat.mul_le_mul_right s hj
  rw [Nat.succ_mul] at hle
  rw [block,List.length_take,List.length_drop,hx]
  omega

theorem chunkInTwo_append {a b : List α} (h : a.length = b.length) : chunkInTwo (a ++ b) = [a,b] := by
  have hlen : (a ++ b).length = 2 * a.length := by
    rw [List.length_append]
    omega
  have hhalf : ((a ++ b).length + 1) / 2 = a.length := by omega
  have hne : (a ++ b).length ≠ 1 := by omega
  unfold chunkInTwo
  dsimp only
  rw [if_neg hne,hhalf,List.take_left,List.drop_left]

theorem getTokens_eq_blocks {x : List α} (hcp : 0 < cpSize) (hx : x.length = cpSize * 2 * s)
    {rank : ℕ} (hrank : rank < cpSize) : getTokensOnThisCpRank rank cpSize x =
      block x s rank ++ block x s (2 * cpSize - rank - 1) := by
  rw [getTokensOnThisCpRank]
  split_ifs with hone
  · subst hone
    have hzero : rank = 0 := by omega
    subst hzero
    have hlast : (x.drop s).take s = x.drop s :=
      List.take_of_length_le (by rw [List.length_drop]; omega)
    show x = (x.drop (0 * s)).take s ++ (x.drop (1 * s)).take s
    rw [Nat.zero_mul,Nat.one_mul,List.drop_zero,hlast,List.take_append_drop]
  · have hsize : x.length / (cpSize * 2) = s := by
      rw [hx,Nat.mul_div_cancel_left _ (by omega)]
    rw [hsize,List.flatMap_cons,List.flatMap_singleton,Nat.mul_comm cpSize 2]
    rfl

theorem length_getTokens {x : List α} (hcp : 0 < cpSize) (hx : x.length = cpSize * 2 * s)
    {rank : ℕ} (hrank : rank < cpSize) : (getTokensOnThisCpRank rank cpSize x).length = 2 * s := by
  rw [Nat.mul_comm cpSize 2] at hx
  rw [getTokens_eq_blocks hcp (by rw [hx,Nat.mul_comm 2]) hrank,List.length_append,
    length_block hx (by omega),length_block hx (by omega),Nat.two_mul]

theorem chunkIndices_perm (n : ℕ) :
    ((List.range n).flatMap fun rank => [rank,2 * n - rank - 1]).Perm (List.range (2 * n)) := by
  have hmem : ∀ rank < n, ∀ j, j ∈ [rank,2 * n - rank - 1] ↔ j = rank ∨ j + rank + 1 = 2 * n := by
    intro rank hrank j
    rw [List.mem_cons,List.mem_singleton]
    omega
  refine (List.perm_ext_iff_of_nodup ?_ List.nodup_range).mpr fun j => ?_
  · rw [List.nodup_flatMap]
    constructor
    · intro rank hrank
      have hrank := List.mem_range.mp hrank
      rw [List.nodup_cons,List.mem_singleton]
      exact ⟨by omega,List.nodup_singleton _⟩
    · have hlt : (List.range n).Pairwise fun a b => a < b ∧ b < n :=
        List.pairwise_lt_range.imp_of_mem fun _ hb hab => ⟨hab,List.mem_range.mp hb⟩
      refine hlt.imp fun {a b} hab j ha hb => ?_
      rw [hmem a (by omega)] at ha
      rw [hmem b hab.2] at hb
      omega
  · rw [List.mem_flatMap,List.mem_range]
    constructor
    · rintro ⟨rank,hrank,hj⟩
      have hrank := List.mem_range.mp hrank
      rw [hmem rank hrank] at hj
      omega
    · intro hj
      by_cases hfront : j < n
      · exact ⟨j,List.mem_range.mpr hfront,List.mem_cons_self⟩
      · refine ⟨2 * n - j - 1,List.mem_range.mpr (by omega),?_⟩
        rw [hmem _ (by omega)]
        omega

theorem zip_pairs (l : List ℕ) (f g : ℕ → α) (u v : ℕ → β) :
    (l.flatMap fun r => [f r,g r]).zip (l.flatMap fun r => [u r,v r]) =
      l.flatMap fun r => [(f r,u r),(g r,v r)] := by
  induction l with
  | nil => rfl
  | cons r l ih =>
    simp only [List.flatMap_cons,List.cons_append,List.nil_append,List.zip_cons_cons,ih]

/-- What is sharded over the ranks is gathered again. -/
theorem allGatherCp_getTokens {x : List α} (hcp : 0 < cpSize) (hx : x.length = cpSize * 2 * s)
    {tensors : ℕ → List α} (htensors : ∀ rank < cpSize,
      tensors rank = getTokensOnThisCpRank rank cpSize x) : allGatherCp cpSize tensors = x := by
  have hx' : x.length = 2 * cpSize * s := by rw [hx,Nat.mul_comm cpSize 2]
  have hchunks : ((List.range cpSize).flatMap fun rank => chunkInTwo (tensors rank)) =
      (List.range cpSize).flatMap fun rank => [block x s rank,block x s (2 * cpSize - rank - 1)] := by
    refine List.flatMap_congr fun rank hrank => ?_
    have hrank := List.mem_range.mp hrank
    rw [htensors rank hrank,getTokens_eq_blocks hcp hx hrank]
    exact chunkInTwo_append (by rw [length_block hx' (by omega),length_block hx' (by omega)])
  have hzip : ((List.range cpSize).flatMap fun rank =>
      [block x s rank,block x s (2 * cpSize - rank - 1)]).zip
        ((List.range cpSize).flatMap fun rank => [rank,2 * cpSize - rank - 1]) =
          ((List.range cpSize).flatMap fun rank => [rank,2 * cpSize - rank - 1]).map
            fun j => (block x s j,j) := by
    rw [zip_pairs,List.map_flatMap]
    rfl
  have hsorted : sortByKey Prod.snd (((List.range cpSize).flatMap fun rank =>
      [rank,2 * cpSize - rank - 1]).map fun j => (block x s j,j)) =
        (List.range (2 * cpSize)).map fun j => (block x s j,j) := by
    refine sortByKey_eq ((chunkIndices_perm cpSize).map _) ?_ ?_
    · rw [List.pairwise_map]
      exact List.pairwise_le_range
    · intro p hp q hq hpq
      obtain ⟨i,-,rfl⟩ := List.mem_map.mp hp
      obtain ⟨j,-,rfl⟩ := List.mem_map.mp hq
      obtain rfl : i = j := hpq
      rfl
  unfold allGatherCp
  dsimp only
  rw [hchunks,hzip,hsorted,List.flatMap_map]
  show ((List.range (2 * cpSize)).flatMap fun j => (x.drop (j * s)).take s) = x
  rw [flatMap_parts,List.take_of_length_le (Nat.le_of_eq hx')]

section Logprobs

variable (logprob : lgt → ℤ → ρ)

theorem zipWith_block {x : List lgt} {y : List ℤ} (j : ℕ) :
    List.zipWith logprob (block x s j) (block y s j) = block (List.zipWith logprob x y) s j := by
  rw [block,block,block,List.drop_zipWith,List.take_zipWith]

theorem zipWith_getTokens {x : List lgt} {y : List ℤ} (hcp : 0 < cpSize)
    (hx : x.length = cpSize * 2 * s) (hy : y.length = cpSize * 2 * s) {rank : ℕ}
    (hrank : rank < cpSize) :
    List.zipWith logprob (getTokensOnThisCpRank rank cpSize x) (getTokensOnThisCpRank rank cpSize y) =
      getTokensOnThisCpRank rank cpSize (List.zipWith logprob x y) := by
  have hx' : x.length = 2 * cpSize * s := by rw [hx,Nat.mul_comm cpSize 2]
  have hy' : y.length = 2 * cpSize * s := by rw [hy,Nat.mul_comm cpSize 2]
  have hlen : (List.zipWith logprob x y).length = cpSize * 2 * s := by
    rw [List.length_zipWith,hx,hy,Nat.min_self]
  rw [getTokens_eq_blocks hcp hx hrank,getTokens_eq_blocks hcp hy hrank,
    getTokens_eq_blocks hcp hlen hrank,List.zipWith_append
      (by rw [length_block hx' (by omega),length_block hy' (by omega)]),zipWith_block,zipWith_block]

theorem getTokens_one (x : List α) (rank : ℕ) : getTokensOnThisCpRank rank 1 x = x := if_pos rfl

theorem zipWith_rotate_take {x : List lgt} {target : List ℤ} (filler : List ℤ)
    (hx : x.length = target.length + filler.length) :
    (List.zipWith logprob x (target.rotate 1 ++ filler)).take (target.length - 1) =
      List.zipWith logprob x target.tail := by
  cases target with
  | nil => simp
  | cons t ts =>
    have hsplit : x.take ts.length ++ x.drop ts.length = x := List.take_append_drop _ _
    have hlen : (x.take ts.length).length = ts.length := by
      rw [List.length_take,hx,List.length_cons]
      omega
    have hleft : (List.zipWith logprob (x.take ts.length) ts).length = ts.length := by
      rw [List.length_zipWith,hlen,Nat.min_self]
    have hrotate : (t :: ts).rotate 1 ++ filler = ts ++ (t :: filler) := by
      rw [List.rotate_cons_succ,List.rotate_zero,List.append_assoc]
      rfl
    have htail : List.zipWith logprob (x.take ts.length ++ x.drop ts.length) (ts ++ []) =
        List.zipWith logprob (x.take ts.length) ts ++ List.zipWith logprob (x.drop ts.length) [] :=
      List.zipWith_append hlen
    rw [hsplit,List.append_nil,List.zipWith_nil_right,List.append_nil] at htail
    rw [hrotate,List.tail_cons,htail,List.length_cons,Nat.add_sub_cancel]
    conv_lhs => rw [← hsplit]
    rw [List.zipWith_append hlen,List.take_left' hleft]

theorem fromParallelLogits_eq {x : List lgt} {target : List ℤ} (hcp : 0 < cpSize)
    (hx : x.length = cpSize * 2 * s) (htarget : target.length ≤ x.length) {rank : ℕ}
    (hrank : rank < cpSize) :
    fromParallelLogitsToLogprobs logprob cpSize
      (fun rank => getTokensOnThisCpRank rank cpSize x) target rank =
        List.zipWith logprob x target.tail := by
  have hlocal : ∀ rank < cpSize,
      (getTokensOnThisCpRank rank cpSize x).length * cpSize = x.length := by
    intro rank hrank
    rw [length_getTokens hcp hx hrank,hx]
    ring
  let rolled := target.rotate 1 ++ List.replicate (x.length - target.length) 0
  have hrolled : rolled.length = cpSize * 2 * s := by
    rw [List.length_append,List.length_rotate,List.length_replicate,← hx]
    omega
  have hprobs : ∀ rank < cpSize, List.zipWith logprob (getTokensOnThisCpRank rank cpSize x)
      (localTargets cpSize rank (getTokensOnThisCpRank rank cpSize x).length target) =
        getTokensOnThisCpRank rank cpSize (List.zipWith logprob x rolled) := by
    intro rank hrank
    unfold localTargets
    rw [hlocal rank hrank]
    exact zipWith_getTokens logprob hcp hx hrolled hrank
  have hlen : (List.zipWith logprob x rolled).length = cpSize * 2 * s := by
    rw [List.length_zipWith,hx,hrolled,Nat.min_self]
  have hgathered : (if 1 < cpSize then allGatherCp cpSize fun rank =>
      List.zipWith logprob (getTokensOnThisCpRank rank cpSize x)
        (localTargets cpSize rank (getTokensOnThisCpRank rank cpSize x).length target)
      else List.zipWith logprob (getTokensOnThisCpRank rank cpSize x)
        (localTargets cpSize rank (getTokensOnThisCpRank rank cpSize x).length target)) =
          List.zipWith logprob x rolled := by
    split_ifs with hmany
    · exact allGatherCp_getTokens hcp hlen hprobs
    · obtain rfl : cpSize = 1 := by omega
      rw [hprobs rank hrank,getTokens_one]
  have hfiller : x.length = target.length +
      (List.replicate (x.length - target.length) (0 : ℤ)).length := by
    rw [List.length_replicate]
    omega
  unfold fromParallelLogitsToLogprobs
  dsimp only
  rw [hgathered,hlocal rank hrank,dropLast,dropLast,List.take_take,List.length_take,hlen,← hx]
  have hcut : min (min (x.length - (x.length - target.length)) x.length - 1)
      (x.length - (x.length - target.length)) = target.length - 1 := by omega
  rw [hcut]
  exact zipWith_rotate_take logprob _ hfiller

/-- The logits and targets of a sequence, padded for the ranks. -/
def CpPadded (cpSize : ℕ) (q : List lgt × List ℤ) : Prop :=
  q.1.length = q.2.length ∧ cpSize * 2 ∣ q.2.length

theorem zipWith_flatMap {pieces : List α} {f : α → List lgt} {g : α → List ℤ}
    (h : ∀ q ∈ pieces, (f q).length = (g q).length) :
    List.zipWith logprob (pieces.flatMap f) (pieces.flatMap g) =
      pieces.flatMap fun q => List.zipWith logprob (f q) (g q) := by
  induction pieces with
  | nil => rfl
  | cons q pieces ih =>
    rw [List.flatMap_cons,List.flatMap_cons,List.flatMap_cons,
      List.zipWith_append (h q List.mem_cons_self),ih fun p hp => h p (List.mem_cons_of_mem q hp)]

theorem slice_one (tensor : List α) (span : ℕ × ℕ) :
    slice 1 tensor span = (tensor.drop span.1).take (span.2 - span.1) := by
  rw [slice,Nat.div_one,Nat.div_one]

section Packed

variable {seqs : List (List lgt × List ℤ)}

/-- The log-probabilities of a sequence, at the last position those of its first target. -/
def wholeLogprobs (q : List lgt × List ℤ) : List ρ := List.zipWith logprob q.1 (q.2.rotate 1)

variable {logprob} in
theorem length_wholeLogprobs {q : List lgt × List ℤ} (h : q.1.length = q.2.length) :
    (wholeLogprobs logprob q).length = q.2.length := by
  rw [wholeLogprobs,List.length_zipWith,List.length_rotate,h,Nat.min_self]

theorem exists_size (hseqs : ∀ q ∈ seqs, CpPadded cpSize q) {q : List lgt × List ℤ} (hq : q ∈ seqs) :
    ∃ s, q.1.length = cpSize * 2 * s ∧ q.2.length = cpSize * 2 * s := by
  obtain ⟨hlen,s,hs⟩ := hseqs q hq
  exact ⟨s,hlen.trans hs,hs⟩

variable (hcp : 0 < cpSize) (hseqs : ∀ q ∈ seqs, CpPadded cpSize q)

include hcp hseqs

theorem length_getTokens_mul {q : List lgt × List ℤ} (hq : q ∈ seqs) {x : List α}
    (hx : x.length = q.2.length) {rank : ℕ} (hrank : rank < cpSize) :
    (getTokensOnThisCpRank rank cpSize x).length * cpSize = q.2.length := by
  obtain ⟨s,-,hs⟩ := exists_size hseqs hq
  rw [length_getTokens hcp (hx.trans hs) hrank,hs]
  ring

theorem rolledTargets_eq {rank : ℕ} (hrank : rank < cpSize) :
    rolledTargets cpSize rank (cumulative (seqs.map fun q => q.2.length)) (seqs.flatMap Prod.snd) =
      seqs.flatMap fun q => getTokensOnThisCpRank rank cpSize (q.2.rotate 1) := by
  have hslices := @forall₂_slices _ _ Unit 1 (fun q : List lgt × List ℤ => q.2.length) seqs
    Nat.one_pos (fun _ q => q.2) (fun q _ _ => Nat.mul_one _) 0 (fun _ => []) fun _ => rfl
  have hvalues : List.Forall₂ (fun span (q : List lgt × List ℤ) =>
      getTokensOnThisCpRank rank cpSize
        ((((seqs.flatMap Prod.snd).drop span.1).take (span.2 - span.1)).rotate 1) =
          getTokensOnThisCpRank rank cpSize (q.2.rotate 1))
        (spanList 0 (seqs.map fun q => q.2.length)) seqs := by
    refine hslices.imp fun span q hspan => ?_
    have hslice := hspan.2.2 ()
    rw [List.nil_append,slice_one] at hslice
    rw [hslice]
  have hlen : ∀ q ∈ seqs, (getTokensOnThisCpRank rank cpSize (q.2.rotate 1)).length * cpSize =
      q.2.length :=
    fun q hq => length_getTokens_mul hcp hseqs hq (List.length_rotate _ _) hrank
  have hsum : (seqs.flatMap Prod.snd).length / cpSize * cpSize =
      (seqs.map fun q => q.2.length).sum := by
    rw [List.length_flatMap]
    exact Nat.div_mul_cancel (Dvd.intro_left _ (length_flatMap_mul hlen))
  have hfold := @foldl_setSlice _ _ _ _ seqs hcp _ _ 0 hvalues hlen []
    (List.replicate ((seqs.flatMap Prod.snd).length / cpSize) 0) (Nat.zero_mul _)
    (by rw [List.length_replicate,hsum])
  rw [rolledTargets,spans_cumulative]
  exact hfold

theorem packed_probs {rank : ℕ} (hrank : rank < cpSize) :
    List.zipWith logprob (seqs.flatMap fun q => getTokensOnThisCpRank rank cpSize q.1)
      (rolledTargets cpSize rank (cumulative (seqs.map fun q => q.2.length))
        (seqs.flatMap Prod.snd)) =
      seqs.flatMap fun q => getTokensOnThisCpRank rank cpSize (wholeLogprobs logprob q) := by
  have hpieces : ∀ q ∈ seqs, (getTokensOnThisCpRank rank cpSize q.1).length =
      (getTokensOnThisCpRank rank cpSize (q.2.rotate 1)).length := by
    intro q hq
    obtain ⟨s,hfst,hsnd⟩ := exists_size hseqs hq
    rw [length_getTokens hcp hfst hrank,
      length_getTokens hcp ((List.length_rotate _ _).trans hsnd) hrank]
  rw [rolledTargets_eq hcp hseqs hrank,zipWith_flatMap logprob hpieces]
  refine List.flatMap_congr fun q hq => ?_
  obtain ⟨s,hfst,hsnd⟩ := exists_size hseqs hq
  exact zipWith_getTokens logprob hcp hfst ((List.length_rotate _ _).trans hsnd) hrank

theorem gatherPacked_eq [Zero ρ] {probs : ℕ → List ρ} (hprobs : ∀ rank < cpSize, probs rank =
    seqs.flatMap fun q => getTokensOnThisCpRank rank cpSize (wholeLogprobs logprob q)) {rank : ℕ}
    (hrank : rank < cpSize) :
    gatherPacked cpSize (cumulative (seqs.map fun q => q.2.length)) probs rank =
      seqs.flatMap (wholeLogprobs logprob) := by
  have hwhole : ∀ q ∈ seqs, (wholeLogprobs logprob q).length = q.2.length :=
    fun q hq => length_wholeLogprobs (hseqs q hq).1
  have hslices := @forall₂_slices _ _ {rank // rank < cpSize} cpSize
    (fun q : List lgt × List ℤ => q.2.length) seqs hcp
    (fun rank q => getTokensOnThisCpRank rank.1 cpSize (wholeLogprobs logprob q))
    (fun q hq rank => length_getTokens_mul hcp hseqs hq (hwhole q hq) rank.2) 0 (fun _ => [])
    fun _ => Nat.zero_mul _
  have hvalues : List.Forall₂ (fun span q => allGatherCp cpSize (fun rank =>
      ((probs rank).drop (span.1 / cpSize)).take (span.2 / cpSize - span.1 / cpSize)) =
        wholeLogprobs logprob q) (spanList 0 (seqs.map fun q => q.2.length)) seqs := by
    refine hslices.imp fun span q ⟨hq,_,hslice⟩ => ?_
    obtain ⟨s,-,hs⟩ := exists_size hseqs hq
    refine allGatherCp_getTokens hcp ((hwhole q hq).trans hs) fun rank hrank => ?_
    rw [hprobs rank hrank]
    exact hslice ⟨rank,hrank⟩
  have hsum : (List.replicate ((probs rank).length * cpSize) (0 : ρ)).length * 1 =
      (seqs.map fun q => q.2.length).sum := by
    rw [List.length_replicate,Nat.mul_one,hprobs rank hrank]
    exact length_flatMap_mul fun q hq => length_getTokens_mul hcp hseqs hq (hwhole q hq) hrank
  have hfold := @foldl_setSlice _ _ _ _ seqs Nat.one_pos _ _ 0 hvalues
    (fun q hq => (Nat.mul_one _).trans (hwhole q hq)) []
    (List.replicate ((probs rank).length * cpSize) 0) rfl hsum
  rw [gatherPacked,spans_cumulative]
  simp only [Nat.div_one] at hfold
  exact hfold

def padRow [Zero ρ] (length : ℕ) (row : List ρ) : List ρ :=
  row.take length ++ List.replicate (length - row.length) 0

theorem fromParallelLogitsPacked_eq [Zero ρ] (unpackedSeqlen : ℕ) {rank : ℕ} (hrank : rank < cpSize) :
    fromParallelLogitsToLogprobsPackedSequences logprob cpSize
      (fun rank => seqs.flatMap fun q => getTokensOnThisCpRank rank cpSize q.1)
      (seqs.flatMap Prod.snd) (cumulative (seqs.map fun q => q.2.length)) unpackedSeqlen rank =
        seqs.map fun q => padRow (unpackedSeqlen - 1)
          (fromParallelLogitsToLogprobs logprob cpSize
            (fun rank => getTokensOnThisCpRank rank cpSize q.1) q.2 rank) := by
  have hwhole : ∀ q ∈ seqs, (wholeLogprobs logprob q).length = q.2.length :=
    fun q hq => length_wholeLogprobs (hseqs q hq).1
  have hprobs : (if 1 < cpSize then gatherPacked cpSize (cumulative (seqs.map fun q => q.2.length))
      (fun rank => List.zipWith logprob (seqs.flatMap fun q => getTokensOnThisCpRank rank cpSize q.1)
        (rolledTargets cpSize rank (cumulative (seqs.map fun q => q.2.length))
          (seqs.flatMap Prod.snd))) rank
      else List.zipWith logprob (seqs.flatMap fun q => getTokensOnThisCpRank rank cpSize q.1)
        (rolledTargets cpSize rank (cumulative (seqs.map fun q => q.2.length))
          (seqs.flatMap Prod.snd))) = seqs.flatMap (wholeLogprobs logprob) := by
    split_ifs with hmany
    · exact gatherPacked_eq logprob hcp hseqs (fun rank hrank => packed_probs logprob hcp hseqs hrank)
        hrank
    · rw [packed_probs logprob hcp hseqs hrank]
      obtain rfl : cpSize = 1 := by omega
      exact List.flatMap_congr fun q _ => getTokens_one _ rank
  have hslices := @forall₂_slices _ _ Unit 1 (fun q : List lgt × List ℤ => q.2.length) seqs
    Nat.one_pos (fun _ => wholeLogprobs logprob)
    (fun q hq _ => (Nat.mul_one _).trans (hwhole q hq)) 0 (fun _ => []) fun _ => rfl
  unfold fromParallelLogitsToLogprobsPackedSequences
  dsimp only
  rw [hprobs,spans_cumulative,← List.forall₂_eq_eq_eq,List.forall₂_map_left_iff,
    List.forall₂_map_right_iff]
  refine hslices.imp fun span q ⟨hq,hspan,hslice⟩ => ?_
  obtain ⟨s,hfst,hsnd⟩ := exists_size hseqs hq
  have hwhole := hslice ()
  rw [List.nil_append,slice_one,hspan,Nat.add_sub_cancel_left] at hwhole
  have hseq : ((seqs.flatMap (wholeLogprobs logprob)).drop span.1).take (span.2 - 1 - span.1) =
      List.zipWith logprob q.1 q.2.tail := by
    have hrotate := zipWith_rotate_take logprob [] (hseqs q hq).1
    have hcut : span.2 - 1 - span.1 = min (q.2.length - 1) q.2.length := by omega
    rw [List.append_nil] at hrotate
    rw [hcut,← List.take_take,hwhole]
    exact hrotate
  rw [hseq,fromParallelLogits_eq logprob hcp hfst (Nat.le_of_eq (hseqs q hq).1.symm) hrank,padRow,
    setSlice,List.take_zero,List.nil_append,List.drop_replicate]
  generalize List.zipWith logprob q.1 q.2.tail = row
  have hrest : unpackedSeqlen - 1 - min row.length (unpackedSeqlen - 1) =
      unpackedSeqlen - 1 - row.length := by omega
  rw [hrest,Nat.min_comm,← List.take_take,List.take_length]

end Packed

end Logprobs

theorem cpLoadBalancedToContiguous_eq {x : List α} (hcp : 0 < cpSize)
    (hx : x.length = cpSize * 2 * s) {rank : ℕ} (hrank : rank < cpSize) :
    cpLoadBalancedToContiguous cpSize (fun rank => getTokensOnThisCpRank rank cpSize x) rank =
      block x (2 * s) rank := by
  unfold cpLoadBalancedToContiguous
  split_ifs with hone
  · obtain rfl : cpSize = 1 := by omega
    obtain rfl : rank = 0 := by omega
    have hall : (x.drop (0 * (2 * s))).take (2 * s) = x := by
      rw [Nat.zero_mul,List.drop_zero,List.take_of_length_le (by omega)]
    exact (getTokens_one x 0).trans hall.symm
  · have hlocal : x.length / cpSize = 2 * s := by
      rw [hx,Nat.mul_assoc,Nat.mul_div_cancel_left _ hcp]
    dsimp only
    rw [allGatherCp_getTokens hcp hx fun _ _ => rfl,hlocal]
    rfl

theorem rotate_set {h : α} {rest : List α} (last : α) :
    ((h :: rest).rotate 1).set ((h :: rest).length - 1) last = rest ++ [last] := by
  rw [List.rotate_cons_succ,List.rotate_zero,List.length_cons,Nat.add_sub_cancel,
    List.set_append_right _ _ (Nat.le_refl _),Nat.sub_self]
  rfl

theorem block_shift {x : List α} {fill h last : α} {rest : List α} {k j : ℕ}
    (hdrop : x.drop (j * (k + 1)) = h :: rest) (hk : k ≤ rest.length)
    (hlast : (rest ++ [fill])[k]? = some last) :
    block (x.tail ++ [fill]) (k + 1) j = rest.take k ++ [last] := by
  have hx : x.tail.drop (j * (k + 1)) = rest := by
    rw [List.drop_tail,← List.tail_drop,hdrop,List.tail_cons]
  have hle : j * (k + 1) ≤ x.tail.length := by
    have hlen := congrArg List.length hdrop
    rw [List.length_drop,List.length_cons] at hlen
    rw [List.length_tail]
    omega
  rw [block,List.drop_append_of_le_length hle,hx,List.take_add_one,hlast,
    List.take_append_of_le_length hk]
  rfl

theorem cpShiftNext_block {x : List α} (fill : α) (hcp : 0 < cpSize) (hs : 0 < s)
    (hx : x.length = cpSize * s) {tensors : ℕ → List α}
    (htensors : ∀ rank < cpSize, tensors rank = block x s rank) {rank : ℕ} (hrank : rank < cpSize) :
    cpShiftNext cpSize fill tensors rank = some (block (x.tail ++ [fill]) s rank) := by
  obtain ⟨k,rfl⟩ := Nat.exists_eq_succ_of_ne_zero hs.ne'
  have hstart : ∀ j < cpSize, j * (k + 1) < x.length := by
    intro j hj
    rw [hx]
    exact Nat.mul_lt_mul_of_pos_right hj hs
  have hend : rank * (k + 1) + (k + 1) ≤ x.length := by
    rw [hx,← Nat.succ_mul]
    exact Nat.mul_le_mul_right (k + 1) hrank
  obtain ⟨h,rest,hdrop⟩ := List.exists_cons_of_ne_nil
    (List.ne_nil_of_length_pos (by rw [List.length_drop]; omega) : x.drop (rank * (k + 1)) ≠ [])
  have hrest : rest.length + 1 = x.length - rank * (k + 1) := by
    rw [← List.length_drop,hdrop,List.length_cons]
  have hk : k ≤ rest.length := by omega
  have hwindow : tensors rank = h :: rest.take k := by
    rw [htensors rank hrank,block,hdrop,List.take_succ_cons]
  by_cases hone : cpSize ≤ 1
  · obtain rfl : cpSize = 1 := by omega
    have hlast : (rest ++ [fill])[k]? = some fill := by
      have hlen : k = rest.length := by omega
      rw [hlen,List.getElem?_append_right (Nat.le_refl _),Nat.sub_self]
      rfl
    unfold cpShiftNext
    rw [if_pos hone,hwindow,if_neg (List.cons_ne_nil _ _),rotate_set,block_shift hdrop hk hlast]
  · have hheads : ((List.range cpSize).mapM fun rank => (tensors rank).head?) =
        some ((List.range cpSize).map fun rank => x.getD (rank * (k + 1)) fill) := by
      refine Fallible.mapM_some fun j hj => ?_
      have hj := List.mem_range.mp hj
      rw [htensors j hj,block,List.head?_take,if_neg (Nat.succ_ne_zero k),List.head?_drop,
        List.getD_eq_getElem?_getD,List.getElem?_eq_getElem (hstart j hj),Option.getD_some]
    have hlast : (rest ++ [fill])[k]? = some (if rank < cpSize - 1 then
        ((List.range cpSize).map fun rank => x.getD (rank * (k + 1)) fill).getD (rank + 1) fill
        else fill) := by
      have hget : (x.drop (rank * (k + 1)))[k + 1]? = rest[k]? := by
        rw [hdrop,List.getElem?_cons_succ]
      rw [List.getElem?_drop] at hget
      split_ifs with hinner
      · have hnext := hstart (rank + 1) (by omega)
        have hplace : rank * (k + 1) + (k + 1) = (rank + 1) * (k + 1) := (Nat.succ_mul _ _).symm
        have hlt : k < rest.length := by
          rw [Nat.succ_mul] at hnext
          omega
        rw [List.getElem?_append_left hlt,← hget,hplace,List.getElem?_eq_getElem hnext,
          List.getD_eq_getElem?_getD,List.getElem?_map,List.getElem?_range (by omega),
          Option.map_some,Option.getD_some,List.getD_eq_getElem?_getD,
          List.getElem?_eq_getElem hnext,Option.getD_some]
      · have hlen : k = rest.length := by
          have hlast : rank + 1 = cpSize := by omega
          have hwhole : x.length = rank * (k + 1) + (k + 1) := by rw [hx,← hlast,Nat.succ_mul]
          omega
        rw [hlen,List.getElem?_append_right (Nat.le_refl _),Nat.sub_self]
        rfl
    unfold cpShiftNext
    rw [if_neg hone,hheads,hwindow]
    dsimp only [Option.bind_eq_bind,Option.bind_some]
    rw [rotate_set,block_shift hdrop hk hlast]

theorem cpShiftNext_windows {x : List α} (fill : α) (hcp : 0 < cpSize) (hx : cpSize * 2 ∣ x.length)
    (hne : x ≠ []) :
    ∃ windows, (List.range cpSize).mapM (cpShiftNext cpSize fill
      (cpLoadBalancedToContiguous cpSize fun rank => getTokensOnThisCpRank rank cpSize x)) =
        some windows ∧ windows.flatten = x.tail ++ [fill] := by
  obtain ⟨s,hs⟩ := hx
  have hlen : x.length = cpSize * (2 * s) := by rw [hs,Nat.mul_assoc]
  have hpos : 0 < 2 * s := by
    refine Nat.pos_of_ne_zero fun hzero => hne ?_
    rw [hzero,Nat.mul_zero] at hlen
    exact List.length_eq_zero_iff.mp hlen
  have hshift : ∀ rank ∈ List.range cpSize, cpShiftNext cpSize fill
      (cpLoadBalancedToContiguous cpSize fun rank => getTokensOnThisCpRank rank cpSize x) rank =
        some (block (x.tail ++ [fill]) (2 * s) rank) := fun rank hrank =>
    cpShiftNext_block fill hcp hpos hlen
      (fun other hother => cpLoadBalancedToContiguous_eq hcp hs hother) (List.mem_range.mp hrank)
  refine ⟨_,Fallible.mapM_some hshift,?_⟩
  have hmoved : (x.tail ++ [fill]).length = cpSize * (2 * s) := by
    have hlong := List.length_pos_iff.mpr hne
    rw [List.length_append,List.length_tail,List.length_singleton,← hlen]
    omega
  rw [← List.flatMap_def]
  show ((List.range cpSize).flatMap fun j => ((x.tail ++ [fill]).drop (j * (2 * s))).take (2 * s)) = _
  rw [flatMap_parts,List.take_of_length_le (Nat.le_of_eq hmoved)]

/-- Whatever is computed row by row on the shards of the ranks is what is computed on the whole
sequences. -/
theorem contextParallel_undone [Zero ρ] (logprob : lgt → ℤ → ρ) (fill : α) (hcp : 0 < cpSize) :
    (∀ x : List α, cpSize * 2 ∣ x.length →
      allGatherCp cpSize (fun rank => getTokensOnThisCpRank rank cpSize x) = x) ∧
    (∀ (x : List lgt) (target : List ℤ), cpSize * 2 ∣ x.length → target.length ≤ x.length →
      ∀ rank < cpSize, fromParallelLogitsToLogprobs logprob cpSize
        (fun rank => getTokensOnThisCpRank rank cpSize x) target rank =
          List.zipWith logprob x target.tail) ∧
    (∀ seqs : List (List lgt × List ℤ), (∀ q ∈ seqs, CpPadded cpSize q) →
      ∀ unpackedSeqlen, 0 < unpackedSeqlen → ∀ rank < cpSize,
        fromParallelLogitsToLogprobsPackedSequences logprob cpSize
          (fun rank => seqs.flatMap fun q => getTokensOnThisCpRank rank cpSize q.1)
          (seqs.flatMap Prod.snd) (cumulative (seqs.map fun q => q.2.length)) unpackedSeqlen rank =
            seqs.map fun q => padRow (unpackedSeqlen - 1)
              (fromParallelLogitsToLogprobs logprob cpSize
                (fun rank => getTokensOnThisCpRank rank cpSize q.1) q.2 rank)) ∧
    (∀ x : List α, cpSize * 2 ∣ x.length → x ≠ [] →
      ∃ windows, (List.range cpSize).mapM (cpShiftNext cpSize fill
        (cpLoadBalancedToContiguous cpSize fun rank => getTokensOnThisCpRank rank cpSize x)) =
          some windows ∧ windows.flatten = x.tail ++ [fill]) := by
  refine ⟨?_,?_,?_,?_⟩
  · rintro x ⟨s,hs⟩
    exact allGatherCp_getTokens hcp hs fun _ _ => rfl
  · rintro x target ⟨s,hs⟩ htarget rank hrank
    exact fromParallelLogits_eq logprob hcp hs htarget hrank
  · intro seqs hseqs unpackedSeqlen _ rank hrank
    exact fromParallelLogitsPacked_eq logprob hcp hseqs unpackedSeqlen hrank
  · intro x hx hne
    exact cpShiftNext_windows fill hcp hx hne

theorem contextParallel_two_ranks :
    allGatherCp 2 (fun rank => getTokensOnThisCpRank rank 2 [3,1,4,1,5,9,2,6]) =
        [3,1,4,1,5,9,2,6] ∧
      fromParallelLogitsToLogprobs (fun a b : ℤ => a * b) 2
        (fun rank => getTokensOnThisCpRank rank 2 [3,1,4,1,5,9,2,6]) [2,7,1,8] 1 = [21,1,32] :=
  ⟨(contextParallel_undone (fun a b : ℤ => a * b) (0 : ℕ) (by decide : 0 < 2)).1 _ ⟨2,rfl⟩,
    (contextParallel_undone (fun a b : ℤ => a * b) (0 : ℕ) (by decide : 0 < 2)).2.1 _ _ ⟨2,rfl⟩
      (by decide) 1 (by decide)⟩

end Distributed
end DockyardRL
