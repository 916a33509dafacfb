import DockyardRL.Lib.Chunks
import DockyardRL.Lib.Gather
import DockyardRL.Lib.Packed
import DockyardRL.Lib.Reductions
import DockyardRL.Lib.SortByKey

/-! Top-k and top-p filtering of logits: without sorting when only top-k is asked for, else on the
sorted rows, in chunks of rows.

The order of a row: the tokens with the largest logits are at its end. -/
namespace DockyardRL
namespace Logprob

section

open Chunks Gather Packed Softmax SortByKey

variable {K : Type*} [Field K] [LinearOrder K]

def needTopKFiltering (topK : Option ℤ) : Bool := topK.any fun k => 0 < k

def needTopPFiltering (topP : K) : Bool := topP ≠ 1

/-- `torch.where(mask, logits, -inf)`; filtered logits are minus infinity. -/
def fillMasked (keepMask : List Bool) (logits : List (WithBot K)) : List (WithBot K) :=
  List.zipWith (fun keep x => if keep then x else ⊥) keepMask logits

def finite (row : List K) : List (WithBot K) := row.map fun x : K => (x : WithBot K)

/-- `torch.topk(logits, k)`: the values, the largest first. -/
def topkValues (row : List K) (k : ℕ) : List K := (sortByKey id row).reverse.take k

/-- `_apply_top_k_only_fn` on a row. -/
def applyTopKOnly (k : ℕ) (row : List K) : List (WithBot K) × List Bool :=
  let threshold := (topkValues row k).getLastD 0
  let keepMask := row.map fun x => decide (threshold ≤ x)
  (fillMasked keepMask (finite row),keepMask)

/-- `logits.sort(dim=-1, descending=False)`: the indices. -/
def sortIndices (row : List K) : List ℕ :=
  sortByKey (fun v => row.getD v 0) (List.range row.length)

variable (e : Exponential K)

/-- `logits.softmax(dim=-1)`. -/
def softmax (logits : List (WithBot K)) : List K :=
  logits.map fun x => e.expBot x / (logits.map e.expBot).sum

/-- `torch.cumsum(probs, dim=-1)`. -/
def cumsum (probs : List K) : List K := (List.range probs.length).map fun i => (probs.take (i + 1)).sum

def sortedTopKMask (topK : Option ℤ) (logitsSort : List (WithBot K)) : Option (List Bool) :=
  match topK with
  | none => none
  | some k =>
    if 0 < k then
      let threshold := logitsSort.getD (logitsSort.length - k.toNat) ⊥
      some (logitsSort.map fun x => decide (threshold ≤ x))
    else none

/-- A row of the chunk loop of `_apply_top_k_top_p_fn`. -/
def applySorted (topK : Option ℤ) (topP : K) (row : List K) : List (WithBot K) × List Bool :=
  let logitsIdx := sortIndices row
  let logitsSort := logitsIdx.map fun v => ((row.getD v 0 : K) : WithBot K)
  let topKKeepMask := sortedTopKMask topK logitsSort
  let logitsSort := match topKKeepMask with
    | none => logitsSort
    | some mask => fillMasked mask logitsSort
  let probsSum := cumsum (softmax e logitsSort)
  let topPKeepMask := (probsSum.map fun mass => decide (1 - topP < mass)).set (row.length - 1) true
  let logitsSort := fillMasked topPKeepMask logitsSort
  let chunkMask := match topKKeepMask with
    | none => topPKeepMask
    | some mask => List.zipWith and mask topPKeepMask
  (scatter logitsSort logitsIdx logitsSort,scatter chunkMask logitsIdx chunkMask)

/-- `TOP_K_TOP_P_CHUNK_SIZE`. -/
def topKTopPChunkSize : ℕ := 256

/-- `_apply_top_k_top_p_fn` on the rows of a tensor; the outputs are filled chunk by chunk. -/
def applyTopKTopPFn (topK : Option ℤ) (topP : K) (chunkSize : ℕ) (logits : List (List K)) :
    List (List (WithBot K)) × Option (List (List Bool)) :=
  if !needTopPFiltering topP then
    match topK with
    | none => (logits.map finite,none)
    | some k =>
      if 0 < k then
        (logits.map fun row => (applyTopKOnly k.toNat row).1,
          some (logits.map fun row => (applyTopKOnly k.toNat row).2))
      else (logits.map finite,none)
  else
    let numTokens := logits.length
    let filled := (List.range (rangeSteps numTokens chunkSize)).foldl (fun out i =>
        let startIdx := i * chunkSize
        let endIdx := min (startIdx + chunkSize) numTokens
        let chunk := ((logits.drop startIdx).take (endIdx - startIdx)).map (applySorted e topK topP)
        (setSlice out.1 startIdx endIdx (chunk.map Prod.fst),
          setSlice out.2 startIdx endIdx (chunk.map Prod.snd)))
      (List.replicate numTokens [],List.replicate numTokens [])
    (filled.1,some filled.2)

/-- `apply_top_k_top_p`: nothing is done when nothing is to be filtered. -/
def applyTopKTopP (topK : Option ℤ) (topP : K) (chunkSize : ℕ) (logits : List (List K)) :
    List (List (WithBot K)) × Option (List (List Bool)) :=
  if !needTopKFiltering topK && !needTopPFiltering topP then (logits.map finite,none)
  else applyTopKTopPFn e topK topP chunkSize logits

def descending (row : List K) : List ℕ := (sortIndices row).reverse

def topCount (topK : Option ℤ) (n : ℕ) : ℕ :=
  match topK with
  | none => n
  | some k => if 0 < k then k.toNat else n

def massOf (row : List K) (tokens : List ℕ) : K := (tokens.map fun v => e.exp (row.getD v 0)).sum

/-- The shortest front of the `k` largest logits whose mass among them reaches `p`. -/
noncomputable def keptTokens (k : ℕ) (p : K) (row : List K) : List ℕ :=
  let top := (descending row).take k
  top.take (reach (top.map fun v => e.exp (row.getD v 0) / massOf e row top) p)

def keptLogits (row : List K) (kept : List ℕ) : List (WithBot K) :=
  (List.range row.length).map fun v => if v ∈ kept then ((row.getD v 0 : K) : WithBot K) else ⊥

def keptMask (row : List K) (kept : List ℕ) : List Bool :=
  (List.range row.length).map fun v => decide (v ∈ kept)

end

open Chunks Gather Packed Softmax SortByKey

variable {K : Type*} [Field K] [LinearOrder K] {row : List K}

omit [LinearOrder K] in
theorem map_getD (row : List K) : (List.range row.length).map (row.getD · 0) = row := by
  refine List.ext_getElem (by simp) fun v hv _ => ?_
  rw [List.length_map,List.length_range] at hv
  simp [hv]

theorem sortIndices_perm (row : List K) : (sortIndices row).Perm (List.range row.length) :=
  sortByKey_perm _ _

theorem length_sortIndices (row : List K) : (sortIndices row).length = row.length := by
  rw [(sortIndices_perm row).length_eq,List.length_range]

theorem mem_sortIndices {v : ℕ} : v ∈ sortIndices row ↔ v < row.length := by
  rw [(sortIndices_perm row).mem_iff,List.mem_range]

theorem nodup_sortIndices (row : List K) : (sortIndices row).Nodup :=
  (sortIndices_perm row).nodup_iff.mpr List.nodup_range

theorem pairwise_sortIndices (h : row.Nodup) :
    (sortIndices row).Pairwise fun u v => row.getD u 0 < row.getD v 0 := by
  have hle := pairwise_sortByKey (fun v => row.getD v 0) (List.range row.length)
  refine (hle.and (nodup_sortIndices row)).imp_of_mem fun {u v} hu hv huv => ?_
  refine lt_of_le_of_ne huv.1 fun heq => huv.2 ?_
  have hu := mem_sortIndices.mp hu
  have hv := mem_sortIndices.mp hv
  rw [List.getD_eq_getElem _ _ hu,List.getD_eq_getElem _ _ hv] at heq
  exact (List.Nodup.getElem_inj_iff h).mp heq

theorem descending_perm (row : List K) : (descending row).Perm (List.range row.length) :=
  (List.reverse_perm _).trans (sortIndices_perm row)

theorem nodup_descending (row : List K) : (descending row).Nodup :=
  List.nodup_reverse.mpr (nodup_sortIndices row)

theorem length_descending (row : List K) : (descending row).length = row.length := by
  rw [descending,List.length_reverse,length_sortIndices]

theorem sortByKey_id (h : row.Nodup) :
    sortByKey id row = (sortIndices row).map fun v => row.getD v 0 := by
  refine sortByKey_eq ?_ ?_ fun a _ b _ heq => heq
  · have hmap := (sortIndices_perm row).symm.map fun v => row.getD v 0
    rwa [map_getD] at hmap
  · exact List.pairwise_map.mpr ((pairwise_sortIndices h).imp fun hlt => hlt.le)

/-- What is scattered along the order of a row, for every token. -/
theorem scatter_sortIndices {β : Type*} (f : ℕ → β) (row : List K) :
    scatter ((sortIndices row).map f) (sortIndices row) ((sortIndices row).map f) =
      (List.range row.length).map f := by
  have hlength : ((sortIndices row).map f).length = row.length := by
    rw [List.length_map,length_sortIndices]
  have hwithin := within_perm (sortIndices_perm row)
  refine gather_injective (sortIndices_perm row) (by rw [length_scatter,hlength]) (by simp) ?_
  rw [gather_scatter (nodup_sortIndices row) (hlength.symm ▸ hwithin) (by simp),gather_map,
    gather_positions hwithin]

/-- The tokens with the largest logits are at the end of the order. -/
theorem mem_take_descending {i : ℕ} (hi : i < (sortIndices row).length) (m : ℕ) :
    (sortIndices row)[i] ∈ (descending row).take m ↔ row.length - m ≤ i := by
  have hn := length_sortIndices row
  rw [descending,List.take_reverse,List.mem_reverse,hn]
  constructor
  · intro hmem
    by_contra hlt
    have hfront : (sortIndices row)[i] ∈ (sortIndices row).take (row.length - m) :=
      List.mem_take_iff_getElem.mpr ⟨i,by omega,rfl⟩
    exact List.disjoint_take_drop (nodup_sortIndices row) le_rfl hfront hmem
  · intro hle
    exact List.mem_drop_iff_getElem.mpr ⟨i - (row.length - m),by omega,by congr 1; omega⟩

/-- A filter that leaves the tokens of a front of the order. -/
theorem mem_top_iff {k : ℕ} (hk : 0 < k) (hkn : k ≤ row.length) (h : row.Nodup) {i : ℕ}
    (hi : i < (sortIndices row).length) :
    (((sortIndices row).map fun v => ((row.getD v 0 : K) : WithBot K)).getD
        (((sortIndices row).map fun v => ((row.getD v 0 : K) : WithBot K)).length - k) ⊥ ≤
      ((row.getD (sortIndices row)[i] 0 : K) : WithBot K)) ↔
      (sortIndices row)[i] ∈ (descending row).take k := by
  have hn := length_sortIndices row
  have hlt : row.length - k < (sortIndices row).length := by omega
  have hordered := List.pairwise_iff_getElem.mp (pairwise_sortIndices h)
  rw [mem_take_descending hi,List.length_map,hn,
    List.getD_eq_getElem _ _ (by rw [List.length_map]; omega),List.getElem_map,WithBot.coe_le_coe]
  constructor
  · intro hle
    by_contra hnot
    exact absurd (hordered i (row.length - k) hi hlt (by omega)) (not_lt.mpr hle)
  · intro hle
    rcases Nat.eq_or_lt_of_le hle with heq | hless
    · subst heq
      exact le_rfl
    · exact (hordered (row.length - k) i hlt hi hless).le

omit [LinearOrder K] in
/-- Among the first elements only those of the front count. -/
theorem sum_take_front (f : ℕ → K) {top rest : List ℕ} (h : (top ++ rest).Nodup) (j : ℕ) :
    (((top ++ rest).take j).map fun v => if v ∈ top then f v else 0).sum =
      ((top.take j).map f).sum := by
  have hrest : ∀ v ∈ rest, v ∉ top := fun v hv htop =>
    (List.nodup_append.mp h).2.2 v htop v hv rfl
  have hfront : ((top.take j).map fun v => if v ∈ top then f v else 0) = (top.take j).map f :=
    List.map_congr_left fun v hv => if_pos (List.mem_of_mem_take hv)
  have hzero : ((rest.take (j - top.length)).map fun v => if v ∈ top then f v else 0) =
      (rest.take (j - top.length)).map fun _ => 0 :=
    List.map_congr_left fun v hv => if_neg (hrest v (List.mem_of_mem_take hv))
  rw [List.take_append,List.map_append,List.sum_append,hfront,hzero]
  simp

/-- The largest logits from the end of the order on. -/
theorem sum_drop_sortIndices (row : List K) (f : ℕ → K) (k i : ℕ) :
    (((sortIndices row).drop i).map fun v => if v ∈ (descending row).take k then f v else 0).sum =
      ((((descending row).take k).take (row.length - i)).map f).sum := by
  have hdrop : (sortIndices row).drop i = ((descending row).take (row.length - i)).reverse := by
    rw [← List.reverse_reverse (sortIndices row),← descending,List.drop_reverse,length_descending]
  have hnodup := nodup_descending row
  rw [← List.take_append_drop k (descending row)] at hnodup
  have hfront := sum_take_front f hnodup (row.length - i)
  rw [List.take_append_drop] at hfront
  rw [hdrop,((List.reverse_perm _).map _).sum_eq,hfront]

theorem take_take_descending (row : List K) (k : ℕ) :
    ((descending row).take k).take row.length = (descending row).take k :=
  List.take_of_length_le (by rw [List.length_take,length_descending]; exact Nat.min_le_right _ _)

end Logprob
end DockyardRL
