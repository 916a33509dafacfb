import DockyardRL.Logprob.Dense

/-! Log-probabilities after top-k and top-p filtering: the ranks exchange their parts of the
vocabulary for whole rows of some positions, filter them, and send the gradient back.

The two exchanges: parts of the vocabulary for whole rows, and back. -/
namespace DockyardRL
namespace Logprob

section

open Chunks Exchange Grid Softmax

variable {K : Type} [Field K] [LinearOrder K]

/-- `if not condition: raise ValueError(message)`. -/
def require (condition : Bool) (message : String) : Except Raised Unit :=
  if condition then .ok () else .error (.value message)

/-- `l[start:stop]`. -/
def rowsBetween {α : Type} (l : List α) (start stop : ℕ) : List α := (l.drop start).take (stop - start)

/-- `all_to_all_single` without split sizes. -/
def exchange (tp : ℕ) (inputs : ℕ → List K) : Except Raised (ℕ → List K) :=
  match allToAllSingle tp (equalSplits tp inputs) (equalSplits tp inputs) inputs with
  | some outputs => .ok outputs
  | none => .error .splitSizes

/-- `all_to_all_vp2sq`: from `[BS,V_local]` to `[BS_local,V]`. -/
def allToAllVp2sq (tp : ℕ) (vocabParallelLogits : ℕ → List (List K)) :
    Except Raised (ℕ → List (List K)) := do
  let BS := (vocabParallelLogits 0).length
  let vLocal := ((vocabParallelLogits 0).headD []).length
  require (BS % tp = 0) (s!"BS={BS} must be divisible by tensor parallel size {tp}. " ++
    "Set policy.make_sequence_length_divisible_by to ensure divisibility.")
  let bsLocal := BS / tp
  let outputFlat ← exchange tp fun r => (vocabParallelLogits r).flatten
  return fun r => (List.range bsLocal).map fun i => (List.range tp).flatMap fun w =>
    ((outputFlat r).drop ((w * bsLocal + i) * vLocal)).take vLocal

/-- `all_to_all_sq2vp`: from `[BS_local,V]` to `[BS,V_local]`. -/
def allToAllSq2vp (tp : ℕ) (seqParallelLogits : ℕ → List (List K)) :
    Except Raised (ℕ → List (List K)) := do
  let bsLocal := (seqParallelLogits 0).length
  let V := ((seqParallelLogits 0).headD []).length
  require (V % tp = 0) s!"Vocabulary size {V} must be divisible by tensor parallel size {tp}"
  let vLocal := V / tp
  let outputFlat ← exchange tp fun r => (List.range tp).flatMap fun w =>
    (seqParallelLogits r).flatMap fun row => (row.drop (w * vLocal)).take vLocal
  return fun r => (List.range (tp * bsLocal)).map fun i => ((outputFlat r).drop (i * vLocal)).take vLocal

variable (e : Exponential K)

/-- `torch.nn.functional.log_softmax(logits, dim=-1)`. -/
def logSoftmax (logits : List (WithBot K)) : List (WithBot K) :=
  logits.map fun x => x.map fun y => y - e.log (logits.map e.expBot).sum

/-- The rows of a rank: their log-softmax after the filter, and the mask of the filter. -/
structure FilteredRows (K : Type) where
  logProbs : List (List (WithBot K))
  keepMask : Option (List (List Bool))

def filteredRows (tp : ℕ) (topK : Option ℤ) (topP : K) (vocabParallelLogits : ℕ → List (List K)) :
    Except Raised (ℕ → FilteredRows K) := do
  let seqParallelLogits ← allToAllVp2sq tp vocabParallelLogits
  return fun r =>
    let filtered := applyTopKTopP e topK topP topKTopPChunkSize (seqParallelLogits r)
    ⟨filtered.1.map (logSoftmax e),filtered.2⟩

/-- `torch.gather` at the targets of a rank. -/
def gatherTargets (logProbs : List (List (WithBot K))) (targetLocal : List ℕ) : List (WithBot K) :=
  List.zipWith (fun row t => row.getD t ⊥) logProbs targetLocal

/-- `all_gather` and `torch.cat`. -/
def allGather {α : Type} (tp : ℕ) (x : ℕ → List α) : List α := (List.range tp).flatMap x

/-- The gradient of the rows of a rank. -/
def localGradient (softmaxOutput : List (List K)) (targetLocal : List ℕ)
    (keepMask : Option (List (List Bool))) (gradOutputLocal : List K) : List (List K) :=
  let V := (softmaxOutput.headD []).length
  let isChosen := targetLocal.map fun t => oneHot t V
  let difference := List.zipWith (List.zipWith fun x y => x - y) isChosen softmaxOutput
  let gradLogitsLocal := List.zipWith (fun row g => row.map fun x => x * g) difference gradOutputLocal
  match keepMask with
  | none => gradLogitsLocal
  | some mask =>
    List.zipWith (List.zipWith fun x keep => x * if keep then 1 else 0) gradLogitsLocal mask

/-- What is raised for a number of positions that the ranks cannot share. -/
def indivisible (BS worldSize : ℕ) : String :=
  s!"B*S={BS} must be divisible by tensor parallel size {worldSize} when using top-p/top-k sampling. " ++
    "Please set policy.make_sequence_length_divisible_by to tensor parallel size."

namespace DistributedLogprobWithSampling

structure Saved (K : Type) where
  softmaxOutput : List (List K)
  targetLocal : List ℕ
  keepMask : Option (List (List Bool))
  bsLocal : ℕ
  B : ℕ
  S : ℕ

def forward (tp : ℕ) (vocabParallelLogits : ℕ → Grid (List K)) (target : Grid ℕ) (topK : Option ℤ)
    (topP : K) (inferenceOnly : Bool) : Except Raised (Grid (WithBot K) × (ℕ → Option (Saved K))) := do
  let B := (vocabParallelLogits 0).rows
  let S := (vocabParallelLogits 0).cols
  let BS := B * S
  require (BS % tp = 0) (indivisible BS tp)
  let bsLocal := BS / tp
  let targetLocal := fun r => rowsBetween target.flatten (r * bsLocal) ((r + 1) * bsLocal)
  let rows ← filteredRows e tp topK topP fun r => (vocabParallelLogits r).flatten
  let tokenLogprobs := allGather tp fun r => gatherTargets (rows r).logProbs (targetLocal r)
  return (Grid.view B S ⊥ tokenLogprobs,fun r =>
    if inferenceOnly then none
    else some ⟨(rows r).logProbs.map fun row => row.map e.expBot,targetLocal r,(rows r).keepMask,
      bsLocal,B,S⟩)

def backward (tp : ℕ) (saved : ℕ → Saved K) (gradOutput : Grid K) :
    Except Raised (ℕ → Grid (List K)) := do
  let gradVocabParallel ← allToAllSq2vp tp fun r =>
    localGradient (saved r).softmaxOutput (saved r).targetLocal (saved r).keepMask
      (rowsBetween gradOutput.flatten (r * (saved r).bsLocal) ((r + 1) * (saved r).bsLocal))
  return fun r => Grid.view (saved r).B (saved r).S [] (gradVocabParallel r)

end DistributedLogprobWithSampling

namespace ChunkedDistributedLogprobWithSampling

structure Saved (K : Type) where
  vocabParallelLogits : Grid (List K)
  target : Grid ℕ
  topK : Option ℤ
  topP : K
  chunkSize : ℕ

/-- `torch.cat(chunks, dim=0)`. -/
def catFlat {α : Type} (chunks : List (List α)) : Except Raised (List α) :=
  match chunks with
  | [] => .error .emptyCat
  | _ :: _ => .ok chunks.flatten

/-- `torch.cat(chunks, dim=0)` on every rank. -/
def catRanks {α : Type} (chunks : List (ℕ → List α)) : Except Raised (ℕ → List α) :=
  match chunks with
  | [] => .error .emptyCat
  | _ :: _ => .ok fun r => chunks.flatMap fun chunk => chunk r

def forwardChunk (tp : ℕ) (vocabParallelLogits : ℕ → List (List K)) (target : List ℕ) (topK : Option ℤ)
    (topP : K) (chunkStart chunkEnd : ℕ) : Except Raised (List (WithBot K)) := do
  let localChunkSize := (chunkEnd - chunkStart) / tp
  let targetChunk := rowsBetween target chunkStart chunkEnd
  let targetLocal := fun r => rowsBetween targetChunk (r * localChunkSize) ((r + 1) * localChunkSize)
  let rows ← filteredRows e tp topK topP fun r =>
    rowsBetween (vocabParallelLogits r) chunkStart chunkEnd
  return allGather tp fun r => gatherTargets (rows r).logProbs (targetLocal r)

def forward (tp : ℕ) (vocabParallelLogits : ℕ → Grid (List K)) (target : Grid ℕ) (topK : Option ℤ)
    (topP : K) (chunkSize : ℕ) (inferenceOnly : Bool) :
    Except Raised (Grid (WithBot K) × (ℕ → Option (Saved K))) := do
  let B := (vocabParallelLogits 0).rows
  let S := (vocabParallelLogits 0).cols
  let BS := B * S
  require (BS % tp = 0) (indivisible BS tp)
  let effectiveChunkSize := chunkSize * B
  require (effectiveChunkSize % tp = 0)
    (s!"Effective chunk size {effectiveChunkSize} = chunk_size {chunkSize} * B {B} must be divisible " ++
      s!"by the tensor parallel size {tp}.")
  let chunks ← numChunks BS effectiveChunkSize
  let allTokenLogprobs ← (List.range chunks).mapM fun chunkIdx =>
    forwardChunk e tp (fun r => (vocabParallelLogits r).flatten) target.flatten topK topP
      (chunkIdx * effectiveChunkSize) (min BS ((chunkIdx + 1) * effectiveChunkSize))
  let tokenLogprobs ← catFlat allTokenLogprobs
  return (Grid.view B S ⊥ tokenLogprobs,fun r =>
    if inferenceOnly then none
    else some ⟨vocabParallelLogits r,target,topK,topP,chunkSize⟩)

/-- The gradient of a chunk of positions, which computes the rows anew. -/
def backwardChunk (tp : ℕ) (vocabParallelLogits : ℕ → List (List K)) (target : List ℕ)
    (topK : Option ℤ) (topP : K) (gradOutput : List K) (chunkStart chunkEnd : ℕ) :
    Except Raised (ℕ → List (List K)) := do
  let localChunkSize := (chunkEnd - chunkStart) / tp
  let targetChunk := rowsBetween target chunkStart chunkEnd
  let targetLocal := fun r => rowsBetween targetChunk (r * localChunkSize) ((r + 1) * localChunkSize)
  let rows ← filteredRows e tp topK topP fun r =>
    rowsBetween (vocabParallelLogits r) chunkStart chunkEnd
  let gradChunk := rowsBetween gradOutput chunkStart chunkEnd
  let gradLocal := fun r => rowsBetween gradChunk (r * localChunkSize) ((r + 1) * localChunkSize)
  allToAllSq2vp tp fun r =>
    localGradient ((rows r).logProbs.map fun row => row.map e.expBot) (targetLocal r) (rows r).keepMask
      (gradLocal r)

def backward (tp : ℕ) (saved : ℕ → Saved K) (gradOutput : Grid K) :
    Except Raised (ℕ → Grid (List K)) := do
  let B := (saved 0).vocabParallelLogits.rows
  let S := (saved 0).vocabParallelLogits.cols
  let BS := B * S
  let effectiveChunkSize := (saved 0).chunkSize * B
  let chunks ← numChunks BS effectiveChunkSize
  let allGradChunks ← (List.range chunks).mapM fun chunkIdx =>
    backwardChunk e tp (fun r => (saved r).vocabParallelLogits.flatten) (saved 0).target.flatten
      (saved 0).topK (saved 0).topP gradOutput.flatten (chunkIdx * effectiveChunkSize)
      (min BS ((chunkIdx + 1) * effectiveChunkSize))
  let gradVocabParallel ← catRanks allGradChunks
  return fun r => Grid.view B S [] (gradVocabParallel r)

end ChunkedDistributedLogprobWithSampling

end

open Chunks Exchange Grid

variable {K : Type} {tp vLocal m : ℕ}

theorem part_flatten {α : Type} {rows : List (List α)} {k : ℕ} (h : ∀ row ∈ rows, row.length = k) {t : ℕ}
    (ht : t < rows.length) : part k t rows.flatten = rows[t] := by
  have hlength := length_flatten_rows h
  have hfit : t * k + k ≤ rows.flatten.length := by
    rw [hlength,← Nat.succ_mul]
    exact Nat.mul_le_mul_right _ ht
  refine List.ext_getElem ?_ fun v hv hv' => ?_
  · rw [part,List.length_take,List.length_drop,h _ (List.getElem_mem ht)]
    omega
  · have hk : v < k := by rwa [h _ (List.getElem_mem ht)] at hv'
    have hvalue := getD_flatten_rows h rows[t][v] (t := t) hk
    rw [List.getD_eq_getElem _ _ (by omega),List.getD_eq_getElem _ _ ht,
      List.getD_eq_getElem _ _ hv'] at hvalue
    simp only [part,List.getElem_take,List.getElem_drop]
    exact hvalue

theorem exchange_segments {c : ℕ} (htp : 0 < tp) (h : ℕ → ℕ → List K) (inputs : ℕ → List K)
    (hlength : ∀ r < tp, ∀ d < tp, (h r d).length = c)
    (hinputs : ∀ r < tp, inputs r = (List.range tp).flatMap (h r)) :
    ∃ out, exchange tp inputs = .ok out ∧ ∀ d < tp, out d = (List.range tp).flatMap fun r => h r d := by
  have hsizes : ∀ r < tp, equalSplits tp inputs r = (List.range tp).map fun _ => c := by
    intro r hr
    have hmap : ((List.range tp).map fun d => (h r d).length) = (List.range tp).map fun _ => c :=
      List.map_congr_left fun d hd => hlength r hr d (List.mem_range.mp hd)
    rw [equalSplits,hinputs r hr,length_flatMap_range,hmap]
    simp [Nat.mul_div_cancel_left c htp]
  obtain ⟨out,hout,hrows⟩ := allToAllSingle_segments h hinputs
    (fun r hr => (hsizes r hr).trans (List.map_congr_left fun d hd =>
      (hlength r hr d (List.mem_range.mp hd)).symm))
    (fun d hd => (hsizes d hd).trans (List.map_congr_left fun r hr =>
      (hlength r (List.mem_range.mp hr) d hd).symm))
  exact ⟨out,by rw [exchange,hout],hrows⟩

section Items

variable {ι : Type} {items : List ι}

theorem mem_of_mem_part {r : ℕ} {i : ι} (h : i ∈ part m r items) : i ∈ items :=
  List.mem_of_mem_drop (List.mem_of_mem_take h)

theorem length_flatMap_part (hitems : items.length = tp * m) {R : ι → List K} {d : ℕ} (hd : d < tp)
    {r : ℕ} (hr : r < tp) (hR : ∀ i ∈ items, (R i).length = tp * vLocal) :
    ((part m d items).flatMap fun i => part vLocal r (R i)).length = m * vLocal := by
  have hparts : ((part m d items).map fun i => (part vLocal r (R i)).length) =
      (part m d items).map fun _ => vLocal :=
    List.map_congr_left fun i hi => length_part (hR i (mem_of_mem_part hi)) hr
  rw [List.length_flatMap,hparts]
  simp [length_part hitems hd]

theorem received_row (hitems : items.length = tp * m) {R : ι → List K} {d : ℕ} (hd : d < tp)
    (hR : ∀ i ∈ items, (R i).length = tp * vLocal) {w i : ℕ} (hw : w < tp)
    (hi : i < (part m d items).length) :
    part vLocal (w * m + i) ((List.range tp).flatMap fun r =>
        (part m d items).flatMap fun j => part vLocal r (R j)) =
      part vLocal w (R (part m d items)[i]) := by
  have hm := length_part hitems hd
  let rows := (List.range tp).map fun r => (part m d items).map fun j => part vLocal r (R j)
  have hrow : ∀ l ∈ rows, l.length = m := by
    intro l hl
    obtain ⟨r,-,rfl⟩ := List.mem_map.mp hl
    rw [List.length_map,hm]
  have hcell : ∀ l ∈ rows.flatten, l.length = vLocal := by
    intro l hl
    obtain ⟨l',hl',hmem⟩ := List.mem_flatten.mp hl
    obtain ⟨r,hr,rfl⟩ := List.mem_map.mp hl'
    obtain ⟨j,hj,rfl⟩ := List.mem_map.mp hmem
    exact length_part (hR j (mem_of_mem_part hj)) (List.mem_range.mp hr)
  have hflat : ((List.range tp).flatMap fun r =>
      (part m d items).flatMap fun j => part vLocal r (R j)) = rows.flatten.flatten := by
    rw [List.flatten_flatten,List.map_map,← List.flatMap_def]
    exact List.flatMap_congr fun r _ => List.flatMap_def
  have hlength : rows.flatten.length = tp * m := by
    rw [length_flatten_rows hrow]
    simp [rows]
  have hlt : w * m + i < rows.flatten.length := by
    have hle : (w + 1) * m ≤ tp * m := Nat.mul_le_mul_right _ hw
    rw [Nat.succ_mul] at hle
    omega
  have hvalue := getD_flatten_rows hrow [] (t := w) (by omega : i < m)
  rw [List.getD_eq_getElem _ _ hlt] at hvalue
  rw [hflat,part_flatten hcell hlt,hvalue,getD_range_map _ _ hw,
    List.getD_eq_getElem _ _ (by rwa [List.length_map]),List.getElem_map]

/-- Each rank gets the whole rows of its positions. -/
theorem allToAllVp2sq_eq (htp : 0 < tp) (hitems : items.length = tp * m) {R : ι → List K}
    (hR : ∀ i ∈ items, (R i).length = tp * vLocal) {x : ℕ → List (List K)}
    (hx : ∀ r < tp, x r = items.map fun i => part vLocal r (R i)) :
    ∃ out, allToAllVp2sq tp x = .ok out ∧ ∀ d < tp, out d = (part m d items).map R := by
  have hflat : ∀ r < tp, (x r).flatten = (List.range tp).flatMap fun d =>
      (part m d items).flatMap fun i => part vLocal r (R i) := by
    intro r hr
    rw [hx r hr,← List.flatMap_def,← List.flatMap_assoc,flatMap_part hitems]
  obtain ⟨out,hout,hrows⟩ := exchange_segments htp
    (fun r d => (part m d items).flatMap fun i => part vLocal r (R i)) (fun r => (x r).flatten)
    (fun r hr d hd => length_flatMap_part hitems hd hr hR) hflat
  have hBS : (x 0).length = tp * m := by rw [hx 0 htp,List.length_map,hitems]
  refine ⟨_,by rw [allToAllVp2sq]; dsimp only; rw [hBS,require,Nat.mul_mod_right,hout]; rfl,fun d hd => ?_⟩
  have hd' := length_part hitems hd
  rw [Nat.mul_div_cancel_left m htp]
  refine List.ext_getElem (by simp [hd']) fun i hi hi' => ?_
  rw [List.length_map,List.length_range] at hi
  have hwidth : ((x 0).headD []).length = vLocal := by
    have hitem : 0 < items.length := by
      rw [hitems]
      exact Nat.mul_pos htp (by omega)
    obtain ⟨j,rest,rfl⟩ := List.exists_cons_of_length_pos hitem
    rw [hx 0 htp]
    exact length_part (hR j List.mem_cons_self) htp
  rw [List.getElem_map,List.getElem_range,hwidth,List.getElem_map,hrows d hd]
  refine (List.flatMap_congr fun w hw => ?_).trans
    (flatMap_part (hR _ (mem_of_mem_part (List.getElem_mem (by omega)))))
  exact received_row hitems hd hR (List.mem_range.mp hw) (by omega)

/-- The parts of whole rows go back to the ranks of the vocabulary. -/
theorem allToAllSq2vp_eq (htp : 0 < tp) (hitems : items.length = tp * m) {D : ι → List K}
    (hD : ∀ i ∈ items, (D i).length = tp * vLocal) {y : ℕ → List (List K)}
    (hy : ∀ d < tp, y d = (part m d items).map D) :
    ∃ out, allToAllSq2vp tp y = .ok out ∧
      ∀ r < tp, out r = items.map fun i => part vLocal r (D i) := by
  have hlocal : (y 0).length = m := by rw [hy 0 htp,List.length_map,length_part hitems htp]
  have hV : ∃ width, ((y 0).headD []).length = tp * width ∧ (0 < m → width = vLocal) := by
    rcases Nat.eq_zero_or_pos m with hm | hm
    · refine ⟨0,?_,fun h => absurd h (by omega)⟩
      rw [List.eq_nil_of_length_eq_zero (hlocal.trans hm)]
      rfl
    · have hpart : 0 < (part m 0 items).length := by rwa [length_part hitems htp]
      obtain ⟨j,rest,hcons⟩ := List.exists_cons_of_length_pos hpart
      refine ⟨vLocal,?_,fun _ => rfl⟩
      rw [hy 0 htp,hcons]
      exact hD j (mem_of_mem_part (hcons ▸ List.mem_cons_self))
  obtain ⟨width,hV,hwidth⟩ := hV
  have hitem : ∀ i ∈ items, width = vLocal := by
    intro i hi
    refine hwidth (Nat.pos_of_ne_zero fun hm => ?_)
    rw [hm,Nat.mul_zero] at hitems
    rw [List.eq_nil_of_length_eq_zero hitems] at hi
    cases hi
  obtain ⟨out,hout,hrows⟩ := exchange_segments htp
    (fun d w => (part m d items).flatMap fun i => part width w (D i))
    (fun d => (List.range tp).flatMap fun w => (y d).flatMap fun row =>
      (row.drop (w * width)).take width)
    (fun d hd w hw => length_flatMap_part hitems hd hw fun i hi => by rw [hitem i hi]; exact hD i hi)
    (fun d hd => by rw [hy d hd]; simp only [List.flatMap_map]; rfl)
  refine ⟨_,by rw [allToAllSq2vp]; dsimp only; rw [hV,require,Nat.mul_mod_right,
    Nat.mul_div_cancel_left _ htp,hout]; rfl,fun r hr => ?_⟩
  have hrow : ∀ l ∈ items.map fun i => part width r (D i), l.length = width := by
    intro l hl
    obtain ⟨i,hi,rfl⟩ := List.mem_map.mp hl
    have hlength := hD i hi
    rw [← hitem i hi] at hlength
    exact length_part hlength hr
  have hflat : out r = (items.map fun i => part width r (D i)).flatten := by
    rw [hrows r hr,← List.flatMap_assoc,flatMap_part hitems,List.flatMap_def]
  rw [hlocal,← hitems,hflat]
  refine List.ext_getElem (by simp) fun i hi _ => ?_
  rw [List.length_map,List.length_range] at hi
  have hpart := part_flatten hrow (t := i) (by rwa [List.length_map])
  rw [List.getElem_map] at hpart
  rw [List.getElem_map,List.getElem_range,List.getElem_map]
  exact hpart.trans (congrArg (fun w => part w r (D items[i])) (hitem _ (List.getElem_mem hi)))

end Items

end Logprob
end DockyardRL
