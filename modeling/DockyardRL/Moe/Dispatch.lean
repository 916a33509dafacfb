import DockyardRL.Lib.Exchange
import DockyardRL.Lib.SortByKey
import Mathlib.Algebra.Module.Defs

/-! Tokens are reordered by the experts that they are routed to, are exchanged between the ranks
that own the experts, and come back to be added up at the rows they came from.

The slots of a rank in the order of their experts, and the sums that they come back to. -/
namespace DockyardRL
namespace Moe

open Exchange Gather SortByKey

/-- The degrees of `MoEParallelDims` that place experts. -/
structure MoEParallelDims where
  worldSize : ℕ
  ep : ℕ
  ep_pos : 0 < ep

def MoEParallelDims.epCoord (dims : MoEParallelDims) (globalRank : ℕ) : Option ℕ :=
  if globalRank < dims.worldSize then some (globalRank % dims.ep) else none

def MoEParallelDims.numLocalExperts (dims : MoEParallelDims) (numExperts : ℕ) : Option ℕ :=
  if numExperts = 0 then none
  else if numExperts % dims.ep ≠ 0 then none
  else some (numExperts / dims.ep)

def MoEParallelDims.expertsForRank (dims : MoEParallelDims) (globalRank numExperts : ℕ) :
    Option (List ℕ) := do
  let localExperts ← dims.numLocalExperts numExperts
  let e ← dims.epCoord globalRank
  return List.range' (e * localExperts) localExperts

/-- The rows of one rank with the experts that each is routed to. -/
structure Routing (R M : Type) (topK numExperts : ℕ) where
  x : List M
  topkScores : List (List R)
  topkExpertIds : List (List ℕ)
  length_scores : topkScores.length = x.length
  length_ids : topkExpertIds.length = x.length
  scores_topK : ∀ row ∈ topkScores, row.length = topK
  ids_topK : ∀ row ∈ topkExpertIds, row.length = topK
  ids_distinct : ∀ row ∈ topkExpertIds, row.Nodup
  ids_lt : ∀ row ∈ topkExpertIds, ∀ e ∈ row, e < numExperts

def routingMap (numExperts : ℕ) (topkExpertIds : List (List ℕ)) : List (List Bool) :=
  topkExpertIds.map fun row =>
    row.foldl (fun hit e => hit.set e true) (List.replicate numExperts false)

/-- The counts of `routing_map_and_counts`. -/
def numTokensPerExpert (numExperts : ℕ) (topkExpertIds : List (List ℕ)) : List ℕ :=
  (List.range numExperts).map fun e =>
    ((routingMap numExperts topkExpertIds).map fun hit => (hit.getD e false).toNat).sum

/-- `torch.argsort(l, stable=True)`. -/
def argsort (l : List ℕ) : List ℕ := sortByKey (fun i => l.getD i 0) (List.range l.length)

/-- `out.index_add_(0, idx, rows)`. -/
def indexAdd {M : Type} [Add M] (out : List M) (idx : List ℕ) (rows : List M) : List M :=
  (idx.zip rows).foldl (fun out p => out.modify p.1 (· + p.2)) out

structure LocalDispatchMetadata (R : Type) where
  tokenIndices : List ℕ
  topkScores : List R

section Dispatcher

variable {R M : Type} {topK numExperts : ℕ}

def scaled [SMul R M] (rows : List M) (scores : List R) : List M :=
  List.zipWith (fun row score => score • row) rows scores

def localReorder [SMul R M] (scoreBeforeExperts : Bool) (routing : Routing R M topK numExperts) :
    List M × List ℕ × List R :=
  let order := argsort routing.topkExpertIds.flatten
  let scores := gather routing.topkScores.flatten order
  let tokens := order.map (· / topK)
  let routed := gather routing.x tokens
  (if scoreBeforeExperts then scaled routed scores else routed,tokens,scores)

/-- The end of `combine`: the scores that are due, and the sums. -/
def scoreAndAdd [SMul R M] [AddCommMonoid M] (scoreBeforeExperts : Bool) (routed : List M)
    (metadata : LocalDispatchMetadata R) (x : List M) : List M :=
  let rows := if scoreBeforeExperts then routed else scaled routed metadata.topkScores
  indexAdd (List.replicate x.length 0) metadata.tokenIndices rows

def LocalTokenDispatcher.dispatch [SMul R M] (scoreBeforeExperts : Bool)
    (routing : Routing R M topK numExperts) (counts : List ℕ) :
    List M × List ℕ × LocalDispatchMetadata R :=
  let reordered := localReorder scoreBeforeExperts routing
  (reordered.1,counts,⟨reordered.2.1,reordered.2.2⟩)

def LocalTokenDispatcher.combine [SMul R M] [AddCommMonoid M] (scoreBeforeExperts : Bool)
    (routed : List M) (metadata : LocalDispatchMetadata R) (x : List M) : List M :=
  scoreAndAdd scoreBeforeExperts routed metadata x

structure AllToAllDispatchMetadata (R : Type) extends LocalDispatchMetadata R where
  inputShape : ℕ
  permutedIndices : List ℕ
  inputSplits : List ℕ
  outputSplits : List ℕ

/-- What `_permute` returns. -/
structure Permuted (M : Type) where
  inputShape : ℕ
  rows : List M
  permutedIndices : List ℕ
  perExpert : List ℕ

def permute (epSize : ℕ) (rows : List M) (counts : List ℕ) : Permuted M :=
  let columns := transpose (reshape epSize counts)
  let segmentLens := columns.flatten
  let inputStarts := (transpose (reshape epSize (starts counts))).flatten
  let segIds := repeatInterleave segmentLens
  let outputStarts := starts segmentLens
  let permutedIndices := (List.range segIds.length).map fun i =>
    inputStarts.getD (segIds.getD i 0) 0 + i - outputStarts.getD (segIds.getD i 0) 0
  ⟨rows.length,gather rows permutedIndices,permutedIndices,columns.map List.sum⟩

/-- `_unpermute`. The buffer that the rows are written to may hold anything. -/
def unpermute (empty : ℕ → M) (rows : List M) (inputShape : ℕ) (permutedIndices : List ℕ) : List M :=
  scatter ((List.range inputShape).map empty) permutedIndices rows

/-- The end of `AllToAllTokenDispatcher.dispatch` on a rank, behind the exchanges. -/
def afterExchange (epSize : ℕ) (reordered : List M × List ℕ × List R) (received : List M)
    (globalCounts inputSplits outputSplits : List ℕ) :
    List M × List ℕ × AllToAllDispatchMetadata R :=
  let permuted := permute epSize received globalCounts
  (permuted.rows,permuted.perExpert,
    { tokenIndices := reordered.2.1
      topkScores := reordered.2.2
      inputShape := permuted.inputShape
      permutedIndices := permuted.permutedIndices
      inputSplits := inputSplits
      outputSplits := outputSplits })

/-- `AllToAllTokenDispatcher.dispatch` on the ranks of a group. -/
def AllToAllTokenDispatcher.dispatch [SMul R M] (epSize : ℕ) (scoreBeforeExperts : Bool)
    (routing : ℕ → Routing R M topK numExperts) (counts : ℕ → List ℕ) :
    Option (ℕ → List M × List ℕ × AllToAllDispatchMetadata R) := do
  let reordered := fun r => localReorder scoreBeforeExperts (routing r)
  let globalCounts ← allToAllSingle epSize (equalSplits epSize counts) (equalSplits epSize counts)
    counts
  let inputSplits := fun r => (reshape epSize (counts r)).map List.sum
  let outputSplits := fun r => (reshape epSize (globalCounts r)).map List.sum
  let received ← allToAllSingle epSize outputSplits inputSplits fun r => (reordered r).1
  return fun r => afterExchange epSize (reordered r) (received r) (globalCounts r) (inputSplits r)
    (outputSplits r)

/-- `AllToAllTokenDispatcher.combine` on the ranks of a group. -/
def AllToAllTokenDispatcher.combine [SMul R M] [AddCommMonoid M] (epSize : ℕ)
    (scoreBeforeExperts : Bool) (empty : ℕ → ℕ → M) (routed : ℕ → List M)
    (metadata : ℕ → AllToAllDispatchMetadata R) (x : ℕ → List M) : Option (ℕ → List M) := do
  let unpermuted := fun r =>
    unpermute (empty r) (routed r) (metadata r).inputShape (metadata r).permutedIndices
  let returned ← allToAllSingle epSize (fun r => (metadata r).inputSplits)
    (fun r => (metadata r).outputSplits) unpermuted
  return fun r =>
    scoreAndAdd scoreBeforeExperts (returned r) (metadata r).toLocalDispatchMetadata (x r)

/-- Expert `e` of a rank is applied to group `e` of the rows. -/
def applyExperts (expert : ℕ → M → M) (experts : List ℕ) (rows : List M) (counts : List ℕ) : List M :=
  (List.range counts.length).flatMap fun e =>
    (part counts rows e).map (expert (experts.getD e 0))

def localForward [SMul R M] [AddCommMonoid M] (scoreBeforeExperts : Bool) (expert : ℕ → M → M)
    (routing : Routing R M topK numExperts) : List M :=
  let dispatched := LocalTokenDispatcher.dispatch scoreBeforeExperts routing
    (numTokensPerExpert numExperts routing.topkExpertIds)
  LocalTokenDispatcher.combine scoreBeforeExperts
    (applyExperts expert (List.range numExperts) dispatched.1 dispatched.2.1) dispatched.2.2 routing.x

/-- A group of consecutive ranks, each with its own experts. -/
def expertParallelForward [SMul R M] [AddCommMonoid M] (dims : MoEParallelDims) (group : ℕ)
    (scoreBeforeExperts : Bool) (expert : ℕ → M → M) (empty : ℕ → ℕ → M)
    (routing : ℕ → Routing R M topK numExperts) : Option (ℕ → List M) := do
  let owned ← (List.range dims.ep).mapM fun r =>
    dims.expertsForRank (group * dims.ep + r) numExperts
  let dispatched ← AllToAllTokenDispatcher.dispatch dims.ep scoreBeforeExperts routing
    fun r => numTokensPerExpert numExperts (routing r).topkExpertIds
  AllToAllTokenDispatcher.combine dims.ep scoreBeforeExperts empty
    (fun r => applyExperts expert (owned.getD r []) (dispatched r).1 (dispatched r).2.1)
    (fun r => (dispatched r).2.2) fun r => (routing r).x

def denseMixture [SMul R M] [AddCommMonoid M] (expert : ℕ → M → M)
    (routing : Routing R M topK numExperts) : List M :=
  List.zipWith (fun row p => (List.zipWith (fun score e => score • expert e row) p.1 p.2).sum)
    routing.x (routing.topkScores.zip routing.topkExpertIds)

end Dispatcher

section IndexAdd

variable {M : Type} [AddCommMonoid M]

theorem length_indexAdd (out : List M) (idx : List ℕ) (rows : List M) :
    (indexAdd out idx rows).length = out.length := by
  rw [indexAdd]
  induction idx.zip rows generalizing out with
  | nil => rfl
  | cons p ps ih => rw [List.foldl_cons,ih,List.length_modify]

theorem getD_indexAdd (l : List ℕ) (place : ℕ → ℕ) (value : ℕ → M) {out : List M} {t : ℕ}
    (ht : t < out.length) : (indexAdd out (l.map place) (l.map value)).getD t 0 =
      out.getD t 0 + ((l.filter fun s => place s = t).map value).sum := by
  induction l generalizing out with
  | nil => simp [indexAdd]
  | cons s l ih =>
    have hcons : indexAdd out ((s :: l).map place) ((s :: l).map value) =
        indexAdd (out.modify (place s) (· + value s)) (l.map place) (l.map value) := rfl
    have hmodify : (out.modify (place s) (· + value s)).getD t 0 =
        if place s = t then out.getD t 0 + value s else out.getD t 0 := by
      rw [List.getD_eq_getElem _ _ (by rwa [List.length_modify]),List.getD_eq_getElem _ _ ht,
        List.getElem_modify]
    rw [hcons,ih (by rwa [List.length_modify]),hmodify]
    by_cases hs : place s = t
    · rw [if_pos hs,List.filter_cons_of_pos (by simpa using hs),List.map_cons,List.sum_cons,add_assoc]
    · rw [if_neg hs,List.filter_cons_of_neg (by simpa using hs)]

end IndexAdd

theorem getD_foldl_set (row : List ℕ) {hit : List Bool} {e : ℕ} (he : e < hit.length) :
    (row.foldl (fun hit e => hit.set e true) hit).getD e false =
      (hit.getD e false || decide (e ∈ row)) := by
  induction row generalizing hit with
  | nil => simp
  | cons f row ih =>
    have hset : (hit.set f true).getD e false = (hit.getD e false || decide (e = f)) := by
      rw [List.getD_eq_getElem _ _ (by rwa [List.length_set]),List.getD_eq_getElem _ _ he,
        List.getElem_set]
      by_cases hfe : f = e
      · rw [if_pos hfe,decide_eq_true hfe.symm,Bool.or_true]
      · rw [if_neg hfe,decide_eq_false (Ne.symm hfe),Bool.or_false]
    rw [List.foldl_cons,ih (by rwa [List.length_set]),hset,Bool.or_assoc]
    simp only [List.mem_cons,Bool.decide_or]

theorem sum_routingMap {n e : ℕ} (he : e < n) {rows : List (List ℕ)}
    (hrows : ∀ row ∈ rows, row.Nodup) :
    ((routingMap n rows).map fun hit => (hit.getD e false).toNat).sum = rows.flatten.count e := by
  induction rows with
  | nil => rfl
  | cons row rows ih =>
    have hfirst : ((row.foldl (fun hit e => hit.set e true)
        (List.replicate n false)).getD e false).toNat = row.count e := by
      rw [getD_foldl_set row (by rwa [List.length_replicate]),
        List.getD_eq_getElem _ _ (by rwa [List.length_replicate]),List.getElem_replicate,
        Bool.false_or,(hrows row List.mem_cons_self).count]
      by_cases hmem : e ∈ row
      · rw [if_pos hmem,decide_eq_true hmem]
        rfl
      · rw [if_neg hmem,decide_eq_false hmem]
        rfl
    have hrest := ih fun r hr => hrows r (List.mem_cons_of_mem row hr)
    rw [List.flatten_cons,List.count_append,← hfirst,← hrest]
    rfl

namespace Routing

variable {R M : Type} {topK numExperts : ℕ} (routing : Routing R M topK numExperts)

def expertOf (s : ℕ) : ℕ := routing.topkExpertIds.flatten.getD s 0

def slots (e : ℕ) : List ℕ :=
  (List.range (routing.x.length * topK)).filter fun s => routing.expertOf s = e

def order : List ℕ := (List.range numExperts).flatMap routing.slots

theorem length_ids_flatten : routing.topkExpertIds.flatten.length = routing.x.length * topK := by
  rw [length_flatten_rows routing.ids_topK,routing.length_ids]

theorem length_scores_flatten : routing.topkScores.flatten.length = routing.x.length * topK := by
  rw [length_flatten_rows routing.scores_topK,routing.length_scores]

theorem expertOf_lt {s : ℕ} (hs : s < routing.x.length * topK) :
    routing.expertOf s < numExperts := by
  have hlt : s < routing.topkExpertIds.flatten.length := by rwa [length_ids_flatten]
  rw [expertOf,List.getD_eq_getElem _ _ hlt]
  obtain ⟨row,hrow,hmem⟩ := List.mem_flatten.mp (List.getElem_mem hlt)
  exact routing.ids_lt row hrow _ hmem

theorem argsort_eq : argsort routing.topkExpertIds.flatten = routing.order := by
  rw [argsort,length_ids_flatten]
  exact sortByKey_eq_buckets fun s hs => routing.expertOf_lt (List.mem_range.mp hs)

theorem order_perm : routing.order.Perm (List.range (routing.x.length * topK)) := by
  have hperm := sortByKey_perm (fun i => routing.topkExpertIds.flatten.getD i 0)
    (List.range routing.topkExpertIds.flatten.length)
  rw [length_ids_flatten] at hperm
  rw [← argsort_eq,argsort,length_ids_flatten]
  exact hperm

theorem count_ids (e : ℕ) : routing.topkExpertIds.flatten.count e = (routing.slots e).length := by
  have hmap : (List.range routing.topkExpertIds.flatten.length).map routing.expertOf =
      routing.topkExpertIds.flatten :=
    (gather_eq_map _ 0 fun i hi => List.mem_range.mp hi).symm.trans (gather_range _)
  rw [slots,← length_ids_flatten,← List.countP_eq_length_filter]
  conv_lhs => rw [← hmap]
  rw [List.count,List.countP_map]
  exact List.countP_congr fun s _ => by simp

/-- The counts are those of the slots. -/
theorem numTokensPerExpert_eq : numTokensPerExpert numExperts routing.topkExpertIds =
    (List.range numExperts).map fun e => (routing.slots e).length := by
  rw [numTokensPerExpert]
  refine List.map_congr_left fun e he => ?_
  rw [sum_routingMap (List.mem_range.mp he) routing.ids_distinct,count_ids]

variable [Semiring R] [AddCommMonoid M] [Module R M]

def scoreOf (s : ℕ) : R := routing.topkScores.flatten.getD s 0

def rowOf (s : ℕ) : M := routing.x.getD (s / topK) 0

def sent (scoreBeforeExperts : Bool) (s : ℕ) : M :=
  if scoreBeforeExperts then routing.scoreOf s • routing.rowOf s else routing.rowOf s

theorem localReorder_eq (scoreBeforeExperts : Bool) : localReorder scoreBeforeExperts routing =
    (routing.order.map (routing.sent scoreBeforeExperts),routing.order.map (· / topK),
      routing.order.map routing.scoreOf) := by
  have hwithin := within_perm routing.order_perm
  have hscores : gather routing.topkScores.flatten routing.order =
      routing.order.map routing.scoreOf :=
    gather_eq_map _ 0 (by rwa [length_scores_flatten])
  have hrows : gather routing.x (routing.order.map (· / topK)) = routing.order.map routing.rowOf := by
    have htokens : Within (routing.order.map (· / topK)) routing.x.length := by
      intro t ht
      obtain ⟨s,hs,rfl⟩ := List.mem_map.mp ht
      have hlt := hwithin s hs
      rw [Nat.mul_comm] at hlt
      exact Nat.div_lt_of_lt_mul hlt
    rw [gather_eq_map _ 0 htokens,List.map_map]
    rfl
  unfold localReorder
  dsimp only
  rw [argsort_eq,hscores,hrows]
  cases scoreBeforeExperts with
  | false => rfl
  | true =>
    rw [if_pos rfl,scaled,List.zipWith_map,List.zipWith_self]
    rfl

/-- The sums at the rows are the mixture. -/
theorem scoreAndAdd_order {scoreBeforeExperts : Bool} {expert : ℕ → M → M}
    (hexpert : scoreBeforeExperts = true →
      ∀ e (score : R) row, expert e (score • row) = score • expert e row) :
    scoreAndAdd scoreBeforeExperts
      (routing.order.map fun s => expert (routing.expertOf s) (routing.sent scoreBeforeExperts s))
      ⟨routing.order.map (· / topK),routing.order.map routing.scoreOf⟩ routing.x =
        denseMixture expert routing := by
  have hrows : (if scoreBeforeExperts then routing.order.map fun s =>
        expert (routing.expertOf s) (routing.sent scoreBeforeExperts s)
      else scaled (routing.order.map fun s =>
        expert (routing.expertOf s) (routing.sent scoreBeforeExperts s))
          (routing.order.map routing.scoreOf)) =
        routing.order.map fun s => routing.scoreOf s • expert (routing.expertOf s) (routing.rowOf s) := by
    cases scoreBeforeExperts with
    | false =>
      rw [if_neg (by decide),scaled,List.zipWith_map,List.zipWith_self]
      rfl
    | true =>
      rw [if_pos rfl]
      refine List.map_congr_left fun s _ => ?_
      rw [sent,if_pos rfl,hexpert rfl]
  have hdense : (denseMixture expert routing).length = routing.x.length := by
    rw [denseMixture,List.length_zipWith,List.length_zip,routing.length_scores,routing.length_ids,
      Nat.min_self,Nat.min_self]
  unfold scoreAndAdd
  dsimp only
  rw [hrows]
  refine List.ext_getElem (by rw [length_indexAdd,List.length_replicate,hdense]) fun t ht ht' => ?_
  have htx : t < routing.x.length := by rwa [← hdense]
  have htids : t < routing.topkExpertIds.length := by rwa [routing.length_ids]
  have htscores : t < routing.topkScores.length := by rwa [routing.length_scores]
  have hslots : ((routing.order.filter fun s => s / topK = t).map fun s =>
      routing.scoreOf s • expert (routing.expertOf s) (routing.rowOf s)).sum =
      ((List.range topK).map fun j => routing.scoreOf (t * topK + j) •
        expert (routing.expertOf (t * topK + j)) (routing.rowOf (t * topK + j))).sum := by
    rw [((routing.order_perm.filter _).map _).sum_eq,filter_div htx,List.map_map]
    rfl
  have hzip : ((List.range topK).map fun j => routing.scoreOf (t * topK + j) •
      expert (routing.expertOf (t * topK + j)) (routing.rowOf (t * topK + j))) =
        List.zipWith (fun score e => score • expert e routing.x[t]) routing.topkScores[t]
          routing.topkExpertIds[t] := by
    have hscores := routing.scores_topK _ (List.getElem_mem htscores)
    have hids := routing.ids_topK _ (List.getElem_mem htids)
    refine List.ext_getElem (by simp [hscores,hids]) fun j hj _ => ?_
    have hj : j < topK := by simpa using hj
    have hrow : (t * topK + j) / topK = t := by
      rw [Nat.add_comm,Nat.add_mul_div_right _ _ (by omega),Nat.div_eq_of_lt hj,Nat.zero_add]
    rw [List.getElem_map,List.getElem_range,List.getElem_zipWith,scoreOf,expertOf,rowOf,
      getD_flatten_rows routing.scores_topK 0 hj,getD_flatten_rows routing.ids_topK 0 hj,hrow,
      List.getD_eq_getElem _ _ htx,List.getD_eq_getElem _ _ htscores,
      List.getD_eq_getElem _ _ htids,List.getD_eq_getElem _ _ (by omega),
      List.getD_eq_getElem _ _ (by omega)]
  rw [← List.getD_eq_getElem _ (0 : M) ht,getD_indexAdd routing.order (· / topK) _ (by simpa using htx),
    hslots,hzip]
  simp [denseMixture,htx]

end Routing

end Moe
end DockyardRL
