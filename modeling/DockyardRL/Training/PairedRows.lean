import Mathlib.Data.Rat.Floor
import Mathlib.Tactic.Ring
import DockyardRL.Lib.Fallible
import DockyardRL.Training.Preference

/-! Preference pairs on their way to the loss. The rows of a rank start on a pair when the ranks
get whole pairs, and the micro-batches keep them together when their size is even. -/
namespace DockyardRL
namespace Training

open Chunks Fallible

variable {α K : Type*}

section OneGlobalBatch

variable {ρ : Type*}

theorem rowShards_single {rows : List ρ} {dp size : ℕ} (hdp : 0 < dp) (hsize : 0 < size)
    (hrows : rows.length = dp * size) : rowShards dp rows.length rows = .ok (chunks size rows) := by
  have hpos : 0 < rows.length := hrows ▸ Nat.mul_pos hdp hsize
  have hpart : rows.length / dp = size := by rw [hrows,Nat.mul_div_cancel_left _ hdp]
  have hdvd : rows.length % dp = 0 := by rw [hrows,Nat.mul_mod_right]
  have hcount : rangeSteps rows.length size = dp := by
    rw [rangeSteps_eq hsize,hrows,if_pos (Nat.dvd_mul_left size dp),Nat.mul_div_cancel _ hsize]
    rfl
  rw [rowShards,if_neg (by omega),if_neg (by simp [hdvd]),hpart,Nat.div_self hpos,chunks,hcount]
  refine congrArg Except.ok (List.map_congr_left fun i _ => ?_)
  have hlt : i * size < (i + 1) * size := Nat.mul_lt_mul_of_pos_right (Nat.lt_succ_self i) hsize
  have hwidth : (i + 1) * size - i * size = size := by rw [Nat.succ_mul,Nat.add_sub_cancel_left]
  simp [Distributed.BatchedDataDict.shardRanges,Distributed.BatchedDataDict.rowsIn,hlt,hwidth]

theorem microSteps_full {mbs : ℕ} (hmbs : 0 < mbs) (counts : Counts K) {batch : List ρ}
    (hdvd : mbs ∣ batch.length) :
    microSteps mbs counts batch = (chunks mbs batch).map fun mb => ⟨mb,true,counts⟩ := by
  have hfst : (chunks mbs batch).map (fun mb => (⟨mb,true,counts⟩ : MicroStep ρ K)) =
      (chunks mbs batch).zipIdx.map ((fun mb => ⟨mb,true,counts⟩) ∘ Prod.fst) := by
    rw [← List.map_map,List.zipIdx_map_fst]
  rw [hfst,microSteps]
  refine List.map_congr_left fun x hx => ?_
  have hlt : x.2 < batch.length / mbs := by
    rw [← length_chunks_of_dvd hmbs hdvd]
    simpa using List.snd_lt_of_mem_zipIdx hx
  rw [decide_eq_true hlt]
  rfl

section Reduced

variable [AddCommMonoid K] (cols : Columns ρ K)

theorem validSeqs_flatten (ranks : List (List ρ)) :
    (ranks.map (validSeqs cols)).sum = validSeqs cols ranks.flatten := by
  induction ranks with
  | nil => rfl
  | cons rank ranks ih =>
    rw [List.map_cons,List.sum_cons,ih,List.flatten_cons,validSeqs,validSeqs,validSeqs,
      List.map_append,List.sum_append]

variable [Mul K]

theorem trainSteps_single {rows : List ρ} {dp size mbs : ℕ} (hdp : 0 < dp) (hsize : 0 < size)
    (hrows : rows.length = dp * size) (hmbs : 0 < mbs) :
    trainSteps cols rows.length mbs (chunks size rows) = .ok
      [(chunks size rows).map (microSteps mbs (reducedCounts cols (chunks size rows)))] := by
  have hpos : 0 < rows.length := hrows ▸ Nat.mul_pos hdp hsize
  have hdvd : size ∣ rows.length := hrows ▸ Nat.dvd_mul_left size dp
  have hone : numGlobalBatches rows.length (chunks size rows) = 1 := by
    rw [numGlobalBatches,← List.length_flatten,flatten_chunks hsize,Nat.div_self hpos]
  have hlocal : rows.length / (chunks size rows).length = size := by
    rw [length_chunks_of_dvd hsize hdvd,hrows,Nat.mul_div_cancel _ hsize,
      Nat.mul_div_cancel_left _ hdp]
  have hbatch : globalBatch size (chunks size rows) 0 = chunks size rows := by
    refine (List.map_congr_left fun rank hrank => ?_).trans (List.map_id _)
    rw [getBatch,Nat.zero_mul,List.drop_zero,List.take_of_length_le]
    · rfl
    · exact (length_of_mem_chunks hsize hdvd hrank).le
  rw [trainSteps,if_neg (by omega),hone]
  simp only [List.range_one,List.map_cons,List.map_nil,hlocal,hbatch]

end Reduced

end OneGlobalBatch

section Pairs

variable [Field K] [LinearOrder K]

theorem policyTrain_single (lossFn : PreferenceLossFn α K) {rows : List (PreferenceRow α)}
    {dp size mbs : ℕ} (hdp : 0 < dp) (hsize : 0 < size) (hrows : rows.length = dp * size)
    (hmbs : 0 < mbs) : policyTrain lossFn dp rows.length mbs rows =
      ((chunks size rows).mapM fun rank => (microSteps mbs
        (reducedCounts preferenceColumns (chunks size rows)) rank).mapM lossFn.onStep).map ([·]) := by
  rw [policyTrain,rowShards_single hdp hsize hrows]
  simp only [Except.bind,trainSteps_single preferenceColumns hdp hsize hrows hmbs,List.mapM_cons,
    List.mapM_nil,List.mapM_map]
  rfl

def Pair.chosen : Pair α → PreferenceRow α
  | .datum d => ⟨d.messageLogChosen,d.lossMultiplier⟩
  | .padding messageLog => ⟨messageLog,false⟩

def Pair.rejected : Pair α → PreferenceRow α
  | .datum d => ⟨d.messageLogRejected,d.lossMultiplier⟩
  | .padding messageLog => ⟨messageLog,false⟩

theorem Pair.rows_eq (p : Pair α) : p.rows = [p.chosen,p.rejected] := by cases p <;> rfl

theorem Pair.sampleMask_rejected (p : Pair α) : p.rejected.sampleMask = p.chosen.sampleMask := by
  cases p <;> rfl

theorem Pair.length_rows (p : Pair α) : p.rows.length = 2 := by rw [p.rows_eq]; rfl

def PreferenceLossFn.value (lossFn : PreferenceLossFn α K) : Pair α → K
  | .datum d => if d.lossMultiplier then lossFn.pairLoss d else 0
  | .padding _ => 0

theorem splitOutputTensor_pairs {β : Type*} (f : PreferenceRow α → β) (pairs : List (Pair α)) :
    splitOutputTensor ((pairs.flatMap Pair.rows).map f) =
      (pairs.map fun p => f p.chosen,pairs.map fun p => f p.rejected) := by
  induction pairs with
  | nil => rfl
  | cons p pairs ih =>
    rw [List.flatMap_cons,p.rows_eq,List.map_append,List.map_cons,List.map_cons,List.map_nil,
      List.cons_append,List.cons_append,List.nil_append,splitOutputTensor,ih]
    rfl

omit [Field K] [LinearOrder K] in
theorem broadcast_map {β : Type*} (op : K → K → K) (f g : β → K) (l : List β) :
    broadcast op (l.map f) (l.map g) = .ok (l.map fun x => op (f x) (g x)) := by
  unfold broadcast
  rw [if_pos (by simp),List.zipWith_map,List.zipWith_self]

/-- A micro-batch of whole pairs adds up what its pairs add. -/
theorem call_pairs (lossFn : PreferenceLossFn α K) (pairs : List (Pair α)) (globalValidSeqs : K) :
    lossFn.call (pairs.flatMap Pair.rows) globalValidSeqs =
      .ok ((pairs.map lossFn.value).sum / max (globalValidSeqs / 2) 1) := by
  have hvalue : ∀ p : Pair α, -lossFn.logsigmoid (lossFn.beta *
      (lossFn.reward p.chosen.messageLog - lossFn.reward p.rejected.messageLog)) *
        preferenceColumns.sampleMask p.chosen * preferenceColumns.sampleMask p.chosen =
          lossFn.value p := by
    intro p
    cases p with
    | datum d =>
      cases hmask : d.lossMultiplier <;>
        simp [Pair.chosen,Pair.rejected,preferenceColumns,PreferenceLossFn.value,hmask,
          PreferenceLossFn.pairLoss]
    | padding messageLog => simp [Pair.chosen,preferenceColumns,PreferenceLossFn.value]
  simp only [PreferenceLossFn.call,preferenceLoss,splitOutputTensor_pairs,broadcast_map,Except.bind,
    maskedMean,Except.map,hvalue,Nat.cast_ofNat]

omit [LinearOrder K] in
theorem validSeqs_pairs (pairs : List (Pair α)) :
    validSeqs preferenceColumns (pairs.flatMap Pair.rows) =
      2 * (pairs.map fun p => (preferenceColumns.sampleMask p.chosen : K)).sum := by
  induction pairs with
  | nil => simp [validSeqs]
  | cons p pairs ih =>
    have hmask : (preferenceColumns.sampleMask p.rejected : K) =
        preferenceColumns.sampleMask p.chosen := by
      simp only [preferenceColumns,p.sampleMask_rejected]
    rw [List.flatMap_cons,validSeqs,List.map_append,List.sum_append,← validSeqs,← validSeqs,ih,
      p.rows_eq,validSeqs,List.map_cons,List.map_cons,List.map_nil,List.sum_cons,List.sum_cons,
      List.sum_nil,hmask,List.map_cons,List.sum_cons]
    ring

theorem policyTrain_pairs (lossFn : PreferenceLossFn α K) {pairs : List (Pair α)} {dp q k : ℕ}
    (hdp : 0 < dp) (hq : 0 < q) (hk : 0 < k) (hpairs : pairs.length = dp * (q * k)) :
    policyTrain lossFn dp (pairs.flatMap Pair.rows).length (k * 2) (pairs.flatMap Pair.rows) =
      .ok [(chunks (q * k) pairs).map fun rank => (chunks k rank).map fun mb =>
        ⟨mb.flatMap Pair.rows,(mb.map lossFn.value).sum /
          max ((validSeqs preferenceColumns (pairs.flatMap Pair.rows) : K) / 2) 1⟩] := by
  have hqk : 0 < q * k := Nat.mul_pos hq hk
  have hlength : ∀ l : List (Pair α), (l.flatMap Pair.rows).length = l.length * 2 :=
    length_flatMap_const Pair.length_rows
  have hrows : (pairs.flatMap Pair.rows).length = dp * (q * k * 2) := by
    rw [hlength,hpairs,Nat.mul_assoc]
  have hranks := chunks_flatMap hqk two_pos Pair.length_rows pairs
  have hcounts : (reducedCounts preferenceColumns (chunks (q * k * 2) (pairs.flatMap Pair.rows)) :
      Counts K).seqs = (validSeqs preferenceColumns (pairs.flatMap Pair.rows) : K) := by
    rw [reducedCounts,validSeqs_flatten,flatten_chunks (Nat.mul_pos hqk two_pos)]
  rw [policyTrain_single lossFn hdp (Nat.mul_pos hqk two_pos) hrows (Nat.mul_pos hk two_pos)]
  generalize (reducedCounts preferenceColumns (chunks (q * k * 2) (pairs.flatMap Pair.rows)) :
    Counts K) = counts at hcounts ⊢
  rw [hranks,List.mapM_map]
  refine congrArg (Except.map _) (mapM_ok fun rank hrank => ?_)
  have hrank : (rank.flatMap Pair.rows).length = q * (k * 2) := by
    rw [hlength,length_of_mem_chunks hqk (hpairs ▸ Nat.dvd_mul_left _ _) hrank,Nat.mul_assoc]
  rw [Function.comp_apply,microSteps_full (Nat.mul_pos hk two_pos) _
    (hrank ▸ Nat.dvd_mul_left _ _),chunks_flatMap hk two_pos Pair.length_rows,List.map_map,List.mapM_map]
  refine mapM_ok fun mb _ => ?_
  simp only [PreferenceLossFn.onStep,Function.comp_apply,call_pairs,hcounts,Except.map,if_true]

omit [LinearOrder K] in
theorem sum_sampleMask (data : List (PreferenceDatum α)) (padding : List α) :
    ((data.map Pair.datum ++ padding.map Pair.padding).map fun p =>
      (preferenceColumns.sampleMask p.chosen : K)).sum =
        (data.filter PreferenceDatum.lossMultiplier).length := by
  have hpadding : (padding.map fun x =>
      (preferenceColumns.sampleMask (Pair.padding x).chosen : K)).sum = 0 :=
    List.sum_eq_zero fun y hy => by
      obtain ⟨x,-,rfl⟩ := List.mem_map.mp hy
      rfl
  rw [List.map_append,List.sum_append,List.map_map,List.map_map]
  simp only [Function.comp_def,hpadding,add_zero]
  induction data with
  | nil => simp
  | cons d data ih =>
    rw [List.map_cons,List.sum_cons,ih]
    cases hmask : d.lossMultiplier <;> simp [Pair.chosen,preferenceColumns,hmask,add_comm]

omit [LinearOrder K] in
theorem sum_value (lossFn : PreferenceLossFn α K) (data : List (PreferenceDatum α))
    (padding : List α) : ((data.map Pair.datum ++ padding.map Pair.padding).map lossFn.value).sum =
      ((data.filter PreferenceDatum.lossMultiplier).map lossFn.pairLoss).sum := by
  have hpadding : (padding.map fun x => lossFn.value (Pair.padding x)).sum = 0 :=
    List.sum_eq_zero fun y hy => by
      obtain ⟨x,-,rfl⟩ := List.mem_map.mp hy
      rfl
  rw [List.map_append,List.sum_append,List.map_map,List.map_map]
  simp only [Function.comp_def,hpadding,add_zero]
  induction data with
  | nil => rfl
  | cons d data ih =>
    rw [List.map_cons,List.sum_cons,ih]
    cases hmask : d.lossMultiplier <;> simp [PreferenceLossFn.value,hmask]

omit [LinearOrder K] in
theorem sum_map_sum_div {β : Type*} (f : β → K) (D : K) (l : List (List β)) :
    (l.map fun xs => (xs.map f).sum / D).sum = (l.flatten.map f).sum / D := by
  induction l with
  | nil => simp
  | cons xs l ih =>
    rw [List.map_cons,List.sum_cons,ih,List.flatten_cons,List.map_append,List.sum_append,add_div]

variable [IsStrictOrderedRing K]

/-- Ranks and micro-batches of whole pairs keep the pairs. -/
theorem kept_of_wholePairs (lossFn : PreferenceLossFn α K) (data : List (PreferenceDatum α))
    (padding : List α) {dp q k : ℕ} (hdp : 0 < dp) (hq : 0 < q) (hk : 0 < k)
    (hpairs : data.length + padding.length = dp * (q * k))
    {run : List (List (List (MicroLoss α K)))}
    (hrun : policyTrain lossFn dp
      ((data.map Pair.datum ++ padding.map Pair.padding).flatMap Pair.rows).length (k * 2)
      ((data.map Pair.datum ++ padding.map Pair.padding).flatMap Pair.rows) = .ok run) :
    WholePairs data run ∧ totalLoss run = lossFn.mean data := by
  have hqk : 0 < q * k := Nat.mul_pos hq hk
  have hlength : (data.map Pair.datum ++ padding.map Pair.padding).length = dp * (q * k) := by
    rw [List.length_append,List.length_map,List.length_map,hpairs]
  have hpieces : ((chunks (q * k) (data.map Pair.datum ++ padding.map Pair.padding)).map
      (chunks k)).flatten.flatten = data.map Pair.datum ++ padding.map Pair.padding := by
    rw [List.flatten_flatten,List.map_map]
    simp only [Function.comp_def,flatten_chunks hk,List.map_id']
    exact flatten_chunks hqk _
  rw [policyTrain_pairs lossFn hdp hq hk hlength] at hrun
  obtain rfl := Except.ok.inj hrun
  refine ⟨⟨[(chunks (q * k) (data.map Pair.datum ++ padding.map Pair.padding)).map (chunks k)],
    ?_,padding,?_⟩,?_⟩
  · simp only [List.map_cons,List.map_nil,List.map_map,Function.comp_def]
  · rw [List.flatten_singleton]
    exact hpieces
  · rw [validSeqs_pairs,sum_sampleMask,mul_div_cancel_left₀ _ (two_ne_zero' K)]
    generalize hD : max ((data.filter PreferenceDatum.lossMultiplier).length : K) 1 = D
    have hsum : totalLoss [(chunks (q * k) (data.map Pair.datum ++ padding.map Pair.padding)).map
        fun rank => (chunks k rank).map fun mb => (⟨mb.flatMap Pair.rows,
          (mb.map lossFn.value).sum / D⟩ : MicroLoss α K)] =
        (((chunks (q * k) (data.map Pair.datum ++ padding.map Pair.padding)).map
          (chunks k)).flatten.flatten.map lossFn.value).sum / D := by
      rw [← sum_map_sum_div,totalLoss,List.flatten_singleton,List.map_flatten,List.map_map,
        List.map_flatten,List.map_map]
      simp only [Function.comp_def,List.map_map]
    rw [hsum,hpieces,sum_value,PreferenceLossFn.mean]
    rcases Nat.eq_zero_or_pos (data.filter PreferenceDatum.lossMultiplier).length with hzero | hpos
    · rw [List.length_eq_zero_iff.mp hzero]
      simp
    · rw [← hD,max_eq_left (by exact_mod_cast hpos)]

end Pairs

end Training
end DockyardRL
