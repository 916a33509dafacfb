import DockyardRL.Training.PairedRows

/-! The sizes with which the drivers keep their preference pairs. A micro-batch of an odd size is
refused only from five rows on; below, the loss of a single row is an empty sum. -/
namespace DockyardRL
namespace Training

open Chunks Fallible

variable {α K : Type*} [Field K] [LinearOrder K]

/-- The halves of so many rows have one length, or one of them is stretched. -/
def Stretches (rows : ℕ) : Prop := rows % 2 = 0 ∨ rows ≤ 3

instance (rows : ℕ) : Decidable (Stretches rows) :=
  inferInstanceAs (Decidable (rows % 2 = 0 ∨ rows ≤ 3))

/-- `Policy.train` accepts so many rows as one global batch. -/
def Accepted (dp mbs rows : ℕ) : Prop :=
  0 < rows ∧ dp ∣ rows ∧ (mbs ≤ rows / dp → Stretches mbs) ∧ Stretches (rows / dp % mbs)

instance (dp mbs rows : ℕ) : Decidable (Accepted dp mbs rows) :=
  inferInstanceAs (Decidable (0 < rows ∧ dp ∣ rows ∧ (mbs ≤ rows / dp → Stretches mbs) ∧
    Stretches (rows / dp % mbs)))

section Accepts

variable {β : Type*}

theorem length_splitOutputTensor (l : List β) : (splitOutputTensor l).1.length = (l.length + 1) / 2 ∧
    (splitOutputTensor l).2.length = l.length / 2 := by
  induction l using splitOutputTensor.induct with
  | case1 => simp [splitOutputTensor]
  | case2 x => simp [splitOutputTensor]
  | case3 x y rest ih =>
    simp only [splitOutputTensor,List.length_cons,ih]
    omega

omit [Field K] [LinearOrder K] in
theorem broadcast_ok {op : K → K → K} {xs ys : List K} (h : xs.length = ys.length) :
    broadcast op xs ys = .ok (List.zipWith op xs ys) := by
  unfold broadcast
  rw [if_pos h]

omit [Field K] [LinearOrder K] in
theorem length_of_broadcast {op : K → K → K} {xs ys zs : List K} (h : broadcast op xs ys = .ok zs) :
    xs.length = ys.length ∨ xs.length = 1 ∨ ys.length = 1 := by
  unfold broadcast at h
  split_ifs at h with hlength
  · exact .inl hlength
  · split at h
    · exact .inr (.inl rfl)
    · exact .inr (.inr rfl)
    · cases h

theorem call_ok_iff (lossFn : PreferenceLossFn α K) (rows : List (PreferenceRow α))
    (globalValidSeqs : K) :
    (∃ loss, lossFn.call rows globalValidSeqs = .ok loss) ↔ Stretches rows.length := by
  constructor
  · rintro ⟨loss,hloss⟩
    obtain ⟨logits,hlogits,-⟩ := bind_eq_ok.mp hloss
    have hhalves := length_of_broadcast hlogits
    simp only [length_splitOutputTensor,List.length_map] at hhalves
    unfold Stretches
    omega
  · rintro (heven | hle)
    · have hsplit := length_splitOutputTensor (rows.map fun row => lossFn.reward row.messageLog)
      have hmask := length_splitOutputTensor (rows.map (preferenceColumns (K := K)).sampleMask)
      simp only [List.length_map] at hsplit hmask
      refine ⟨_,bind_eq_ok.mpr ⟨_,broadcast_ok ?_,bind_eq_ok.mpr ⟨_,broadcast_ok ?_,
        map_eq_ok.mpr ⟨_,broadcast_ok ?_,rfl⟩⟩⟩⟩
      · omega
      · rw [List.length_zipWith]
        omega
      · rw [List.length_zipWith,List.length_zipWith]
        omega
    · match rows, hle with
      | [], _ => exact ⟨_,rfl⟩
      | [_], _ => exact ⟨_,rfl⟩
      | [_,_], _ => exact ⟨_,rfl⟩
      | [_,_,_], _ => exact ⟨_,rfl⟩

end Accepts

theorem policyTrain_ok_iff (lossFn : PreferenceLossFn α K) {dp mbs : ℕ} (hdp : 0 < dp)
    (hmbs : 0 < mbs) (rows : List (PreferenceRow α)) :
    (∃ run, policyTrain lossFn dp rows.length mbs rows = .ok run) ↔ Accepted dp mbs rows.length := by
  rcases Nat.eq_zero_or_pos rows.length with hzero | hpos
  · refine iff_of_false ?_ fun h => absurd h.1 (by omega)
    rintro ⟨run,hrun⟩
    rw [policyTrain,rowShards,if_pos (.inl hzero)] at hrun
    cases hrun
  by_cases hdvd : dp ∣ rows.length
  swap
  · refine iff_of_false ?_ fun h => hdvd h.2.1
    rintro ⟨run,hrun⟩
    rw [policyTrain,rowShards,if_neg (by omega),
      if_pos (.inr fun h => hdvd (Nat.dvd_of_mod_eq_zero h))] at hrun
    cases hrun
  obtain ⟨size,hrows⟩ := hdvd
  have hsize : 0 < size := Nat.pos_of_mul_pos_left (hrows ▸ hpos)
  have hlocal : rows.length / dp = size := by rw [hrows,Nat.mul_div_cancel_left _ hdp]
  have hfull : size ∣ rows.length := hrows ▸ Nat.dvd_mul_left size dp
  have hstep : ∀ s : MicroStep (PreferenceRow α) K,
      (∃ r, lossFn.onStep s = .ok r) ↔ Stretches s.rows.length := fun s => by
    rw [PreferenceLossFn.onStep,exists_map_ok,call_ok_iff]
  rw [policyTrain_single lossFn hdp hsize hrows hmbs,exists_map_ok,exists_mapM_iff]
  simp only [exists_mapM_iff,hstep]
  unfold Accepted
  rw [hlocal]
  have hrank : ∃ rank ∈ chunks size rows, rank.length = size :=
    exists_full_chunk hsize (Nat.le_of_dvd hpos hfull)
  obtain ⟨rank,hmem,hlength⟩ := hrank
  have hrows_of : ∀ (counts : Counts K) (rank : List (PreferenceRow α)),
      ∀ mb ∈ chunks mbs rank, ∃ s ∈ microSteps mbs counts rank, s.rows = mb := by
    intro counts rank mb hmb
    rw [← List.zipIdx_map_fst 0 (chunks mbs rank)] at hmb
    obtain ⟨x,hx,rfl⟩ := List.mem_map.mp hmb
    exact ⟨_,List.mem_map_of_mem hx,rfl⟩
  constructor
  · intro h
    refine ⟨hpos,⟨size,hrows⟩,fun hle => ?_,?_⟩
    · obtain ⟨mb,hmb,hlen⟩ := exists_full_chunk hmbs (hlength ▸ hle)
      obtain ⟨s,hs,hrows⟩ := hrows_of _ rank mb hmb
      exact hlen ▸ hrows ▸ h rank hmem s hs
    · by_cases hrest : size % mbs = 0
      · exact .inl (by rw [hrest])
      · obtain ⟨mb,hmb,hlen⟩ := exists_rest_chunk hmbs (hlength ▸ hrest)
        obtain ⟨s,hs,hrows⟩ := hrows_of _ rank mb hmb
        rw [hlength] at hlen
        exact hlen ▸ hrows ▸ h rank hmem s hs
  · rintro ⟨-,-,hbig,hrest⟩ rank hmem s hs
    obtain ⟨x,hx,rfl⟩ := List.mem_map.mp hs
    have hlength := length_of_mem_chunks hsize hfull hmem
    have hmb : x.1 ∈ chunks mbs rank := List.fst_mem_of_mem_zipIdx hx
    rcases length_mem_chunks hmbs hmb with ⟨hlen,hle⟩ | hlen
    · exact hlen ▸ hbig (hlength ▸ hle)
    · rw [hlength] at hlen
      exact hlen ▸ hrest

section Uniform

variable (a : α)

def uniformDatum : PreferenceDatum α := ⟨a,a,true⟩

def unitLossFn : PreferenceLossFn α K := ⟨fun _ => -1,1,fun _ => 0⟩

omit [LinearOrder K] in
theorem unitLossFn_value : (unitLossFn : PreferenceLossFn α K).value (.datum (uniformDatum a)) = 1 := by
  simp [PreferenceLossFn.value,uniformDatum,PreferenceLossFn.pairLoss,unitLossFn]

theorem uniform_rows (j : ℕ) : (List.replicate j (Pair.datum (uniformDatum a))).flatMap Pair.rows =
    List.replicate (j * 2) ⟨a,true⟩ := by
  induction j with
  | zero => rfl
  | succ j ih =>
    rw [List.replicate_succ,List.flatMap_cons,ih,Nat.succ_mul,Nat.add_comm,List.replicate_add]
    rfl

theorem preferenceCollateFn_eq (data : List (PreferenceDatum α)) :
    preferenceCollateFn data = (data.map Pair.datum).flatMap Pair.rows := by
  rw [List.flatMap_map]
  rfl

theorem uniform_collate (n : ℕ) :
    preferenceCollateFn (List.replicate n (uniformDatum a)) = List.replicate (n * 2) ⟨a,true⟩ := by
  rw [preferenceCollateFn_eq,List.map_replicate,uniform_rows]

variable [IsStrictOrderedRing K]

theorem call_uniform {rows : List (PreferenceRow α)} (hrows : ∀ row ∈ rows, row = ⟨a,true⟩)
    (heven : 2 ∣ rows.length) (globalValidSeqs : K) :
    unitLossFn.call rows globalValidSeqs =
      .ok ((rows.length : K) / 2 / max (globalValidSeqs / 2) 1) := by
  obtain ⟨j,hj⟩ := heven
  rw [Nat.mul_comm] at hj
  have hreplicate : rows = (List.replicate j (Pair.datum (uniformDatum a))).flatMap Pair.rows := by
    rw [uniform_rows,← hj]
    exact List.eq_replicate_of_mem hrows
  have hcall := call_pairs (unitLossFn : PreferenceLossFn α K)
    (List.replicate j (Pair.datum (uniformDatum a))) globalValidSeqs
  rw [← hreplicate,List.map_replicate,unitLossFn_value,List.sum_replicate] at hcall
  rw [hcall,hj,nsmul_one,Nat.cast_mul,Nat.cast_two,mul_div_cancel_right₀ _ (two_ne_zero' K)]

omit [IsStrictOrderedRing K] in
theorem rows_of_run {lossFn : PreferenceLossFn α K} {mbs : ℕ} {counts : Counts K}
    {shards : List (List (PreferenceRow α))} {ranks : List (List (MicroLoss α K))}
    (hranks : shards.mapM (fun rank => (microSteps mbs counts rank).mapM lossFn.onStep) = .ok ranks) :
    ranks.map (List.map MicroLoss.rows) = shards.map (chunks mbs) := by
  refine map_eq_of_mapM hranks fun rank _ steps hsteps => ?_
  have hstep : steps.map MicroLoss.rows = (microSteps mbs counts rank).map MicroStep.rows :=
    map_eq_of_mapM hsteps fun s _ r hr => by
      obtain ⟨loss,-,rfl⟩ := map_eq_ok.mp hr
      rfl
  rw [hstep,microSteps,List.map_map]
  exact List.zipIdx_map_fst 0 _

omit [Field K] [LinearOrder K] [IsStrictOrderedRing K] in
theorem even_of_wholePairs {data : List (PreferenceDatum α)} {mbs : ℕ}
    {shards : List (List (PreferenceRow α))} {ranks : List (List (MicroLoss α K))}
    (hmicro : ranks.map (List.map MicroLoss.rows) = shards.map (chunks mbs))
    (hwhole : WholePairs data [ranks]) {rank mb : List (PreferenceRow α)} (hrank : rank ∈ shards)
    (hmb : mb ∈ chunks mbs rank) : 2 ∣ mb.length := by
  obtain ⟨pairs,hpairs,-⟩ := hwhole
  have hall : (shards.map (chunks mbs)).flatten =
      pairs.flatten.flatten.map (List.flatMap Pair.rows) := by
    rw [← hmicro]
    simpa [List.map_flatten] using congrArg (fun l => l.flatten.flatten) hpairs
  have hin : mb ∈ (shards.map (chunks mbs)).flatten :=
    List.mem_flatten.mpr ⟨_,List.mem_map_of_mem hrank,hmb⟩
  rw [hall] at hin
  obtain ⟨l,-,rfl⟩ := List.mem_map.mp hin
  rw [length_flatMap_const Pair.length_rows]
  exact Nat.dvd_mul_left 2 _

omit [LinearOrder K] [IsStrictOrderedRing K] in
theorem sum_length_div {β : Type*} (D : K) (l : List (List β)) :
    (l.map fun xs => (xs.length : K) / 2 / D).sum = (l.flatten.length : K) / 2 / D := by
  induction l with
  | nil => simp
  | cons xs l ih =>
    rw [List.map_cons,List.sum_cons,ih,List.flatten_cons,List.length_append,Nat.cast_add,add_div,
      add_div]

theorem losses_of_run {mbs : ℕ} (hmbs : 0 < mbs) {counts : Counts K}
    {shards : List (List (PreferenceRow α))} {ranks : List (List (MicroLoss α K))}
    (hranks : shards.mapM (fun rank => (microSteps mbs counts rank).mapM unitLossFn.onStep) =
      .ok ranks)
    (hmem : ∀ rank ∈ shards, ∀ row ∈ rank, row = ⟨a,true⟩)
    (heven : ∀ rank ∈ shards, ∀ mb ∈ chunks mbs rank, 2 ∣ mb.length) :
    totalLoss [ranks] = (shards.map fun rank =>
      ((whole mbs rank).length : K) / 2 / max (counts.seqs / 2) 1).sum := by
  have hstep : ranks.map (fun steps => (steps.map MicroLoss.loss).sum) =
      shards.map fun rank => ((whole mbs rank).length : K) / 2 / max (counts.seqs / 2) 1 := by
    refine map_eq_of_mapM hranks fun rank hrank steps hsteps => ?_
    have hloss : steps.map MicroLoss.loss = (microSteps mbs counts rank).map fun s =>
        if s.counted then (s.rows.length : K) / 2 / max (counts.seqs / 2) 1 else 0 := by
      refine map_eq_of_mapM hsteps fun s hs r hr => ?_
      obtain ⟨x,hx,rfl⟩ := List.mem_map.mp hs
      have hmb : x.1 ∈ chunks mbs rank := List.fst_mem_of_mem_zipIdx hx
      have hrows : ∀ row ∈ x.1, row = ⟨a,true⟩ := fun row hrow => by
        refine hmem rank hrank row ?_
        rw [← flatten_chunks hmbs rank]
        exact List.mem_flatten.mpr ⟨_,hmb,hrow⟩
      obtain ⟨loss,hcall,rfl⟩ := map_eq_ok.mp hr
      have hloss := hcall.symm.trans (call_uniform a hrows (heven rank hrank _ hmb) counts.seqs)
      rw [Except.ok.inj hloss]
    have hsum := sum_zipIdx_lt (fun mb : List (PreferenceRow α) =>
      (mb.length : K) / 2 / max (counts.seqs / 2) 1) (chunks mbs rank) (rank.length / mbs)
    have hcounted : ((microSteps mbs counts rank).map fun s => if s.counted then
        (s.rows.length : K) / 2 / max (counts.seqs / 2) 1 else 0) = (chunks mbs rank).zipIdx.map
          fun x => if x.2 < rank.length / mbs then
            (x.1.length : K) / 2 / max (counts.seqs / 2) 1 else 0 := by
      rw [microSteps,List.map_map]
      exact List.map_congr_left fun x _ => by simp
    rw [hloss,hcounted,hsum,sum_length_div,take_chunks hmbs]
  rw [totalLoss,List.flatten_singleton,List.map_flatten,List.sum_flatten,List.map_map]
  exact congrArg List.sum hstep

omit [LinearOrder K] [IsStrictOrderedRing K] in
theorem validSeqs_uniform {rows : List (PreferenceRow α)} (hrows : ∀ row ∈ rows, row = ⟨a,true⟩) :
    (validSeqs preferenceColumns rows : K) = rows.length := by
  rw [List.eq_replicate_of_mem hrows,validSeqs]
  simp [preferenceColumns]

theorem mean_uniform {n : ℕ} (hn : 0 < n) :
    (unitLossFn : PreferenceLossFn α K).mean (List.replicate n (uniformDatum a)) = 1 := by
  have hn' : (n : K) ≠ 0 := Nat.cast_ne_zero.mpr hn.ne'
  have hfilter : (List.replicate n (uniformDatum a)).filter PreferenceDatum.lossMultiplier =
      List.replicate n (uniformDatum a) := List.filter_eq_self.mpr fun d hd => by
    rw [List.eq_of_mem_replicate hd]
    rfl
  have hloss : (unitLossFn : PreferenceLossFn α K).pairLoss (uniformDatum a) = 1 := by
    simp [PreferenceLossFn.pairLoss,unitLossFn]
  rw [PreferenceLossFn.mean,hfilter,List.map_replicate,hloss,List.sum_replicate,
    List.length_replicate,nsmul_one,div_self hn']

theorem sizes_of_kept {dp mbs n : ℕ} (hdp : 0 < dp) (hmbs : 0 < mbs)
    (hacc : Accepted dp mbs (n * 2))
    (h : ∀ run : List (List (List (MicroLoss α K))), policyTrain unitLossFn dp (n * 2) mbs
        (preferenceCollateFn (List.replicate n (uniformDatum a))) = .ok run →
      WholePairs (List.replicate n (uniformDatum a)) run ∧
        totalLoss run = unitLossFn.mean (List.replicate n (uniformDatum a))) :
    mbs % 2 = 0 ∧ mbs ∣ n * 2 / dp := by
  rw [uniform_collate] at h
  have hlength : (List.replicate (n * 2) (⟨a,true⟩ : PreferenceRow α)).length = n * 2 :=
    List.length_replicate
  have hmem : ∀ row ∈ List.replicate (n * 2) (⟨a,true⟩ : PreferenceRow α), row = ⟨a,true⟩ :=
    fun row hrow => List.eq_of_mem_replicate hrow
  generalize List.replicate (n * 2) (⟨a,true⟩ : PreferenceRow α) = rows at h hlength hmem
  rw [← hlength] at h hacc ⊢
  obtain ⟨run,hrun⟩ := (policyTrain_ok_iff (unitLossFn : PreferenceLossFn α K) hdp hmbs rows).mpr hacc
  obtain ⟨hwhole,htotal⟩ := h run hrun
  obtain ⟨hpos,⟨size,hsize⟩,-⟩ := hacc
  have hsize_pos : 0 < size := Nat.pos_of_mul_pos_left (hsize ▸ hpos)
  have hfull : size ∣ rows.length := hsize ▸ Nat.dvd_mul_left size dp
  rw [show rows.length / dp = size by rw [hsize,Nat.mul_div_cancel_left _ hdp]]
  rw [policyTrain_single _ hdp hsize_pos hsize hmbs] at hrun
  obtain ⟨ranks,hranks,rfl⟩ := map_eq_ok.mp hrun
  have hmicro := rows_of_run hranks
  have heven : ∀ rank ∈ chunks size rows, ∀ mb ∈ chunks mbs rank, 2 ∣ mb.length :=
    fun rank hrank mb hmb => even_of_wholePairs hmicro hwhole hrank hmb
  have hlosses := losses_of_run a hmbs hranks (fun rank hrank row hrow => hmem row (by
    rw [← flatten_chunks hsize_pos rows]
    exact List.mem_flatten.mpr ⟨_,hrank,hrow⟩)) heven
  have hdvd : mbs ∣ size := by
    have hn : 0 < n := by omega
    have hseqs : (reducedCounts preferenceColumns (chunks size rows) : Counts K).seqs / 2 = n := by
      rw [reducedCounts,validSeqs_flatten,flatten_chunks hsize_pos,validSeqs_uniform a hmem,hlength,
        Nat.cast_mul,Nat.cast_two,mul_div_cancel_right₀ _ (two_ne_zero' K)]
    have hone : (1 : K) ≤ n := by exact_mod_cast hn
    have hcounted : (chunks size rows).map (fun rank => ((whole mbs rank).length : K) / 2 / (n : K)) =
        List.replicate dp (((size / mbs * mbs : ℕ) : K) / 2 / n) := by
      rw [List.eq_replicate_iff,List.length_map,length_chunks_of_dvd hsize_pos hfull]
      refine ⟨by rw [hsize,Nat.mul_div_cancel _ hsize_pos],fun y hy => ?_⟩
      obtain ⟨rank,hrank,rfl⟩ := List.mem_map.mp hy
      rw [length_whole,length_of_mem_chunks hsize_pos hfull hrank]
    rw [hlosses,hseqs,max_eq_left hone,hcounted,List.sum_replicate,mean_uniform a hn,nsmul_eq_mul,
      div_div,mul_div_assoc',div_eq_one_iff_eq (by positivity),mul_comm (2 : K)] at htotal
    have hcount : dp * (size / mbs * mbs) = n * 2 := by exact_mod_cast htotal
    have hwhole : size / mbs * mbs = size :=
      Nat.eq_of_mul_eq_mul_left hdp (hcount.trans (hlength.symm.trans hsize))
    exact ⟨size / mbs,by rw [Nat.mul_comm,hwhole]⟩
  obtain ⟨rank,hrank,hrank_length⟩ := exists_full_chunk hsize_pos (Nat.le_of_dvd hpos hfull)
  obtain ⟨mb,hmb,hmb_length⟩ := exists_full_chunk (l := rank) hmbs
    (hrank_length ▸ Nat.le_of_dvd hsize_pos hdvd)
  exact ⟨Nat.mod_eq_zero_of_dvd (hmb_length ▸ heven rank hrank mb hmb),hdvd⟩

end Uniform

/-- The sizes with which a driver keeps `n` pairs. Two drivers refuse a batch whose rows do not fill
the micro-batches; the reward model does so only for a short validation batch, and the online driver
never, with a micro-batch size that counts rows. -/
def Fits (driver : Driver) (sizes : Sizes) (n : ℕ) : Prop :=
  match driver with
  | .dpoTrain => True
  | .rmTrain => n = sizes.globalBatchSize →
      Accepted sizes.dpSize (sizes.microBatchSize * 2) (n * 2) →
        sizes.microBatchSize * 2 ∣ n * 2 / sizes.dpSize
  | .onlineTrainFn => Accepted sizes.dpSize sizes.microBatchSize (n * 2) →
      sizes.microBatchSize % 2 = 0 ∧ sizes.microBatchSize ∣ n * 2 / sizes.dpSize
  | .dpoValidate => True
  | .rmValidate => sizes.globalBatchSize ≤ n →
      Accepted sizes.dpSize (sizes.microBatchSize * 2) (n * 2) →
        sizes.microBatchSize * 2 ∣ n * 2 / sizes.dpSize

section Drivers

omit [Field K] [LinearOrder K] in
theorem length_collate (data : List (PreferenceDatum α)) :
    (preferenceCollateFn data).length = data.length * 2 := by
  rw [preferenceCollateFn_eq,length_flatMap_const Pair.length_rows,List.length_map]

omit [Field K] [LinearOrder K] in
theorem of_maybePadLastBatch {batch rows : List (PreferenceRow α)} {dp mbs : ℕ} (hdp : 0 < dp)
    (hmbs : 0 < mbs) (h : maybePadLastBatch batch dp mbs = .ok rows) :
    rows = batch ∧ dp * mbs ∣ batch.length := by
  rw [maybePadLastBatch] at h
  split_ifs at h with hnone
  refine ⟨(Except.ok.inj h).symm,?_⟩
  by_contra hdvd
  rw [Nat.mul_comm] at hdvd
  rw [rangeSteps_eq (Nat.mul_pos hmbs hdp),if_neg hdvd,Nat.succ_mul] at hnone
  have hlt := Nat.lt_div_mul_add (a := batch.length) (Nat.mul_pos hmbs hdp)
  omega

variable [IsStrictOrderedRing K]

theorem kept_unpadded (lossFn : PreferenceLossFn α K) {data : List (PreferenceDatum α)}
    {dp k : ℕ} (hdp : 0 < dp) (hk : 0 < k) (hdata : 0 < data.length) (hranks : dp ∣ data.length * 2)
    (hdvd : k * 2 ∣ data.length * 2 / dp) {run : List (List (List (MicroLoss α K)))}
    (hrun : policyTrain lossFn dp (data.length * 2) (k * 2) (preferenceCollateFn data) = .ok run) :
    WholePairs data run ∧ totalLoss run = lossFn.mean data := by
  obtain ⟨q,hq⟩ := hdvd
  have hrows : data.length = dp * (q * k) := by
    have h := Nat.mul_div_cancel' hranks
    rw [hq,show dp * (k * 2 * q) = dp * (q * k) * 2 by ring] at h
    omega
  have hq_pos : 0 < q := Nat.pos_of_ne_zero fun h => by
    rw [h,Nat.zero_mul,Nat.mul_zero] at hrows
    omega
  refine kept_of_wholePairs lossFn data [] hdp hq_pos hk (by simpa using hrows) ?_
  simpa only [List.map_nil,List.append_nil,← preferenceCollateFn_eq,length_collate] using hrun

omit [Field K] [LinearOrder K] [IsStrictOrderedRing K] in
theorem addRefLogprobsToData_ok {sizes : Sizes} {isVal : Bool} {batch rows : List (PreferenceRow α)}
    (h : addRefLogprobsToData sizes isVal batch = .ok rows) :
    rows = batch ∧ sizes.dpSize * (sizes.microBatchSize * 2) ∣ batch.length := by
  by_cases hmod : batch.length % (sizes.dpSize * (sizes.microBatchSize * 2)) = 0
  · rw [addRefLogprobsToData,if_neg (not_not.mpr hmod)] at h
    exact ⟨(Except.ok.inj h).symm,Nat.dvd_of_mod_eq_zero hmod⟩
  · rw [addRefLogprobsToData,if_pos hmod] at h
    cases isVal with
    | false => cases h
    | true => exact of_maybePadLastBatch sizes.dpSize_pos (Nat.mul_pos sizes.microBatchSize_pos two_pos) h

omit [Field K] [LinearOrder K] [IsStrictOrderedRing K] in
theorem of_rmPadding {sizes : Sizes} {batch rows : List (PreferenceRow α)}
    (h : (if batch.length < sizes.globalBatchSize * 2 then
      maybePadLastBatch batch sizes.dpSize (sizes.microBatchSize * 2) else .ok batch) = .ok rows) :
    rows = batch ∧ (batch.length < sizes.globalBatchSize * 2 →
      sizes.dpSize * (sizes.microBatchSize * 2) ∣ batch.length) := by
  split_ifs at h with hshort
  · obtain ⟨hrows,hdvd⟩ := of_maybePadLastBatch sizes.dpSize_pos
      (Nat.mul_pos sizes.microBatchSize_pos two_pos) h
    exact ⟨hrows,fun _ => hdvd⟩
  · exact ⟨(Except.ok.inj h).symm,fun hlt => absurd hlt hshort⟩

omit [Field K] [LinearOrder K] [IsStrictOrderedRing K] in
theorem dvd_of_full {dp m rows : ℕ} (hdp : 0 < dp) (h : dp * m ∣ rows) :
    dp ∣ rows ∧ m ∣ rows / dp := by
  obtain ⟨q,rfl⟩ := h
  rw [Nat.mul_assoc,Nat.mul_div_cancel_left _ hdp]
  exact ⟨Nat.dvd_mul_right dp _,Nat.dvd_mul_right m q⟩

omit [IsStrictOrderedRing K] in
theorem length_pos_of_drive {lossFn : PreferenceLossFn α K} {driver : Driver} {sizes : Sizes}
    {data : List (PreferenceDatum α)} {run : List (List (List (MicroLoss α K)))}
    (hrun : drive lossFn driver sizes data = .ok run) : 0 < data.length := by
  refine List.length_pos_of_ne_nil fun hdata => ?_
  subst hdata
  have hnone : ∀ mbs, policyTrain lossFn sizes.dpSize 0 mbs [] ≠ .ok run := by
    intro mbs h
    rw [policyTrain,rowShards,if_pos (.inl rfl)] at h
    cases h
  obtain ⟨call,hcall,hrun⟩ := bind_eq_ok.mp hrun
  cases driver with
  | dpoTrain =>
    obtain ⟨batch,hbatch,-⟩ := bind_eq_ok.mp hcall
    rw [loadFull,if_neg (by simpa using sizes.globalBatchSize_pos.ne)] at hbatch
    cases hbatch
  | rmTrain =>
    obtain ⟨batch,hbatch,-⟩ := map_eq_ok.mp hcall
    rw [loadFull,if_neg (by simpa using sizes.globalBatchSize_pos.ne)] at hbatch
    cases hbatch
  | onlineTrainFn =>
    obtain rfl := Except.ok.inj hcall
    exact hnone _ hrun
  | dpoValidate =>
    rw [trainCall] at hcall
    obtain ⟨rows,hrows,rfl⟩ := map_eq_ok.mp hcall
    obtain ⟨rfl,-⟩ := addRefLogprobsToData_ok hrows
    exact hnone _ hrun
  | rmValidate =>
    obtain ⟨rows,hrows,rfl⟩ := map_eq_ok.mp hcall
    obtain ⟨rfl,-⟩ := of_rmPadding hrows
    exact hnone _ hrun

theorem kept_of_fits (lossFn : PreferenceLossFn α K) {driver : Driver} {sizes : Sizes}
    {data : List (PreferenceDatum α)} (h : Fits driver sizes data.length) :
    PairsKept driver sizes lossFn data := by
  intro run hrun
  have hdata := length_pos_of_drive hrun
  have hdp := sizes.dpSize_pos
  have hm := sizes.microBatchSize_pos
  have haccepted : ∀ mbs, 0 < mbs →
      policyTrain lossFn sizes.dpSize (data.length * 2) mbs (preferenceCollateFn data) = .ok run →
        Accepted sizes.dpSize mbs (data.length * 2) := by
    intro mbs hmbs hrun
    have hiff := policyTrain_ok_iff lossFn hdp hmbs (preferenceCollateFn data)
    rw [length_collate] at hiff
    exact hiff.mp ⟨run,hrun⟩
  obtain ⟨call,hcall,hrun⟩ := bind_eq_ok.mp hrun
  cases driver with
  | dpoTrain =>
    obtain ⟨batch,hbatch,hcall⟩ := bind_eq_ok.mp hcall
    obtain ⟨rows,hrows,rfl⟩ := map_eq_ok.mp hcall
    unfold loadFull at hbatch
    split_ifs at hbatch with hfull
    obtain rfl := Except.ok.inj hbatch
    dsimp only at hrun
    obtain ⟨rfl,hdvd⟩ := addRefLogprobsToData_ok hrows
    obtain ⟨hranks,hdvd⟩ := dvd_of_full hdp (length_collate data ▸ hdvd)
    rw [← hfull] at hrun
    exact kept_unpadded lossFn hdp hm hdata hranks hdvd hrun
  | rmTrain =>
    obtain ⟨batch,hbatch,rfl⟩ := map_eq_ok.mp hcall
    unfold loadFull at hbatch
    split_ifs at hbatch with hfull
    obtain rfl := Except.ok.inj hbatch
    dsimp only at hrun
    rw [← hfull] at hrun
    have hacc := haccepted _ (Nat.mul_pos hm two_pos) hrun
    exact kept_unpadded lossFn hdp hm hdata hacc.2.1 (h hfull hacc) hrun
  | onlineTrainFn =>
    obtain rfl := Except.ok.inj hcall
    dsimp only at hrun
    rw [length_collate] at hrun
    have hacc := haccepted _ hm hrun
    obtain ⟨heven,hdvd⟩ := h hacc
    obtain ⟨k,hk⟩ := Nat.dvd_of_mod_eq_zero heven
    rw [Nat.mul_comm] at hk
    rw [hk] at hrun hdvd
    exact kept_unpadded lossFn hdp (by omega) hdata hacc.2.1 hdvd hrun
  | dpoValidate =>
    obtain ⟨rows,hrows,rfl⟩ := map_eq_ok.mp hcall
    dsimp only at hrun
    obtain ⟨rfl,hdvd⟩ := addRefLogprobsToData_ok hrows
    obtain ⟨hranks,hdvd⟩ := dvd_of_full hdp (length_collate data ▸ hdvd)
    rw [length_collate] at hrun
    exact kept_unpadded lossFn hdp hm hdata hranks hdvd hrun
  | rmValidate =>
    obtain ⟨rows,hrows,rfl⟩ := map_eq_ok.mp hcall
    dsimp only at hrun
    obtain ⟨rfl,hfull⟩ := of_rmPadding hrows
    rw [length_collate] at hrun hfull
    have hacc := haccepted _ (Nat.mul_pos hm two_pos) hrun
    by_cases hshort : data.length * 2 < sizes.globalBatchSize * 2
    · obtain ⟨hranks,hdvd⟩ := dvd_of_full hdp (hfull hshort)
      exact kept_unpadded lossFn hdp hm hdata hranks hdvd hrun
    · exact kept_unpadded lossFn hdp hm hdata hacc.2.1 (h (by omega) hacc) hrun

end Drivers

/-- A driver keeps all pairs of all batches with `n` pairs exactly when its sizes fit. -/
theorem pairsKept_iff [IsStrictOrderedRing K] [Nonempty α] (driver : Driver) (sizes : Sizes)
    (n : ℕ) : (∀ data : List (PreferenceDatum α), data.length = n →
      ∀ lossFn : PreferenceLossFn α K, PairsKept driver sizes lossFn data) ↔
        Fits driver sizes n := by
  refine ⟨fun h => ?_,fun h data hlength lossFn => kept_of_fits lossFn (hlength ▸ h)⟩
  obtain ⟨a⟩ := ‹Nonempty α›
  have hkept := h (List.replicate n (uniformDatum a)) List.length_replicate (unitLossFn (K := K))
  have hdp := sizes.dpSize_pos
  have hm := sizes.microBatchSize_pos
  have hlength := length_collate (List.replicate n (uniformDatum a))
  rw [List.length_replicate] at hlength
  cases driver with
  | dpoTrain => trivial
  | rmTrain =>
    intro hfull hacc
    refine (sizes_of_kept (K := K) a hdp (Nat.mul_pos hm two_pos) hacc fun run hrun =>
      hkept run ?_).2
    rw [drive,trainCall,loadFull,if_pos (by rw [List.length_replicate,hfull]),Except.map,Except.bind,
      ← hfull]
    exact hrun
  | onlineTrainFn =>
    intro hacc
    refine sizes_of_kept (K := K) a hdp hm hacc fun run hrun => hkept run ?_
    rw [drive,trainCall,Except.bind,hlength]
    exact hrun
  | dpoValidate => trivial
  | rmValidate =>
    intro hfull hacc
    refine (sizes_of_kept (K := K) a hdp (Nat.mul_pos hm two_pos) hacc fun run hrun =>
      hkept run ?_).2
    rw [drive,trainCall]
    rw [hlength,if_neg (by omega),Except.map,Except.bind,hlength]
    exact hrun

/-- Four pairs, one of them masked, in micro-batches of two pairs on two ranks. -/
theorem pairsKept_four : PairsKept .onlineTrainFn ⟨2,4,4,by decide,by decide,by decide⟩
    (⟨fun x => min x 0,1,fun n => n⟩ : PreferenceLossFn ℕ ℚ)
    [⟨3,1,true⟩,⟨2,5,true⟩,⟨4,4,false⟩,⟨7,0,true⟩] :=
  (pairsKept_iff .onlineTrainFn ⟨2,4,4,by decide,by decide,by decide⟩ 4).mpr
    (fun _ => ⟨by decide,by decide⟩) _ rfl _

/-- A single pair, in micro-batches of one row and on two ranks. -/
theorem pairs_separated :
    (¬PairsKept .onlineTrainFn ⟨1,1,1,by decide,by decide,by decide⟩
      (unitLossFn : PreferenceLossFn ℕ ℚ) [uniformDatum 0]) ∧
    ¬PairsKept .rmTrain ⟨2,1,1,by decide,by decide,by decide⟩
      (unitLossFn : PreferenceLossFn ℕ ℚ) [uniformDatum 0] := by
  refine ⟨fun h => ?_,fun h => ?_⟩
  · have hsizes : 1 % 2 = 0 ∧ 1 ∣ 1 * 2 / 1 :=
      sizes_of_kept (K := ℚ) (0 : ℕ) one_pos one_pos (by decide) h
    exact absurd hsizes.1 (by decide)
  · have hsizes : 2 % 2 = 0 ∧ 2 ∣ 1 * 2 / 2 :=
      sizes_of_kept (K := ℚ) (0 : ℕ) two_pos two_pos (by decide) h
    exact absurd hsizes.2 (by decide)

end Training
end DockyardRL
