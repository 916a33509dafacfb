import DockyardRL.Logprob.Sampling

/-! The two filters keep the same tokens: those of the shortest front of the largest logits whose mass
reaches top-p. -/
namespace DockyardRL
namespace Logprob

open Chunks Gather Packed Softmax SortByKey

variable {K : Type*} [Field K] [LinearOrder K] {row : List K}

omit [Field K] [LinearOrder K] in
theorem fillMasked_map {ι : Type*} (l : List ι) (keep : ι → Bool) (f : ι → WithBot K) :
    fillMasked (l.map keep) (l.map f) = l.map fun v => if keep v then f v else ⊥ := by
  rw [fillMasked,List.zipWith_map,List.zipWith_self]

theorem getLastD_topkValues {k : ℕ} (hk : 0 < k) (hkn : k ≤ row.length) (h : row.Nodup) :
    (((topkValues row k).getLastD 0 : K) : WithBot K) =
      ((sortIndices row).map fun v => ((row.getD v 0 : K) : WithBot K)).getD
        (((sortIndices row).map fun v => ((row.getD v 0 : K) : WithBot K)).length - k) ⊥ := by
  have hn := length_sortIndices row
  have hlast : k - 1 < (topkValues row k).length := by
    rw [topkValues,List.length_take,List.length_reverse,sortByKey_id h,List.length_map]
    omega
  have hne : topkValues row k ≠ [] := List.ne_nil_of_length_pos (Nat.zero_lt_of_lt hlast)
  rw [List.getD_eq_getElem _ _ (by rw [List.length_map]; omega),List.getElem_map,
    List.getLastD_eq_getLast?,List.getLast?_eq_some_getLast hne,Option.getD_some,
    List.getLast_eq_getElem]
  have hindex : (sortIndices row).length - 1 - (min k (sortIndices row).length - 1) =
      (sortIndices row).length - k := by omega
  simp only [topkValues,sortByKey_id h,List.getElem_take,List.getElem_reverse,List.getElem_map,
    List.length_take,List.length_reverse,List.length_map,hindex]

/-- The filter without sorting. -/
theorem applyTopKOnly_eq {k : ℕ} (hk : 0 < k) (hkn : k ≤ row.length) (h : row.Nodup) :
    applyTopKOnly k row =
      (keptLogits row ((descending row).take k),keptMask row ((descending row).take k)) := by
  have hmask : row.map (fun x => decide ((topkValues row k).getLastD 0 ≤ x)) =
      keptMask row ((descending row).take k) := by
    conv_lhs => rw [← map_getD row,List.map_map]
    refine List.map_congr_left fun v hv => ?_
    obtain ⟨i,hi,rfl⟩ := List.getElem_of_mem (mem_sortIndices.mpr (List.mem_range.mp hv))
    rw [Function.comp_apply,decide_eq_decide,← mem_top_iff hk hkn h hi,← getLastD_topkValues hk hkn h,
      WithBot.coe_le_coe,map_getD]
  rw [applyTopKOnly]
  simp only [hmask]
  refine Prod.ext ?_ rfl
  have hfinite : finite row = (List.range row.length).map fun v => ((row.getD v 0 : K) : WithBot K) := by
    conv_lhs => rw [← map_getD row]
    rw [finite,List.map_map]
    rfl
  rw [hfinite,keptMask,fillMasked_map,keptLogits]
  simp only [decide_eq_true_eq]

variable [IsStrictOrderedRing K] (e : Exponential K)

/-- The share of a token in the mass of some tokens, none of it for other tokens. -/
def share (row : List K) (top : List ℕ) (v : ℕ) : K :=
  if v ∈ top then e.exp (row.getD v 0) / massOf e row top else 0

def weights (row : List K) (top : List ℕ) : List K :=
  top.map fun v => e.exp (row.getD v 0) / massOf e row top

variable {e}

theorem massOf_pos (e : Exponential K) (row : List K) {top : List ℕ} (h : top ≠ []) : 0 < massOf e row top := by
  refine List.sum_pos _ (fun x hx => ?_) (by simpa using h)
  obtain ⟨v,_,rfl⟩ := List.mem_map.mp hx
  exact e.exp_pos _

theorem weights_pos {top : List ℕ} : ∀ x ∈ weights e row top, 0 < x := by
  intro x hx
  obtain ⟨v,hv,rfl⟩ := List.mem_map.mp hx
  exact div_pos (e.exp_pos _) (massOf_pos e row (List.ne_nil_of_mem hv))

theorem sum_weights {top : List ℕ} (h : top ≠ []) : (weights e row top).sum = 1 := by
  have hmass := (massOf_pos e row h).ne'
  rw [weights]
  simp only [div_eq_mul_inv]
  rw [List.sum_map_mul_right]
  exact mul_inv_cancel₀ hmass

omit [IsStrictOrderedRing K] in
theorem softmax_sorted (row : List K) (k : ℕ) :
    softmax e ((sortIndices row).map fun v =>
        if v ∈ (descending row).take k then ((row.getD v 0 : K) : WithBot K) else ⊥) =
      (sortIndices row).map (share e row ((descending row).take k)) := by
  have hexp : ∀ v, e.expBot (if v ∈ (descending row).take k then ((row.getD v 0 : K) : WithBot K) else ⊥) =
      if v ∈ (descending row).take k then e.exp (row.getD v 0) else 0 := by
    intro v
    split_ifs <;> rfl
  have htotal := sum_drop_sortIndices row (fun v => e.exp (row.getD v 0)) k 0
  rw [List.drop_zero,Nat.sub_zero,take_take_descending,← massOf] at htotal
  rw [softmax,List.map_map,List.map_map]
  simp only [Function.comp_def,hexp,htotal]
  refine List.map_congr_left fun v _ => ?_
  rw [share]
  split_ifs
  · rfl
  · exact zero_div _

theorem reach_weights_le (e : Exponential K) (row : List K) {p : K} (hp : p ≤ 1) {top : List ℕ} (h : top ≠ []) :
    reach (weights e row top) p ≤ top.length := by
  have hlength : (weights e row top).length = top.length := List.length_map _
  exact hlength ▸ reach_le_length (by rwa [sum_weights h])

omit [IsStrictOrderedRing K] in
theorem keptTokens_eq (e : Exponential K) (k : ℕ) (p : K) (row : List K) :
    keptTokens e k p row =
      ((descending row).take k).take (reach (weights e row ((descending row).take k)) p) := rfl

omit [IsStrictOrderedRing K] in
theorem sum_drop_share (e : Exponential K) (row : List K) (k j : ℕ) :
    (((sortIndices row).map (share e row ((descending row).take k))).drop j).sum =
      ((weights e row ((descending row).take k)).take (row.length - j)).sum := by
  rw [← List.map_drop,weights,← List.map_take]
  exact sum_drop_sortIndices row _ k j

omit [IsStrictOrderedRing K] in
theorem take_descending_ne_nil {k : ℕ} (hk : 0 < k) {row : List K} (hn : 0 < row.length) :
    (descending row).take k ≠ [] := by
  refine List.ne_nil_of_length_pos ?_
  rw [List.length_take,length_descending]
  omega

theorem sum_share (e : Exponential K) {k : ℕ} (hk : 0 < k) (hn : 0 < row.length) :
    ((sortIndices row).map (share e row ((descending row).take k))).sum = 1 := by
  have htotal := sum_drop_share e row k 0
  rwa [List.drop_zero,Nat.sub_zero,weights,← List.map_take,take_take_descending,← weights,
    sum_weights (take_descending_ne_nil hk hn)] at htotal

theorem mass_iff {k : ℕ} (hk : 0 < k) {p : K} (hp : p ≤ 1) {i : ℕ}
    (hi : i < (sortIndices row).length) :
    1 - p < (((sortIndices row).map (share e row ((descending row).take k))).take (i + 1)).sum ↔
      (sortIndices row)[i] ∈ keptTokens e k p row := by
  have hn := length_sortIndices row
  have hrow : 0 < row.length := by omega
  have hne := take_descending_ne_nil hk hrow
  have hsplit := List.sum_take_add_sum_drop
    ((sortIndices row).map (share e row ((descending row).take k))) (i + 1)
  rw [sum_share e hk (by omega),sum_drop_share] at hsplit
  have hmass : 1 - p < (((sortIndices row).map (share e row ((descending row).take k))).take (i + 1)).sum ↔
      ((weights e row ((descending row).take k)).take (row.length - (i + 1))).sum < p := by
    constructor <;> intro hlt <;> linarith
  have hlength : ((descending row).take k).length = min k row.length := by
    rw [List.length_take,length_descending]
  have hreach := reach_weights_le e row hp hne
  rw [keptTokens_eq,List.take_take,mem_take_descending hi,Nat.min_eq_left (by omega),hmass,
    ← lt_reach_iff (fun x hx => (weights_pos x hx).le) (by rwa [sum_weights hne])]
  omega

theorem cumsum_mask (e : Exponential K) (row : List K) {k : ℕ} (hk : 0 < k) {p : K} (hp0 : 0 < p) (hp : p ≤ 1) :
    ((cumsum ((sortIndices row).map (share e row ((descending row).take k)))).map
        fun mass => decide (1 - p < mass)).set (row.length - 1) true =
      (sortIndices row).map fun v => decide (v ∈ keptTokens e k p row) := by
  have hn := length_sortIndices row
  refine List.ext_getElem (by simp [cumsum]) fun i _ hi => ?_
  rw [List.length_map] at hi
  rw [List.getElem_set,List.getElem_map]
  split_ifs with hlast
  · have hall : (((sortIndices row).map (share e row ((descending row).take k))).take (i + 1)).sum = 1 := by
      rw [List.take_of_length_le (by rw [List.length_map]; omega)]
      exact sum_share e hk (by omega)
    rw [List.getElem_map,eq_comm,decide_eq_true_eq,← mass_iff hk hp hi,hall]
    linarith
  · rw [List.getElem_map,decide_eq_decide,← mass_iff hk hp hi]
    simp [cumsum]

omit [IsStrictOrderedRing K] in
theorem mem_top_of_mem_keptTokens {k : ℕ} {p : K} {v : ℕ} (hv : v ∈ keptTokens e k p row) :
    v ∈ (descending row).take k := List.mem_of_mem_take hv

omit [IsStrictOrderedRing K] in
theorem sortedTopKMask_eq {topK : Option ℤ} (h : row.Nodup)
    (hk : ∀ k ∈ topK, k ≤ row.length) :
    (sortedTopKMask topK ((sortIndices row).map fun v => ((row.getD v 0 : K) : WithBot K)) = none ∧
      topCount topK row.length = row.length) ∨
    sortedTopKMask topK ((sortIndices row).map fun v => ((row.getD v 0 : K) : WithBot K)) =
      some ((sortIndices row).map fun v =>
        decide (v ∈ (descending row).take (topCount topK row.length))) := by
  cases topK with
  | none => exact .inl ⟨rfl,rfl⟩
  | some k =>
    rcases lt_or_ge 0 k with hpos | hnone
    · refine .inr ?_
      have hle := hk k rfl
      rw [sortedTopKMask,topCount]
      simp only [if_pos hpos,List.map_map,Option.some.injEq]
      refine List.map_congr_left fun v hv => ?_
      obtain ⟨i,hi,rfl⟩ := List.getElem_of_mem hv
      rw [Function.comp_apply,decide_eq_decide]
      exact mem_top_iff (by omega) (by omega) h hi
    · refine .inl ⟨?_,?_⟩
      · rw [sortedTopKMask,if_neg (not_lt.mpr hnone)]
      · simp only [topCount,if_neg (not_lt.mpr hnone)]

omit [Field K] [LinearOrder K] [IsStrictOrderedRing K] in
theorem topCount_pos (topK : Option ℤ) {n : ℕ} (hn : 0 < n) : 0 < topCount topK n := by
  cases topK with
  | none => exact hn
  | some k =>
    simp only [topCount]
    split_ifs <;> omega

/-- The filter along the order keeps the same tokens. -/
theorem applySorted_eq {topK : Option ℤ} {p : K} (hp0 : 0 < p) (hp : p ≤ 1) (h : row.Nodup)
    (hk : ∀ k ∈ topK, k ≤ row.length) (hn : 0 < row.length) :
    applySorted e topK p row = (keptLogits row (keptTokens e (topCount topK row.length) p row),
      keptMask row (keptTokens e (topCount topK row.length) p row)) := by
  have hmask := cumsum_mask e row (topCount_pos topK hn) hp0 hp
  have hkept : ∀ v, v ∈ keptTokens e (topCount topK row.length) p row →
      v ∈ (descending row).take (topCount topK row.length) := fun v => mem_top_of_mem_keptTokens
  have hlogits : fillMasked
      ((sortIndices row).map fun v => decide (v ∈ keptTokens e (topCount topK row.length) p row))
      ((sortIndices row).map fun v => if v ∈ (descending row).take (topCount topK row.length)
        then ((row.getD v 0 : K) : WithBot K) else ⊥) =
      (sortIndices row).map fun v => if v ∈ keptTokens e (topCount topK row.length) p row
        then ((row.getD v 0 : K) : WithBot K) else ⊥ := by
    rw [fillMasked_map]
    refine List.map_congr_left fun v _ => ?_
    by_cases hv : v ∈ keptTokens e (topCount topK row.length) p row
    · simp only [decide_eq_true hv,if_true,if_pos hv,if_pos (hkept v hv)]
    · simp only [decide_eq_false hv,if_neg hv,Bool.false_eq_true,if_false]
  rw [applySorted]
  rcases sortedTopKMask_eq h hk with ⟨hnone,hcount⟩ | hsome
  · have hall : ((sortIndices row).map fun v => ((row.getD v 0 : K) : WithBot K)) =
        (sortIndices row).map fun v => if v ∈ (descending row).take (topCount topK row.length)
          then ((row.getD v 0 : K) : WithBot K) else ⊥ := by
      refine List.map_congr_left fun v hv => (if_pos ?_).symm
      rw [hcount,List.take_of_length_le (length_descending row).le,descending,List.mem_reverse]
      exact hv
    simp only [hnone]
    rw [hall,softmax_sorted,hmask,hlogits,scatter_sortIndices,scatter_sortIndices]
    rfl
  · have hfilled := fillMasked_map (sortIndices row)
      (fun v => decide (v ∈ (descending row).take (topCount topK row.length)))
      fun v => ((row.getD v 0 : K) : WithBot K)
    simp only [decide_eq_true_eq] at hfilled
    have hand : List.zipWith and
        ((sortIndices row).map fun v => decide (v ∈ (descending row).take (topCount topK row.length)))
        ((sortIndices row).map fun v => decide (v ∈ keptTokens e (topCount topK row.length) p row)) =
        (sortIndices row).map fun v => decide (v ∈ keptTokens e (topCount topK row.length) p row) := by
      rw [List.zipWith_map,List.zipWith_self]
      refine List.map_congr_left fun v _ => ?_
      by_cases hv : v ∈ keptTokens e (topCount topK row.length) p row
      · rw [decide_eq_true hv,decide_eq_true (hkept v hv)]
        rfl
      · rw [decide_eq_false hv,Bool.and_false]
    simp only [hsome]
    rw [hfilled,softmax_sorted,hmask,hlogits,hand,scatter_sortIndices,scatter_sortIndices]
    rfl

/-- Without top-p all of the largest logits are kept. -/
theorem keptTokens_one (e : Exponential K) {k : ℕ} (hk : 0 < k) (hn : 0 < row.length) :
    keptTokens e k 1 row = (descending row).take k := by
  have hne := take_descending_ne_nil hk hn
  have hreach := reach_sum (@weights_pos K _ _ row _ e ((descending row).take k))
  rw [sum_weights hne,weights,List.length_map,← weights] at hreach
  rw [keptTokens_eq,hreach,List.take_length]

variable {topK : Option ℤ} {p : K} {rows : List (List K)} {n : ℕ}

omit [IsStrictOrderedRing K] in
theorem applyTopKTopPFn_loop (hp : p ≠ 1) {chunkSize : ℕ} (hc : 0 < chunkSize) :
    applyTopKTopPFn e topK p chunkSize rows =
      (rows.map fun row => (applySorted e topK p row).1,
        some (rows.map fun row => (applySorted e topK p row).2)) := by
  have hend := le_rangeSteps_mul hc rows.length
  have hfst := foldl_setSlice_range (rows.map fun row => (applySorted e topK p row).1)
    (List.replicate rows.length []) (by simp) chunkSize (rangeSteps rows.length chunkSize)
  have hsnd := foldl_setSlice_range (rows.map fun row => (applySorted e topK p row).2)
    (List.replicate rows.length []) (by simp) chunkSize (rangeSteps rows.length chunkSize)
  rw [List.take_of_length_le (by simpa using hend),List.drop_of_length_le (by simpa using hend),
    List.append_nil] at hfst hsnd
  simp only [applyTopKTopPFn,needTopPFiltering,decide_eq_true hp,Bool.not_true,Bool.false_eq_true,
    if_false]
  have hpair := foldl_pair
    (fun (out : List (List (WithBot K))) i => setSlice out (i * chunkSize)
      (min (i * chunkSize + chunkSize) rows.length) ((((rows.drop (i * chunkSize)).take
        (min (i * chunkSize + chunkSize) rows.length - i * chunkSize)).map
          (applySorted e topK p)).map Prod.fst))
    (fun (out : List (List Bool)) i => setSlice out (i * chunkSize)
      (min (i * chunkSize + chunkSize) rows.length) ((((rows.drop (i * chunkSize)).take
        (min (i * chunkSize + chunkSize) rows.length - i * chunkSize)).map
          (applySorted e topK p)).map Prod.snd))
    (List.range (rangeSteps rows.length chunkSize)) (List.replicate rows.length [])
    (List.replicate rows.length [])
  rw [hpair]
  simp only [List.map_map,← List.map_drop,← List.map_take,List.length_map,Function.comp_def] at hfst hsnd ⊢
  rw [hfst,hsnd]

omit [IsStrictOrderedRing K] in
theorem finite_eq (row : List K) : finite row = keptLogits row (descending row) := by
  conv_lhs => rw [← map_getD row]
  rw [finite,List.map_map,keptLogits]
  refine List.map_congr_left fun v hv => (if_pos ?_).symm
  exact (descending_perm row).mem_iff.mpr hv

theorem applyTopKTopP_one (e : Exponential K) (hn : 0 < n) (hk : ∀ k ∈ topK, k ≤ n)
    (hrows : ∀ row ∈ rows, row.Nodup ∧ row.length = n) (chunkSize : ℕ) :
    (applyTopKTopP e topK 1 chunkSize rows = (rows.map finite,none) ∧ topCount topK n = n) ∨
      applyTopKTopP e topK 1 chunkSize rows =
        (rows.map fun row => keptLogits row (keptTokens e (topCount topK n) 1 row),
          some (rows.map fun row => keptMask row (keptTokens e (topCount topK n) 1 row))) := by
  have hone : needTopPFiltering (1 : K) = false := decide_eq_false (not_not_intro rfl)
  cases topK with
  | none =>
    refine .inl ⟨?_,rfl⟩
    rw [applyTopKTopP,hone]
    rfl
  | some k =>
    rcases lt_or_ge 0 k with hpos | hnone
    · refine .inr ?_
      have hneed : needTopKFiltering (some k) = true := decide_eq_true hpos
      have hle := hk k rfl
      have hrow : ∀ row ∈ rows, applyTopKOnly k.toNat row =
          (keptLogits row (keptTokens e (topCount (some k) n) 1 row),
            keptMask row (keptTokens e (topCount (some k) n) 1 row)) := by
        intro row hrow
        obtain ⟨hnodup,rfl⟩ := hrows row hrow
        have hcount : topCount (some k) row.length = k.toNat := if_pos hpos
        rw [applyTopKOnly_eq (by omega) (by omega) hnodup,hcount,keptTokens_one e (by omega) hn]
      rw [applyTopKTopP,hneed,hone]
      simp only [applyTopKTopPFn,hone,Bool.not_true,Bool.false_and,Bool.not_false,Bool.false_eq_true,
        if_false,if_true,if_pos hpos]
      refine Prod.ext (List.map_congr_left fun row h => ?_)
        (congrArg some (List.map_congr_left fun row h => ?_))
      · rw [hrow row h]
      · rw [hrow row h]
    · have hneed : needTopKFiltering (some k) = false := decide_eq_false (not_lt.mpr hnone)
      refine .inl ⟨?_,if_neg (not_lt.mpr hnone)⟩
      rw [applyTopKTopP,hneed,hone]
      rfl

/-- A row with the other tokens filtered, and its mask. -/
theorem applyTopKTopP_eq (hp0 : 0 < p) (hp : p ≤ 1) (hn : 0 < n) (hk : ∀ k ∈ topK, k ≤ n)
    (hrows : ∀ row ∈ rows, row.Nodup ∧ row.length = n) {chunkSize : ℕ} (hc : 0 < chunkSize) :
    (applyTopKTopP e topK p chunkSize rows).1 =
        rows.map (fun row => keptLogits row (keptTokens e (topCount topK n) p row)) ∧
      ((applyTopKTopP e topK p chunkSize rows).2 = none ∧
          (∀ row ∈ rows, keptTokens e (topCount topK n) p row = descending row) ∨
        (applyTopKTopP e topK p chunkSize rows).2 =
          some (rows.map fun row => keptMask row (keptTokens e (topCount topK n) p row))) := by
  by_cases hp1 : p = 1
  · subst hp1
    rcases applyTopKTopP_one e hn hk hrows chunkSize with ⟨hnone,hcount⟩ | hsome
    · have hall : ∀ row ∈ rows, keptTokens e (topCount topK n) 1 row = descending row := by
        intro row hrow
        obtain ⟨_,rfl⟩ := hrows row hrow
        rw [hcount,keptTokens_one e hn hn,List.take_of_length_le (length_descending row).le]
      refine ⟨?_,.inl ⟨congrArg Prod.snd hnone,hall⟩⟩
      rw [hnone]
      refine List.map_congr_left fun row hrow => ?_
      rw [finite_eq,hall row hrow]
    · exact ⟨congrArg Prod.fst hsome,.inr (congrArg Prod.snd hsome)⟩
  · have hfn : applyTopKTopP e topK p chunkSize rows =
        (rows.map fun row => keptLogits row (keptTokens e (topCount topK n) p row),
          some (rows.map fun row => keptMask row (keptTokens e (topCount topK n) p row))) := by
      have hrow : ∀ row ∈ rows, applySorted e topK p row =
          (keptLogits row (keptTokens e (topCount topK n) p row),
            keptMask row (keptTokens e (topCount topK n) p row)) := by
        intro row hrow
        obtain ⟨hnodup,rfl⟩ := hrows row hrow
        exact applySorted_eq hp0 hp hnodup hk hn
      rw [applyTopKTopP,needTopPFiltering,decide_eq_true hp1,Bool.not_true,Bool.and_false,
        if_neg Bool.false_ne_true,applyTopKTopPFn_loop hp1 hc]
      refine Prod.ext (List.map_congr_left fun row h => ?_)
        (congrArg some (List.map_congr_left fun row h => ?_))
      · rw [hrow row h]
      · rw [hrow row h]
    exact ⟨congrArg Prod.fst hfn,.inr (congrArg Prod.snd hfn)⟩

end Logprob
end DockyardRL
