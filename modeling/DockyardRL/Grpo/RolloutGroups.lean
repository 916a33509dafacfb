import DockyardRL.Grpo.DynamicSampling

/-! What `allocate_rollout_budget` keeps of every group: its first rows, not fewer than the floor
where the budget pays for the floors. -/
namespace DockyardRL
namespace Grpo

open Gather Grouping

variable {I K : Type*} [DecidableEq I] [Field K] [LinearOrder K]

def keptOf (groupIds : List I) (kept : List ℕ) (gid : I) : List ℕ :=
  kept.filter fun row => groupIds[row]? = some gid

section Loop

variable [FloorSemiring K]

/-- The loop of `_apportion`, from its start to its end. -/
inductive ApportionRun (weights : List K) : List ℕ → Spending → Spending → Prop
  | stop {active : List ℕ} {s : Spending} (h : ¬(0 < s.remainder ∧ active ≠ [])) :
      ApportionRun weights active s s
  | pass {active : List ℕ} {s t : Spending} (h : 0 < s.remainder ∧ active ≠ [])
      (hrest : ApportionRun weights ((apportionPass weights active s).active active)
        (apportionPass weights active s) t) : ApportionRun weights active s t

variable [IsStrictOrderedRing K] {available : List ℕ} {s : Spending} {weights : List K}

theorem apportionLoop_run (hweights : ∀ i, 0 ≤ weightAt weights i) {fuel : ℕ} {active : List ℕ}
    (h : s.Fits available) (hfuel : s.remainder ≤ fuel) (hnodup : active.Nodup)
    (hleft : ∀ i, i ∈ active ↔ 0 < s.left i) :
    ApportionRun weights active s (apportionLoop weights fuel active s) := by
  induction fuel generalizing s active with
  | zero => exact .stop fun hgo => absurd hgo.1 (by omega)
  | succ fuel ih =>
    rw [apportionLoop]
    by_cases hgo : 0 < s.remainder ∧ active ≠ []
    · rw [if_pos hgo]
      obtain ⟨hpass,hless⟩ := apportionPass_spends hweights h hnodup (fun i hi => (hleft i).mp hi)
        hgo.2 hgo.1
      exact .pass hgo (ih hpass.fits (by omega) (hnodup.filter _)
        (mem_active_pass hweights h hnodup hleft hgo))
    · rw [if_neg hgo]
      exact .stop hgo

/-- What every pass preserves holds when the loop has ended. -/
theorem ApportionRun.preserves (hweights : ∀ i, 0 ≤ weightAt weights i) {P : Spending → Prop}
    (hstep : ∀ {active : List ℕ} {s : Spending}, s.Fits available → active.Nodup →
      (∀ i, i ∈ active ↔ 0 < s.left i) → 0 < s.remainder → active ≠ [] → P s →
      P (apportionPass weights active s))
    {active : List ℕ} {t : Spending} (hrun : ApportionRun weights active s t) (h : s.Fits available)
    (hnodup : active.Nodup) (hleft : ∀ i, i ∈ active ↔ 0 < s.left i) (hs : P s) :
    t.Fits available ∧ P t := by
  induction hrun with
  | stop _ => exact ⟨h,hs⟩
  | pass hgo _ ih =>
    have hpass := (apportionPass_spends hweights h hnodup (fun i hi => (hleft i).mp hi) hgo.2
      hgo.1).1
    exact ih hpass.fits (hnodup.filter _) (mem_active_pass hweights h hnodup hleft hgo)
      (hstep h hnodup hleft hgo.1 hgo.2 hs)

/-- The loop of `_apportion` comes to its end, with the quotas that `apportion` returns. -/
theorem apportion_run (hweights : ∀ i, 0 ≤ weightAt weights i) {headroom : List ℕ}
    (hlen : weights.length = headroom.length) (remainder : ℕ) :
    ∃ t, ApportionRun weights
      ((Spending.start weights.length headroom remainder).active (List.range weights.length))
      (Spending.start weights.length headroom remainder) t ∧
      t.quotas = apportion weights headroom remainder :=
  ⟨_,apportionLoop_run hweights (Spending.fits_start hlen remainder) le_rfl
    (List.nodup_range.filter _) (Spending.mem_active_start hlen remainder),rfl⟩

end Loop

section Kept

theorem filter_takes_other (groupIds : List I) {ks : List I} {gid : I} (hgid : gid ∉ ks)
    (quotas : List ℕ) :
    ((List.zipWith (fun rows quota => rows.take quota) (ks.map (positions groupIds))
      quotas).flatten.filter fun row => groupIds[row]? = some gid) = [] := by
  refine List.filter_eq_nil_iff.mpr fun row hrow => ?_
  have hmem := (takes_sublist _ _).subset hrow
  obtain ⟨rows,hrows,hin⟩ := List.mem_flatten.mp hmem
  obtain ⟨k,hk,rfl⟩ := List.mem_map.mp hrows
  rw [decide_eq_true_iff,mem_positions.mp hin,Option.some.injEq]
  exact fun heq => hgid (heq ▸ hk)

theorem filter_takes {groupIds ks : List I} (hnodup : ks.Nodup) {quotas : List ℕ} {gid : I}
    {quota : ℕ} (h : (gid,quota) ∈ ks.zip quotas) :
    ((List.zipWith (fun rows quota => rows.take quota) (ks.map (positions groupIds))
      quotas).flatten.filter fun row => groupIds[row]? = some gid) =
        (positions groupIds gid).take quota := by
  induction ks generalizing quotas with
  | nil => simp at h
  | cons k ks ih =>
    obtain ⟨hk,hks⟩ := List.nodup_cons.mp hnodup
    cases quotas with
    | nil => simp at h
    | cons q quotas =>
      rw [List.map_cons,List.zipWith_cons_cons,List.flatten_cons,List.filter_append]
      rw [List.zip_cons_cons,List.mem_cons] at h
      obtain heq | hrest := h
      · obtain ⟨rfl,rfl⟩ := Prod.mk.inj heq
        rw [filter_takes_other groupIds hk,List.append_nil]
        refine List.filter_eq_self.mpr fun row hrow => ?_
        rw [decide_eq_true_iff]
        exact mem_positions.mp (List.mem_of_mem_take hrow)
      · have hne : k ≠ gid := fun heq => hk (heq ▸ (List.of_mem_zip hrest).1)
        have hother : gid ∉ [k] := by simpa using hne.symm
        have hnone := filter_takes_other groupIds hother [q]
        rw [List.map_singleton,List.zipWith_cons_cons,List.zipWith_nil_left,List.flatten_singleton]
          at hnone
        rw [hnone,List.nil_append,ih hks hrest]

variable [FloorSemiring K] (A : Arithmetic K) (groupIds : List I) (weights : List K) {budget : ℤ}
  (minRolloutsPerPrompt : ℤ) (varianceExponent : K) (diversity : Option (List K))
  (diversityExponent : K)

/-- Every group keeps its first rows, as many as its quota. -/
theorem keptOf_eq_take (hpos : 0 < budget) (hless : budget < groupIds.length) {i : ℕ} {gid : I}
    {quota : ℕ} (hat : (groupRows groupIds).2[i]? = some gid)
    (hquota : (rolloutQuotas A groupIds weights budget minRolloutsPerPrompt varianceExponent
      diversity diversityExponent)[i]? = some quota) :
    keptOf groupIds (allocateRolloutBudget A groupIds weights budget minRolloutsPerPrompt
      varianceExponent diversity diversityExponent) gid = (positions groupIds gid).take quota := by
  rw [allocateRolloutBudget_eq A groupIds weights minRolloutsPerPrompt varianceExponent diversity
    diversityExponent hpos hless,keptOf]
  set quotas := rolloutQuotas A groupIds weights budget minRolloutsPerPrompt varianceExponent
    diversity diversityExponent
  have h : (gid,quota) ∈ (groupRows groupIds).2.zip quotas :=
    List.mem_of_getElem? (List.getElem?_zip_eq_some.mpr ⟨hat,hquota⟩)
  rw [groupRows_eq] at h ⊢
  rw [values_group]
  set rows := (List.zipWith (fun rows quota => rows.take quota)
    ((group groupIds).keys.map (positions groupIds)) quotas).flatten
  have hfilter : (rows.filter fun row => groupIds[row]? = some gid) =
      (positions groupIds gid).take quota := filter_takes (group groupIds).nodup h
  have hsorted : ((rows.insertionSort (· ≤ ·)).filter fun row => groupIds[row]? = some gid).Pairwise
      (· ≤ ·) := (List.pairwise_insertionSort (· ≤ ·) rows).filter _
  have hperm : ((rows.insertionSort (· ≤ ·)).filter fun row => groupIds[row]? = some gid).Perm
      ((positions groupIds gid).take quota) := by
    rw [← hfilter]
    exact (List.perm_insertionSort (· ≤ ·) rows).filter _
  have htake : ((positions groupIds gid).take quota).Pairwise (· ≤ ·) :=
    ((pairwise_positions groupIds gid).imp le_of_lt).sublist (List.take_sublist _ _)
  exact hperm.eq_of_pairwise (fun _ _ _ _ => le_antisymm) hsorted htake

/-- A budget for all rows. -/
theorem keptOf_all (hall : (groupIds.length : ℤ) ≤ budget) (gid : I) :
    keptOf groupIds (allocateRolloutBudget A groupIds weights budget minRolloutsPerPrompt
      varianceExponent diversity diversityExponent) gid = positions groupIds gid := by
  rw [allocateRolloutBudget,if_pos hall]
  rfl

/-- No budget. -/
theorem keptOf_none (hnone : budget ≤ 0) (hless : budget < groupIds.length) (gid : I) :
    keptOf groupIds (allocateRolloutBudget A groupIds weights budget minRolloutsPerPrompt
      varianceExponent diversity diversityExponent) gid = [] := by
  rw [allocateRolloutBudget,if_neg (not_le.mpr hless),if_pos hnone]
  rfl

end Kept

section Floors

variable [FloorSemiring K] [IsStrictOrderedRing K]

theorem floors_le_groupQuotas {graded : List K} (groupWeight : List K) {available : List ℕ}
    {floor budget : ℕ} (hgraded : ∀ w ∈ graded, 0 ≤ w) (hlen : graded.length = available.length)
    (hfloors : (available.map (min floor)).sum ≤ budget) (hbudget : budget ≤ available.sum) :
    List.Forall₂ (· ≤ ·) (available.map (min floor))
      (groupQuotas graded groupWeight available floor budget) := by
  have hle : List.Forall₂ (· ≤ ·) (available.map (min floor)) available := by
    rw [List.forall₂_map_left_iff,List.forall₂_same]
    exact fun x _ => Nat.min_le_right _ x
  have hroom := sum_zipWith_sub hle
  have hwide : graded.length =
      (List.zipWith (· - ·) available (available.map (min floor))).length := by simp [hlen]
  have hextra := (apportion_spends (budget - (available.map (min floor)).sum)
    (weightAt_nonneg hgraded) hwide (by omega)).2.length_eq
  rw [groupQuotas,if_neg (not_lt.mpr hfloors)]
  exact le_zipWith_add (by rw [hextra]; simp)

/-- The sizes of the groups. -/
theorem length_groupRows (groupIds : List I) :
    (groupRows groupIds).1.map List.length = (group groupIds).keys.map (groupIds.count ·) := by
  rw [groupRows_eq,values_group,List.map_map]
  exact List.map_congr_left fun k _ => length_positions groupIds k

variable {A : Arithmetic K}

/-- The quota of a group. -/
theorem exists_quota {varianceExponent diversityExponent : K}
    (hvariance : NonnegPower A varianceExponent) (hdiversity : NonnegPower A diversityExponent)
    {groupIds : List I} (weights : List K) {budget : ℤ} (minRolloutsPerPrompt : ℤ)
    (diversity : Option (List K)) (hless : budget < groupIds.length) {i : ℕ} {gid : I}
    (hat : (groupRows groupIds).2[i]? = some gid) :
    ∃ quota, (rolloutQuotas A groupIds weights budget minRolloutsPerPrompt varianceExponent
      diversity diversityExponent)[i]? = some quota ∧ quota ≤ groupIds.count gid ∧
      (0 < budget → (groupIds.dedup.map fun k =>
        min minRolloutsPerPrompt.toNat (groupIds.count k)).sum ≤ budget.toNat →
        min minRolloutsPerPrompt.toNat (groupIds.count gid) ≤ quota) := by
  have hsizes := length_groupRows groupIds
  have hquotas := (rolloutQuotas_spend hvariance hdiversity groupIds weights minRolloutsPerPrompt
    diversity hless).2
  have hsize : ((groupRows groupIds).1.map List.length)[i]? = some (groupIds.count gid) := by
    rw [groupRows_eq] at hat
    rw [hsizes,List.getElem?_map,hat,Option.map_some]
  obtain ⟨hi,hcount⟩ := List.getElem?_eq_some_iff.mp hsize
  have hin : i < (rolloutQuotas A groupIds weights budget minRolloutsPerPrompt varianceExponent
      diversity diversityExponent).length := hquotas.length_eq.symm ▸ hi
  refine ⟨_,List.getElem?_eq_getElem hin,?_,fun hpos hfloors => ?_⟩
  · rw [← hcount]
    exact (List.forall₂_iff_get.mp hquotas).2 i hin hi
  · obtain ⟨hnonneg,hgraded⟩ := gradedWeights_nonneg hvariance hdiversity groupIds weights diversity
    have htotal : ((groupRows groupIds).1.map List.length).sum = groupIds.length := by
      rw [← List.length_flatten,(groupRows_perm groupIds).length_eq,List.length_range]
    have hsum : (((groupRows groupIds).1.map List.length).map (min minRolloutsPerPrompt.toNat)).sum ≤
        budget.toNat := by
      rw [hsizes,List.map_map]
      exact (((keys_group_perm groupIds).map _).sum_eq).trans_le hfloors
    have hfloor := floors_le_groupQuotas ((groupRows groupIds).1.map (groupMean weights)) hnonneg
      (by rw [hgraded,List.length_map]) hsum (by omega)
    have hle := (List.forall₂_iff_get.mp hfloor).2 i (by rw [List.length_map]; exact hi) hin
    rw [List.get_eq_getElem,List.getElem_map,hcount] at hle
    exact hle

theorem exists_group {groupIds : List I} {gid : I} (hgid : gid ∈ groupIds) :
    ∃ i : ℕ, (groupRows groupIds).2[i]? = some gid := by
  rw [groupRows_eq]
  exact List.mem_iff_getElem?.mp (mem_keys_group.mpr hgid)

/-- Powers to natural exponents are what they are. -/
def NaturalPower (A : Arithmetic K) : Prop := ∀ x (n : ℕ), A.power x n = x ^ n

theorem nonnegPower_natCast (hA : NaturalPower A) (n : ℕ) : NonnegPower A n := by
  intro x hx
  rw [hA]
  exact pow_nonneg hx n

/-- The allocation comes to an end and spends the budget on the first rows of every group; where
the budget pays for the floors, every group has its floor. -/
theorem allocateRolloutBudget_graded (hA : NaturalPower A) (groupIds : List I) (weights : List K)
    (budget minRolloutsPerPrompt : ℤ) (varianceExponent diversityExponent : ℕ)
    (diversity : Option (List K)) :
    (∀ (headroom : List ℕ) (remainder : ℕ),
      let graded := gradedWeights A groupIds weights varianceExponent diversity diversityExponent
      headroom.length = graded.length →
      ∃ t, ApportionRun graded
        ((Spending.start graded.length headroom remainder).active (List.range graded.length))
        (Spending.start graded.length headroom remainder) t ∧
        t.quotas = apportion graded headroom remainder) ∧
    let kept := allocateRolloutBudget A groupIds weights budget minRolloutsPerPrompt
      varianceExponent diversity diversityExponent
    kept.Pairwise (· < ·) ∧ Within kept groupIds.length ∧
      (kept.length : ℤ) = max 0 (min budget groupIds.length) ∧
      (∀ gid, ∃ n, keptOf groupIds kept gid = (positions groupIds gid).take n) ∧
      (0 < budget → budget < groupIds.length → ((groupIds.dedup.map fun gid =>
          min minRolloutsPerPrompt.toNat (groupIds.count gid)).sum : ℤ) ≤ budget →
        ∀ gid ∈ groupIds, min minRolloutsPerPrompt.toNat (groupIds.count gid) ≤
          (keptOf groupIds kept gid).length) := by
  have hvariance := nonnegPower_natCast hA varianceExponent
  have hdiversity := nonnegPower_natCast hA diversityExponent
  refine ⟨fun headroom remainder hlen => ?_,?_⟩
  · have hnonneg := (gradedWeights_nonneg hvariance hdiversity groupIds weights diversity).1
    exact apportion_run (weightAt_nonneg hnonneg) hlen.symm remainder
  obtain ⟨hsorted,hwithin,hlength⟩ := allocateRolloutBudget_spec hvariance hdiversity groupIds weights
    budget minRolloutsPerPrompt diversity
  refine ⟨hsorted,hwithin,hlength,fun gid => ?_,fun hpos hless hfloors gid hgid => ?_⟩
  · by_cases hall : (groupIds.length : ℤ) ≤ budget
    · exact ⟨_,(keptOf_all A groupIds weights minRolloutsPerPrompt _ diversity _ hall gid).trans
        (List.take_length).symm⟩
    by_cases hnone : budget ≤ 0
    · exact ⟨0,keptOf_none A groupIds weights minRolloutsPerPrompt _ diversity _ hnone
        (not_le.mp hall) gid⟩
    by_cases hgid : gid ∈ groupIds
    · obtain ⟨i,hat⟩ := exists_group hgid
      obtain ⟨quota,hquota,-⟩ := exists_quota hvariance hdiversity weights minRolloutsPerPrompt
        diversity (not_le.mp hall) hat
      exact ⟨quota,keptOf_eq_take A groupIds weights minRolloutsPerPrompt _ diversity _
        (not_le.mp hnone) (not_le.mp hall) hat hquota⟩
    · refine ⟨0,List.filter_eq_nil_iff.mpr fun row _ => ?_⟩
      rw [decide_eq_true_iff]
      exact fun heq => hgid (List.mem_of_getElem? heq)
  · obtain ⟨i,hat⟩ := exists_group hgid
    obtain ⟨quota,hquota,hle,hfloor⟩ := exists_quota hvariance hdiversity weights
      minRolloutsPerPrompt diversity hless hat
    have hkept := keptOf_eq_take A groupIds weights minRolloutsPerPrompt _ diversity _ hpos hless
      hat hquota
    rw [hkept,List.length_take,length_positions,Nat.min_eq_left hle]
    exact hfloor hpos (by omega)

end Floors

theorem naturalPower_rational : NaturalPower rationalArithmetic := by
  intro x n
  simp [rationalArithmetic]

theorem allocateRolloutBudget_graded_three :
    let kept := allocateRolloutBudget rationalArithmetic [7,7,4,4,4] [1,1,3,3,3] 3 1 (1 : ℕ) none
      (0 : ℕ)
    (kept.length : ℤ) = max 0 (min 3 5) ∧ min 1 (List.count 7 [7,7,4,4,4]) ≤
      (keptOf [7,7,4,4,4] kept 7).length :=
  have h := (allocateRolloutBudget_graded naturalPower_rational [7,7,4,4,4] [1,1,3,3,3] 3 1 1 0
    none).2.2.2
  ⟨h.1,h.2.2 (by decide) (by decide) (by decide) 7 (by decide)⟩

end Grpo
end DockyardRL
