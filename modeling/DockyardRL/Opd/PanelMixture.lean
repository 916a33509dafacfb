import DockyardRL.Opd.TeacherScores
import Mathlib.Algebra.Order.Floor.Ring
import Mathlib.Analysis.SpecialFunctions.Log.Basic

/-! The rows that a panel scores again: which they are, and when they become the uniform mixture of
the distinct teachers that scored them. -/
namespace DockyardRL
namespace Opd

open Gather Grouping SortByKey

variable {μ K : Type}

section Escalation

variable [Field K] [LinearOrder K] {means : List K} {fraction : ℚ}

/-- A row has one of the lowest means, of which there are as many as the fraction allows; among equal
means the lower row comes first. -/
def Escalated (means : List K) (fraction : ℚ) (i : ℕ) : Prop :=
  i < means.length ∧ (List.range means.length).countP (fun j =>
    decide (means.getD j 0 < means.getD i 0 ∨ means.getD j 0 = means.getD i 0 ∧ j < i)) <
      ⌊means.length * fraction⌋.toNat

instance (means : List K) (fraction : ℚ) (i : ℕ) : Decidable (Escalated means fraction i) :=
  inferInstanceAs (Decidable (_ ∧ _))

def rowKey (means : List K) (i : ℕ) : K ×ₗ ℕ := toLex (means.getD i 0,i)

theorem rowKey_lt {i j : ℕ} : rowKey means j < rowKey means i ↔
    means.getD j 0 < means.getD i 0 ∨ means.getD j 0 = means.getD i 0 ∧ j < i :=
  Prod.Lex.toLex_lt_toLex

theorem pairwise_order (n : ℕ) :
    (sortByKey (rowKey means) (List.range n)).Pairwise fun i j => rowKey means i < rowKey means j := by
  have hnodup : (sortByKey (rowKey means) (List.range n)).Nodup :=
    (sortByKey_perm _ _).nodup_iff.mpr List.nodup_range
  refine (List.Pairwise.and (pairwise_sortByKey _ _) hnodup).imp fun ⟨hle,hne⟩ => ?_
  refine lt_of_le_of_ne hle fun heq => hne ?_
  exact congrArg (fun key => (ofLex key).2) heq

theorem selectEscalationRows_perm : (selectEscalationRows means fraction).Perm
    ((sortByKey (rowKey means) (List.range means.length)).take ⌊means.length * fraction⌋.toNat) := by
  unfold selectEscalationRows
  dsimp only
  have hlength : (sortByKey (rowKey means) (List.range means.length)).length = means.length := by
    rw [(sortByKey_perm _ _).length_eq,List.length_range]
  split_ifs with hnone
  · have hempty : (sortByKey (rowKey means) (List.range means.length)).take
        ⌊means.length * fraction⌋.toNat = [] := by
      rcases hnone with hzero | hfraction
      · rw [List.eq_nil_of_length_eq_zero (hlength.trans hzero),List.take_nil]
      · have hfloor : ⌊means.length * fraction⌋ ≤ 0 :=
          Int.floor_nonpos (mul_nonpos_of_nonneg_of_nonpos (Nat.cast_nonneg _) hfraction)
        rw [Int.toNat_of_nonpos hfloor,List.take_zero]
    rw [hempty]
  · refine (sortByKey_perm _ _).trans (List.Perm.of_eq ?_)
    show (sortByKey (rowKey means) (List.range means.length)).take _ = _
    have hmin := @List.take_eq_take_min _ (sortByKey (rowKey means) (List.range means.length))
      ⌊means.length * fraction⌋.toNat
    rw [hmin,hlength,Nat.min_comm]

theorem mem_selectEscalationRows {i : ℕ} :
    i ∈ selectEscalationRows means fraction ↔ Escalated means fraction i := by
  have hpairwise := @pairwise_order K _ _ means means.length
  rw [selectEscalationRows_perm.mem_iff,mem_take_iff hpairwise,
    (sortByKey_perm _ _).mem_iff,List.mem_range,(sortByKey_perm _ _).countP_eq,Escalated]
  simp only [rowKey_lt]

theorem nodup_selectEscalationRows : (selectEscalationRows means fraction).Nodup := by
  refine selectEscalationRows_perm.nodup_iff.mpr ((List.take_sublist _ _).nodup ?_)
  exact (sortByKey_perm _ _).nodup_iff.mpr List.nodup_range

theorem countP_escalated (hfraction : fraction ≤ 1) :
    (List.range means.length).countP (fun i => decide (Escalated means fraction i)) =
      ⌊means.length * fraction⌋.toNat := by
  have hfloor : ⌊means.length * fraction⌋.toNat ≤ means.length := by
    have hle : means.length * fraction ≤ (means.length : ℤ) := by
      rw [Int.cast_natCast]
      exact mul_le_of_le_one_right (Nat.cast_nonneg _) hfraction
    have hint := (Int.floor_mono hle).trans_eq (Int.floor_intCast _)
    exact Int.toNat_le.mpr hint
  have hsame : ((List.range means.length).filter fun i => decide (Escalated means fraction i)).Perm
      (selectEscalationRows means fraction) := by
    refine (List.perm_ext_iff_of_nodup (List.nodup_range.filter _)
      nodup_selectEscalationRows).mpr fun i => ?_
    rw [mem_selectEscalationRows,List.mem_filter,decide_eq_true_iff,List.mem_range]
    exact and_iff_right_of_imp fun h => h.1
  rw [List.countP_eq_length_filter,hsame.length_eq,selectEscalationRows_perm.length_eq,
    List.length_take,(sortByKey_perm _ _).length_eq,List.length_range,Nat.min_eq_left hfloor]

end Escalation

section Panel

variable {c : Collector μ K} {data : Columns μ} {n seq : ℕ} {agentRefs keys : List String}

theorem panelGroupKeys_spec (aliases : List String) : (c.panelGroupKeys aliases).Nodup ∧
    ∀ key, key ∈ c.panelGroupKeys aliases ↔
      key ∈ aliases.map c.groupKey ∧ (c.teacherWorkerGroups.get? key).isSome := by
  induction aliases using List.reverseRecOn with
  | nil => exact ⟨List.nodup_nil,fun key => by simp [Collector.panelGroupKeys]⟩
  | append_singleton aliases last ih =>
    obtain ⟨hnodup,hmem⟩ := ih
    have hstep : c.panelGroupKeys (aliases ++ [last]) =
        if c.groupKey last ∉ c.panelGroupKeys aliases ∧
            (c.teacherWorkerGroups.get? (c.groupKey last)).isSome then
          c.panelGroupKeys aliases ++ [c.groupKey last] else c.panelGroupKeys aliases := by
      rw [Collector.panelGroupKeys,List.foldl_append]
      rfl
    rw [hstep,List.map_append,List.map_singleton]
    split_ifs with hnew
    · refine ⟨List.nodup_append.mpr ⟨hnodup,List.nodup_singleton _,fun a ha b hb heq => ?_⟩,
        fun key => ?_⟩
      · rw [List.mem_singleton.mp hb] at heq
        exact hnew.1 (heq ▸ ha)
      · rw [List.mem_append,List.mem_append,List.mem_singleton,hmem]
        constructor
        · rintro (⟨hkey,hbuilt⟩ | rfl)
          · exact ⟨.inl hkey,hbuilt⟩
          · exact ⟨.inr rfl,hnew.2⟩
        · rintro ⟨hkey | rfl,hbuilt⟩
          · exact .inl ⟨hkey,hbuilt⟩
          · exact .inr rfl
    · refine ⟨hnodup,fun key => ?_⟩
      rw [hmem,List.mem_append,List.mem_singleton]
      constructor
      · rintro ⟨hkey,hbuilt⟩
        exact ⟨.inl hkey,hbuilt⟩
      · rintro ⟨hkey | rfl,hbuilt⟩
        · exact ⟨hkey,hbuilt⟩
        · exact (hmem _).mp (not_not.mp fun hnot => hnew ⟨hnot,hbuilt⟩)

def Collector.rowOf (c : Collector μ K) (data : Columns μ) (key : String) (i : ℕ) : List K :=
  (c.scoreOf data key i).getD []

def Collector.baseRow (c : Collector μ K) (data : Columns μ) (keys : List String) (i : ℕ) : List K :=
  (c.routedScore data keys i).getD []

theorem length_rowOf (h : Routed c data n seq agentRefs keys) {key : String}
    (hkey : (c.teacherWorkerGroups.get? key).isSome) {i : ℕ} (hi : i < n) :
    (c.rowOf data key i).length = seq := by
  obtain ⟨row,hrow,hlen⟩ := scoreOf_spec h hkey hi
  rw [Collector.rowOf,hrow,Option.getD_some,hlen]

theorem length_baseRow (h : Routed c data n seq agentRefs keys) {i : ℕ} (hi : i < n) :
    (c.baseRow data keys i).length = seq := by
  obtain ⟨row,hrow,hlen⟩ := routedScore_spec h hi
  rw [Collector.baseRow,hrow,Option.getD_some,hlen]

theorem gather_baseScores (h : Routed c data n seq agentRefs keys) {idx : List ℕ}
    (hidx : Within idx n) : gather (c.baseScores data keys) idx = idx.map (c.baseRow data keys) := by
  rw [gather_eq_map _ [] (by rwa [(baseScores_spec h).1])]
  refine List.map_congr_left fun i hi => ?_
  rw [List.getD_eq_getElem?_getD,(baseScores_spec h).2,if_pos (hidx i hi)]
  rfl

theorem scoreGroup_rows (h : Routed c data n seq agentRefs keys) {key : String}
    (hkey : (c.teacherWorkerGroups.get? key).isSome) {idx : List ℕ} (hidx : Within idx n) :
    c.scoreGroup data key idx = .ok (idx.map (c.rowOf data key)) := by
  obtain ⟨group,hgroup⟩ := Option.isSome_iff_exists.mp hkey
  rw [scoreGroup_eq h hgroup hidx,
    gather_eq_map _ [] (by rwa [length_rowScores h.aligned])]
  refine congrArg Except.ok (List.map_congr_left fun i _ => ?_)
  rw [List.getD_eq_getElem?_getD,getElem?_rowScores_eq h hgroup]
  rfl

theorem getElem?_scatter_map {β : Type} {init : List β} {idx : List ℕ} (hnodup : idx.Nodup)
    (hwithin : Within idx init.length) (f : ℕ → β) (i : ℕ) :
    (scatter init idx (idx.map f))[i]? = if i ∈ idx then some (f i) else init[i]? := by
  induction idx generalizing init with
  | nil => rfl
  | cons k idx ih =>
    obtain ⟨hk,hnd⟩ := List.nodup_cons.mp hnodup
    have hbound := hwithin k List.mem_cons_self
    rw [List.map_cons,scatter_cons,ih hnd fun j hj => by
      rw [List.length_set]
      exact hwithin j (List.mem_cons_of_mem k hj)]
    by_cases hi : i = k
    · subst hi
      rw [if_neg hk,if_pos List.mem_cons_self,List.getElem?_set_self hbound]
    · rw [List.getElem?_set_ne (Ne.symm hi),if_congr (List.mem_cons.trans (or_iff_right hi)) rfl rfl]

variable [Field K] (exp log : K → K)

theorem length_means (h : Routed c data n seq agentRefs keys) :
    (meanValidLogprob (c.baseScores data keys) data.inputLengths seq).length = n := by
  unfold meanValidLogprob
  cases hlengths : data.inputLengths with
  | none => exact (List.length_map _).trans (baseScores_spec h).1
  | some lengths =>
    have hlen := h.aligned.lengths lengths hlengths
    dsimp only
    rw [List.length_zipWith,(baseScores_spec h).1,hlen,Nat.min_self]

theorem combinePanelLogprobs_eq {idx : List ℕ} {members : List (ℕ → List K)} {first : ℕ → List K}
    (hmembers : members ≠ []) (hfirst : ∀ i ∈ idx, (first i).length = seq)
    (hlen : ∀ member ∈ members, ∀ i ∈ idx, (member i).length = seq) (combine : CombineMode) :
    combinePanelLogprobs exp log (idx.map first :: members.map fun member => idx.map member) combine =
      .ok (idx.map fun i =>
        combineRow exp log combine seq (first i :: members.map fun member => member i)) := by
  cases members with
  | nil => exact absurd rfl hmembers
  | cons member members =>
    have hshapes : ((member :: members).map fun member => idx.map member).all (fun rows =>
        rows.map List.length = (idx.map first).map List.length) = true := by
      refine List.all_eq_true.mpr fun rows hrows => decide_eq_true ?_
      obtain ⟨source,hsource,rfl⟩ := List.mem_map.mp hrows
      rw [List.map_map,List.map_map]
      exact List.map_congr_left fun i hi => (hlen source hsource i hi).trans (hfirst i hi).symm
    have hrows : (idx.map first).zipIdx.map (fun row => combineRow exp log combine row.1.length
        ((idx.map first :: (member :: members).map fun member => idx.map member).map
          (·.getD row.2 []))) = idx.map fun i =>
            combineRow exp log combine seq (first i :: (member :: members).map fun member => member i) := by
      refine List.ext_getElem (by simp) fun p hp hp' => ?_
      rw [List.length_map] at hp'
      have hat : ∀ rows : ℕ → List K, (idx.map rows).getD p [] = rows idx[p] := fun rows => by
        rw [List.getD_eq_getElem _ _ (by rwa [List.length_map]),List.getElem_map]
      simp only [List.getElem_map,List.getElem_zipIdx,Nat.zero_add,List.map_cons,List.map_map]
      rw [hfirst _ (List.getElem_mem hp'),hat]
      congr 2
      refine congrArg₂ List.cons (hat member) (List.map_congr_left fun source _ => hat source)
    exact (if_pos hshapes).trans (congrArg Except.ok hrows)

variable [LinearOrder K]

theorem burst_rows (h : Routed c data n seq agentRefs keys) {panel : TeacherPanel}
    (hpanel : c.teacherPanel = some panel) (henabled : panel.enabled = true)
    {panelCompleted : List String}
    (hcompleted : panelCompleted.Perm (c.panelGroupKeys panel.panelAliases)) :
    ∃ out, c.burstTeacherPanel exp log data seq (c.baseScores data keys) panelCompleted = .ok out ∧
      out.length = n ∧ ∀ i < n, out[i]? =
        if Escalated (meanValidLogprob (c.baseScores data keys) data.inputLengths seq)
            panel.escalationFraction i ∧ panelCompleted ≠ [] then
          some (combineRow exp log panel.combine seq
            (c.baseRow data keys i :: panelCompleted.map fun key => c.rowOf data key i))
        else c.routedScore data keys i := by
  obtain ⟨hlength,hbase⟩ := baseScores_spec h
  obtain ⟨hnodup,hmem⟩ := @panelGroupKeys_spec _ _ c panel.panelAliases
  obtain ⟨escalated,hescalated⟩ : ∃ escalated, escalated = selectEscalationRows
    (meanValidLogprob (c.baseScores data keys) data.inputLengths seq) panel.escalationFraction :=
      ⟨_,rfl⟩
  have hiff : ∀ i, i ∈ escalated ↔ Escalated
      (meanValidLogprob (c.baseScores data keys) data.inputLengths seq)
        panel.escalationFraction i := fun i => by rw [hescalated,mem_selectEscalationRows]
  have hunchanged : (escalated = [] ∨ panelCompleted = []) → ∀ i < n,
      (c.baseScores data keys)[i]? = if Escalated
          (meanValidLogprob (c.baseScores data keys) data.inputLengths seq)
            panel.escalationFraction i ∧ panelCompleted ≠ [] then
          some (combineRow exp log panel.combine seq
            (c.baseRow data keys i :: panelCompleted.map fun key => c.rowOf data key i))
        else c.routedScore data keys i := by
    intro hnone i hi
    rw [hbase,if_pos hi,if_neg]
    rintro ⟨hrow,hpanelCompleted⟩
    rcases hnone with hnil | hnil
    · rw [← hiff,hnil] at hrow
      cases hrow
    · exact hpanelCompleted hnil
  unfold Collector.burstTeacherPanel
  rw [hpanel]
  dsimp only
  rw [henabled,if_neg (fun hnot => hnot rfl),← hescalated]
  by_cases hnil : escalated = []
  · rw [if_pos hnil]
    exact ⟨_,rfl,hlength,hunchanged (.inl hnil)⟩
  · rw [if_neg hnil]
    by_cases hkeys : c.panelGroupKeys panel.panelAliases = []
    · rw [if_pos hkeys]
      rw [hkeys] at hcompleted
      exact ⟨_,rfl,hlength,hunchanged (.inr (List.perm_nil.mp hcompleted))⟩
    · rw [if_neg hkeys]
      have hcompletedNil : panelCompleted ≠ [] := fun heq => hkeys (by
        rw [heq] at hcompleted
        exact List.perm_nil.mp hcompleted.symm)
      have hwithin : Within escalated n := by
        intro i hi
        have hlt := ((hiff i).mp hi).1
        rwa [length_means h] at hlt
      have hbuilt : ∀ key ∈ panelCompleted, (c.teacherWorkerGroups.get? key).isSome := fun key hkey =>
        ((hmem key).mp (hcompleted.mem_iff.mp hkey)).2
      have hpanelRows : (panelCompleted.mapM fun key => c.scoreGroup data key escalated) =
          .ok ((panelCompleted.map fun key => c.rowOf data key).map fun member =>
            escalated.map member) := by
        rw [List.map_map]
        exact Fallible.mapM_ok fun key hkey => scoreGroup_rows h (hbuilt key hkey) hwithin
      have hcombined := @combinePanelLogprobs_eq _ seq _ exp log escalated
        (panelCompleted.map fun key => c.rowOf data key) (c.baseRow data keys)
        (by simpa using hcompletedNil) (fun i hi => length_baseRow h (hwithin i hi))
        (fun member hmember i hi => by
          obtain ⟨key,hkey,rfl⟩ := List.mem_map.mp hmember
          exact length_rowOf h (hbuilt key hkey) (hwithin i hi)) panel.combine
      have hescalatedNodup : escalated.Nodup := hescalated ▸ nodup_selectEscalationRows
      have hbaseWithin : Within escalated (c.baseScores data keys).length := by rwa [hlength]
      rw [gather_baseScores h hwithin,hpanelRows]
      show ∃ out, (combinePanelLogprobs exp log _ _ >>= fun combined =>
        Collector.assignRows _ _ combined) = .ok out ∧ _
      rw [hcombined]
      have hassign := @assignRows_eq _ seq (c.baseScores data keys)
        (escalated.map fun i => combineRow exp log panel.combine seq (c.baseRow data keys i ::
          (panelCompleted.map fun key => c.rowOf data key).map fun member => member i)) escalated
        (fun row hrow => length_of_mem_baseScores h hrow) hbaseWithin
        (fun row hrow => by
          obtain ⟨i,_,rfl⟩ := List.mem_map.mp hrow
          rw [combineRow,List.length_map,List.length_range]) (List.length_map _)
      refine ⟨_,hassign,by rw [length_scatter,hlength],fun i hi => ?_⟩
      rw [getElem?_scatter_map hescalatedNodup hbaseWithin,hbase,if_pos hi]
      refine if_congr ?_ ?_ rfl
      · rw [hiff,and_iff_left hcompletedNil]
      · rw [List.map_map]
        rfl

end Panel

section Means

variable [Field K]

def validTokens (inputLengths : Option (List ℕ)) (seq i : ℕ) : ℕ :=
  match inputLengths with
  | none => seq
  | some lengths => min (lengths.getD i 0) seq

def validMean (inputLengths : Option (List ℕ)) (seq : ℕ) (row : ℕ → List K) (i : ℕ) : K :=
  (∑ t ∈ Finset.range (validTokens inputLengths seq i), (row i).getD t 0) /
    (validTokens inputLengths seq i : ℕ)

theorem sum_take (row : List K) (m : ℕ) :
    (row.take m).sum = ∑ t ∈ Finset.range m, row.getD t 0 := by
  induction m with
  | zero => simp
  | succ m ih =>
    rw [List.take_add_one,List.sum_append,ih,Finset.sum_range_succ,List.getD_eq_getElem?_getD]
    cases row[m]? <;> simp

variable {c : Collector μ K} {data : Columns μ} {n seq : ℕ} {agentRefs keys : List String}

theorem meanValidLogprob_eq (h : Routed c data n seq agentRefs keys) :
    meanValidLogprob (c.baseScores data keys) data.inputLengths seq =
      (List.range n).map (validMean data.inputLengths seq (c.baseRow data keys)) := by
  have hbase : c.baseScores data keys = (List.range n).map (c.baseRow data keys) := by
    have hwithin : Within (List.range n) n := fun i hi => List.mem_range.mp hi
    have hall := @gather_range _ (c.baseScores data keys)
    rw [(baseScores_spec h).1,gather_baseScores h hwithin] at hall
    exact hall.symm
  have hlen : ∀ i < n, (c.baseRow data keys i).length = seq := fun i hi => length_baseRow h hi
  rw [hbase]
  unfold meanValidLogprob
  cases hlengths : data.inputLengths with
  | none =>
    dsimp only
    rw [List.map_map]
    refine List.map_congr_left fun i hi => ?_
    show (if seq = 0 then 0 else (c.baseRow data keys i).sum / seq) = _
    have hwhole := sum_take (c.baseRow data keys i) seq
    rw [List.take_of_length_le (Nat.le_of_eq (hlen i (List.mem_range.mp hi)))] at hwhole
    rw [validMean,validTokens,← hwhole]
    split_ifs with hzero
    · rw [hzero,Nat.cast_zero,div_zero]
    · rfl
  | some lengths =>
    have hcount := h.aligned.lengths lengths hlengths
    dsimp only
    refine List.ext_getElem (by simp [hcount]) fun i hi hi' => ?_
    rw [List.length_map,List.length_range] at hi'
    have hat : lengths.getD i 0 = lengths[i] := List.getD_eq_getElem _ _ _
    simp only [List.getElem_zipWith,List.getElem_map,List.getElem_range]
    rw [validMean,validTokens,hat,sum_take]
    rcases Nat.eq_zero_or_pos (min lengths[i] seq) with hzero | hpos
    · rw [hzero]
      simp
    · rw [Nat.max_eq_left hpos]

end Means

noncomputable def logMixture (teachers : Finset String) (logprob : String → ℝ) : ℝ :=
  Real.log ((∑ key ∈ teachers, Real.exp (logprob key)) / teachers.card)

theorem sum_exp_pos {teachers : Finset String} (h : teachers.Nonempty) (logprob : String → ℝ) :
    0 < ∑ key ∈ teachers, Real.exp (logprob key) :=
  Finset.sum_pos (fun _ _ => Real.exp_pos _) h

theorem combineAt_eq_iff {routed : String} {panel : List String} (hnodup : panel.Nodup)
    (logprob : String → ℝ) :
    combineAt Real.exp Real.log .mixture (logprob routed :: panel.map logprob) =
        logMixture (insert routed panel.toFinset) logprob ↔
      (routed ∈ panel → panel.length * Real.exp (logprob routed) =
        ∑ key ∈ panel.toFinset, Real.exp (logprob key)) := by
  obtain ⟨total,htotal⟩ : ∃ total, total = ∑ key ∈ panel.toFinset, Real.exp (logprob key) := ⟨_,rfl⟩
  have hsum : ((logprob routed :: panel.map logprob).map Real.exp).sum =
      Real.exp (logprob routed) + total := by
    rw [List.map_cons,List.sum_cons,List.map_map,htotal,List.sum_toFinset _ hnodup]
    rfl
  have hcard : panel.toFinset.card = panel.length := List.toFinset_card_of_nodup hnodup
  have htotalNonneg : 0 ≤ total := htotal ▸ Finset.sum_nonneg fun _ _ => (Real.exp_pos _).le
  have hpos : 0 < Real.exp (logprob routed) + total :=
    add_pos_of_pos_of_nonneg (Real.exp_pos _) htotalNonneg
  have hcount : (0 : ℝ) < panel.length + 1 := Nat.cast_add_one_pos _
  have hcode : combineAt Real.exp Real.log .mixture (logprob routed :: panel.map logprob) =
      Real.log ((Real.exp (logprob routed) + total) / (panel.length + 1)) := by
    show Real.log _ - Real.log ((logprob routed :: panel.map logprob).length : ℕ) = _
    rw [hsum,List.length_cons,List.length_map,Nat.cast_succ,Real.log_div hpos.ne' hcount.ne']
  rw [hcode,logMixture,← htotal]
  by_cases hmem : routed ∈ panel
  · have hlength : (0 : ℝ) < panel.length := Nat.cast_pos.mpr (List.length_pos_of_mem hmem)
    have htotalPos : 0 < total :=
      htotal ▸ sum_exp_pos ⟨routed,List.mem_toFinset.mpr hmem⟩ logprob
    rw [Finset.insert_eq_of_mem (List.mem_toFinset.mpr hmem),← htotal,hcard,
      Real.log_injOn_pos.eq_iff (div_pos hpos hcount) (div_pos htotalPos hlength),
      div_eq_div_iff hcount.ne' hlength.ne']
    constructor
    · intro heq _
      linarith
    · intro hmean
      have heq := hmean hmem
      linarith
  · have hnot : routed ∉ panel.toFinset := fun hin => hmem (List.mem_toFinset.mp hin)
    rw [Finset.sum_insert hnot,Finset.card_insert_of_notMem hnot,← htotal,hcard,Nat.cast_succ]
    exact iff_of_true rfl fun hin => absurd hin hmem

section WithPanel

def Collector.withPanel (c : Collector μ K) (teacherPanel : Option TeacherPanel) : Collector μ K :=
  { c with teacherPanel := teacherPanel }

variable {c : Collector μ ℝ} {data : Columns μ} {n seq : ℕ} {agentRefs keys : List String}
variable {completed panelCompleted : List String} {panel : TeacherPanel}

theorem Routed.withPanel (h : Routed c data n seq agentRefs keys) (p : Option TeacherPanel) :
    Routed (c.withPanel p) data n seq agentRefs keys :=
  ⟨h.aligned,h.ids_length,h.agentRefs_length,h.resolved,h.built⟩

/-- Without a panel row `i` is what its routed teacher gives for it. -/
def RowsAreRouted (c : Collector μ ℝ) (data : Columns μ) (n seq : ℕ)
    (agentRefs keys completed panelCompleted : List String) : Prop :=
  ∃ out, (c.withPanel none).computeTeacherLogprobs Real.exp Real.log data seq agentRefs completed
      panelCompleted = .ok out ∧
    out.length = n ∧ ∀ i < n, out[i]? = c.routedScore data keys i

/-- The row is among those of the lowest means over their valid tokens. -/
def LeastLikely (c : Collector μ ℝ) (data : Columns μ) (n seq : ℕ) (keys : List String)
    (panel : TeacherPanel) (i : ℕ) : Prop :=
  Escalated ((List.range n).map (validMean data.inputLengths seq (c.baseRow data keys)))
    panel.escalationFraction i

noncomputable instance (c : Collector μ ℝ) (data : Columns μ) (n seq : ℕ) (keys : List String)
    (panel : TeacherPanel) (i : ℕ) : Decidable (LeastLikely c data n seq keys panel i) :=
  inferInstanceAs (Decidable (Escalated _ _ _))

/-- With a panel the least likely rows, as many as the fraction of all rows, are the uniform mixture of
the distinct teachers that scored them, and the others are unchanged. -/
def PanelIsMixture (c : Collector μ ℝ) (data : Columns μ) (n seq : ℕ)
    (agentRefs keys completed panelCompleted : List String) (panel : TeacherPanel) : Prop :=
  ∃ out, (c.withPanel (some panel)).computeTeacherLogprobs Real.exp Real.log data seq agentRefs
      completed panelCompleted = .ok out ∧
    out.length = n ∧
    (List.range n).countP (fun i => decide (LeastLikely c data n seq keys panel i)) =
      ⌊n * panel.escalationFraction⌋.toNat ∧
    ∀ i < n, out[i]? =
      if LeastLikely c data n seq keys panel i then
        some ((List.range seq).map fun t =>
          logMixture (insert (keys.getD i "") (c.panelGroupKeys panel.panelAliases).toFinset)
            fun key => (c.rowOf data key i).getD t 0)
      else c.routedScore data keys i

theorem compute_eq (h : Routed c data n seq agentRefs keys)
    (hcompleted : completed.Perm (group keys).keys) (hn : n ≠ 0) :
    c.computeTeacherLogprobs Real.exp Real.log data seq agentRefs completed panelCompleted =
      c.burstTeacherPanel Real.exp Real.log data seq (c.baseScores data keys) panelCompleted := by
  obtain ⟨aliases,hresolved,hkeys⟩ := h.resolved
  have hlength := h.keys_length
  have hgroups : (group keys).keys ≠ [] := by
    intro hnil
    cases hlist : keys with
    | nil => exact hn (by rw [← hlength,hlist]; rfl)
    | cons key more =>
      have hmem : key ∈ (group keys).keys :=
        mem_keys_group.mpr (by rw [hlist]; exact List.mem_cons_self)
      rw [hnil] at hmem
      cases hmem
  unfold Collector.computeTeacherLogprobs
  rw [hresolved]
  show (if (group (aliases.map c.groupKey)).keys = [] then _ else _) = _
  rw [← hkeys,if_neg hgroups]
  exact congrArg (· >>= fun scored =>
    c.burstTeacherPanel Real.exp Real.log data seq scored panelCompleted) (scored_eq h hcompleted)

theorem compute_nil (h : Routed c data 0 seq agentRefs keys) :
    c.computeTeacherLogprobs Real.exp Real.log data seq agentRefs completed panelCompleted =
      .ok [] := by
  obtain ⟨aliases,hresolved,hkeys⟩ := h.resolved
  obtain rfl : keys = [] := List.eq_nil_of_length_eq_zero h.keys_length
  unfold Collector.computeTeacherLogprobs
  rw [hresolved]
  show (if (group (aliases.map c.groupKey)).keys = [] then pure _ else _) = _
  rw [← hkeys,h.aligned.ids]
  rfl

theorem rowsAreRouted (h : Routed c data n seq agentRefs keys)
    (hcompleted : completed.Perm (group keys).keys) :
    RowsAreRouted c data n seq agentRefs keys completed panelCompleted := by
  have hrouted := h.withPanel none
  rcases Nat.eq_zero_or_pos n with rfl | hpos
  · exact ⟨[],compute_nil hrouted,rfl,fun i hi => absurd hi (Nat.not_lt_zero i)⟩
  · obtain ⟨hlength,hbase⟩ := baseScores_spec h
    exact ⟨_,compute_eq hrouted hcompleted hpos.ne',hlength,fun i hi => (hbase i).trans (if_pos hi)⟩

theorem baseRow_eq (h : Routed c data n seq agentRefs keys) {i : ℕ} (hi : i < n) :
    c.baseRow data keys i = c.rowOf data (keys.getD i "") i := by
  have hi' : i < keys.length := by rwa [h.keys_length]
  rw [Collector.baseRow,Collector.routedScore,List.getElem?_eq_getElem hi',Option.bind_some,
    List.getD_eq_getElem _ _ hi']
  rfl

theorem combineRow_single {row : List ℝ} (hlen : row.length = seq) :
    combineRow Real.exp Real.log .mixture seq [row] = row := by
  refine List.ext_getElem (by simp [combineRow,hlen]) fun t ht ht' => ?_
  simp [combineRow,combineAt,logsumexp,List.getElem?_eq_getElem ht']

theorem panelIsMixture_iff (h : Routed c data n seq agentRefs keys)
    (hcompleted : completed.Perm (group keys).keys) (henabled : panel.enabled = true)
    (hmixture : panel.combine = .mixture) (hfraction : panel.escalationFraction ≤ 1)
    (hpanel : panelCompleted.Perm (c.panelGroupKeys panel.panelAliases)) :
    PanelIsMixture c data n seq agentRefs keys completed panelCompleted panel ↔
      ∀ i < n, LeastLikely c data n seq keys panel i →
        keys.getD i "" ∈ c.panelGroupKeys panel.panelAliases → ∀ t < seq,
          (c.panelGroupKeys panel.panelAliases).length *
              Real.exp ((c.rowOf data (keys.getD i "") i).getD t 0) =
            ∑ key ∈ (c.panelGroupKeys panel.panelAliases).toFinset,
              Real.exp ((c.rowOf data key i).getD t 0) := by
  rcases Nat.eq_zero_or_pos n with rfl | hpos
  · refine iff_of_true ⟨[],compute_nil (h.withPanel (some panel)),rfl,by simp,fun i hi => ?_⟩
      fun i hi => ?_
    · exact absurd hi (Nat.not_lt_zero i)
    · exact absurd hi (Nat.not_lt_zero i)
  obtain ⟨out,hburst,hlength,hout⟩ := burst_rows Real.exp Real.log (h.withPanel (some panel)) rfl henabled
    hpanel
  have hcompute := (compute_eq (h.withPanel (some panel)) hcompleted hpos.ne').trans hburst
  have hnodup : panelCompleted.Nodup := hpanel.nodup_iff.mpr (panelGroupKeys_spec _).1
  have hset : (c.panelGroupKeys panel.panelAliases).toFinset = panelCompleted.toFinset :=
    List.toFinset_eq_of_perm _ _ hpanel.symm
  have hmeans := meanValidLogprob_eq h
  have hrow : ∀ i < n, LeastLikely c data n seq keys panel i → out[i]? =
      some ((List.range seq).map fun t => combineAt Real.exp Real.log .mixture
        ((c.rowOf data (keys.getD i "") i).getD t 0 ::
          panelCompleted.map fun key => (c.rowOf data key i).getD t 0)) := by
    intro i hi hleast
    have hbase := baseRow_eq h hi
    have hescalated : Escalated (meanValidLogprob (c.baseScores data keys) data.inputLengths seq)
        panel.escalationFraction i := by
      rw [hmeans]
      exact hleast
    by_cases hnil : panelCompleted = []
    · obtain ⟨row,hrow,hrowLength⟩ := routedScore_spec h hi
      have hsame : c.rowOf data (keys.getD i "") i = row := by
        rw [← hbase,Collector.baseRow,hrow,Option.getD_some]
      rw [hnil,hsame]
      have hsingle := combineRow_single hrowLength
      refine (hout i hi).trans ((if_neg fun hboth => hboth.2 hnil).trans (hrow.trans ?_))
      exact congrArg some hsingle.symm
    · refine (hout i hi).trans ((if_pos ⟨hescalated,hnil⟩).trans ?_)
      rw [hmixture]
      show some ((List.range seq).map fun t => combineAt Real.exp Real.log .mixture
        ((c.baseRow data keys i :: panelCompleted.map fun key => c.rowOf data key i).map
          (·.getD t 0))) = _
      refine congrArg some (List.map_congr_left fun t _ => ?_)
      rw [List.map_cons,List.map_map,hbase]
      rfl
  have hother : ∀ i < n, ¬ LeastLikely c data n seq keys panel i →
      out[i]? = c.routedScore data keys i := by
    intro i hi hnot
    refine (hout i hi).trans (if_neg fun hin => hnot ?_)
    rw [LeastLikely,← hmeans]
    exact hin.1
  have hcount : (List.range n).countP (fun i => decide (LeastLikely c data n seq keys panel i)) =
      ⌊n * panel.escalationFraction⌋.toNat := by
    have hall := @countP_escalated _ _ _
      ((List.range n).map (validMean data.inputLengths seq (c.baseRow data keys))) _ hfraction
    rw [List.length_map,List.length_range] at hall
    exact hall
  constructor
  · rintro ⟨out',hcompute',-,-,hspec⟩ i hi hleast hmem t ht
    obtain rfl := Except.ok.inj (hcompute.symm.trans hcompute')
    have heq := (hrow i hi hleast).symm.trans ((hspec i hi).trans (if_pos hleast))
    have hat := List.map_inj_left.mp (Option.some.inj heq) t (List.mem_range.mpr ht)
    rw [hset] at hat
    have hmean := (combineAt_eq_iff hnodup fun key => (c.rowOf data key i).getD t 0).mp hat
      (hpanel.mem_iff.mpr hmem)
    rw [hset,← hpanel.length_eq]
    exact hmean
  · intro hcond
    refine ⟨out,hcompute,hlength,hcount,fun i hi => ?_⟩
    split_ifs with hleast
    · rw [hrow i hi hleast,hset]
      refine congrArg some (List.map_congr_left fun t ht => ?_)
      refine (combineAt_eq_iff hnodup fun key => (c.rowOf data key i).getD t 0).mpr fun hmem => ?_
      have hmean := hcond i hi hleast (hpanel.mem_iff.mp hmem) t (List.mem_range.mp ht)
      rw [hset,← hpanel.length_eq] at hmean
      exact hmean
    · exact hother i hi hleast

/-- For every batch, routing, data-parallel size and order in which the groups finish: without a panel
row `i` is what its routed teacher gives for it, and with one the least likely rows are the mixture of
the distinct teachers just when each of them that was routed to a member of the panel has the mean
probability of the panel at every position. -/
theorem teacher_scores_exact_iff (h : Routed c data n seq agentRefs keys)
    (hcompleted : completed.Perm (group keys).keys) (henabled : panel.enabled = true)
    (hmixture : panel.combine = .mixture) (hfraction : panel.escalationFraction ≤ 1)
    (hpanel : panelCompleted.Perm (c.panelGroupKeys panel.panelAliases)) :
    RowsAreRouted c data n seq agentRefs keys completed panelCompleted ∧
        PanelIsMixture c data n seq agentRefs keys completed panelCompleted panel ↔
      ∀ i < n, LeastLikely c data n seq keys panel i →
        keys.getD i "" ∈ c.panelGroupKeys panel.panelAliases → ∀ t < seq,
          (c.panelGroupKeys panel.panelAliases).length *
              Real.exp ((c.rowOf data (keys.getD i "") i).getD t 0) =
            ∑ key ∈ (c.panelGroupKeys panel.panelAliases).toFinset,
              Real.exp ((c.rowOf data key i).getD t 0) :=
  (and_iff_right (rowsAreRouted h hcompleted)).trans
    (panelIsMixture_iff h hcompleted henabled hmixture hfraction hpanel)

def constantTeacher (logprob : ℝ) : Teacher Unit ℝ :=
  ⟨fun sample => List.replicate sample.tokenIds.length logprob,fun _ => List.length_replicate⟩

noncomputable def twoTeachers : Collector Unit ℝ where
  routing := ⟨(Dict.empty.set "a" "model").set "b" "other",none,true⟩
  teacherPanel := none
  teacherWorkerGroups := (Dict.empty.set "a" ⟨constantTeacher 0,2,Nat.two_pos⟩).set "b"
    ⟨constantTeacher (-1),1,Nat.one_pos⟩
  aliasToGroupAlias := (Dict.empty.set "a" "a").set "b" "b"

def oneRow : Columns Unit := ⟨[[7]],some [1],[]⟩

theorem routed_oneRow : Routed twoTeachers oneRow 1 1 ["a"] ["a"] := by
  refine ⟨⟨rfl,fun lengths hlengths => ?_,fun column hcolumn => ?_⟩,fun ids hids => ?_,rfl,
    ⟨["a"],?_,?_⟩,fun key hkey => ?_⟩
  · rw [← Option.some.inj hlengths]
    rfl
  · cases hcolumn
  · rw [List.mem_singleton.mp hids]
    rfl
  · decide
  · rfl
  · rw [List.mem_singleton.mp hkey]
    rfl

theorem leastLikely_oneRow {panel : TeacherPanel} (h : panel.escalationFraction = 1) :
    LeastLikely twoTeachers oneRow 1 1 ["a"] panel 0 := by
  rw [LeastLikely,h]
  refine ⟨Nat.one_pos,?_⟩
  simp

/-- The routed teacher is in the panel and counts twice. -/
theorem not_panelIsMixture : ¬ PanelIsMixture twoTeachers oneRow 1 1 ["a"] ["a"] ["a"] ["b","a"]
    ⟨true,["a","b"],1,.mixture⟩ := by
  intro h
  have hmean := (panelIsMixture_iff routed_oneRow (List.Perm.refl ["a"]) rfl rfl le_rfl
    (by decide)).mp h 0 Nat.one_pos (leastLikely_oneRow rfl) (by decide) 0 Nat.one_pos
  have hkeys : twoTeachers.panelGroupKeys ["a","b"] = ["a","b"] := by decide
  have hrowA : twoTeachers.rowOf oneRow "a" 0 = [0] := rfl
  have hrowB : twoTeachers.rowOf oneRow "b" 0 = [-1] := rfl
  rw [hkeys] at hmean
  have hequal : 2 = 1 + Real.exp (-1) := by simpa [hrowA,hrowB] using hmean
  have hlt : Real.exp (-1) < 1 := Real.exp_lt_one_iff.mpr (by norm_num)
  linarith

noncomputable def threeTeachers : Collector Unit ℝ where
  routing := ⟨((Dict.empty.set "a" "model").set "b" "other").set "c" "third",none,true⟩
  teacherPanel := none
  teacherWorkerGroups := twoTeachers.teacherWorkerGroups.set "c" ⟨constantTeacher (-2),1,Nat.one_pos⟩
  aliasToGroupAlias := twoTeachers.aliasToGroupAlias.set "c" "c"

def threeRows : Columns Unit := ⟨[[7,8],[9,3],[5,6]],some [2,1,2],[]⟩

theorem routed_threeRows : Routed threeTeachers threeRows 3 2 ["a","c","a"] ["a","c","a"] := by
  refine ⟨⟨rfl,fun lengths hlengths => ?_,fun column hcolumn => ?_⟩,by decide,rfl,
    ⟨["a","c","a"],by decide,rfl⟩,fun key hkey => ?_⟩
  · rw [← Option.some.inj hlengths]
    rfl
  · cases hcolumn
  · have hkey : key = "a" ∨ key = "c" := by simpa [or_comm] using hkey
    rcases hkey with rfl | rfl <;> rfl

/-- Rows of two routed teachers, none of which is in the panel. -/
theorem panelIsMixture_threeRows :
    RowsAreRouted threeTeachers threeRows 3 2 ["a","c","a"] ["a","c","a"] ["c","a"] ["b"] ∧
      PanelIsMixture threeTeachers threeRows 3 2 ["a","c","a"] ["a","c","a"] ["c","a"] ["b"]
        ⟨true,["b"],1 / 2,.mixture⟩ := by
  refine (teacher_scores_exact_iff routed_threeRows (by decide) rfl rfl (by norm_num)
    (by decide)).mpr fun i hi _ hmem => ?_
  have hapart : ∀ key ∈ ["a","c","a"], key ∉ threeTeachers.panelGroupKeys ["b"] := by decide
  refine absurd hmem (hapart _ ?_)
  rw [List.getD_eq_getElem _ _ hi]
  exact List.getElem_mem hi

end WithPanel

end Opd
end DockyardRL
