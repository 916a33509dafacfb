import DockyardRL.Grpo.RolloutGroups

/-! The order of the graded weights is the order of what the groups keep, and a group without
weight is given nothing beyond its floor before the others have all their rows. -/
namespace DockyardRL
namespace Grpo

open Gather Grouping SortByKey

variable {I K : Type*} [DecidableEq I] [Field K] [LinearOrder K]

namespace Spending

variable {available : List ℕ} {s : Spending} {i j : ℕ} {is : List ℕ}

theorem left_giveOne (s : Spending) (i j : ℕ) : (s.giveOne i).left j =
    if s.remainder = 0 then s.left j else if i = j then s.left j - 1 else s.left j := by
  rw [giveOne]
  by_cases hrem : s.remainder = 0
  · rw [if_pos hrem,if_pos hrem]
  · rw [if_neg hrem,if_neg hrem]
    exact left_give i 1 j

theorem left_offer (s : Spending) (i j : ℕ) : (s.offer i).left j =
    if i = j ∧ s.remainder ≠ 0 then s.left j - 1 else s.left j := by
  rw [offer]
  by_cases hi : s.left i = 0
  · rw [if_pos hi]
    by_cases hij : i = j
    · subst hij
      split_ifs <;> omega
    · rw [if_neg fun h => hij h.1]
  · rw [if_neg hi,left_giveOne]
    by_cases hrem : s.remainder = 0 <;> by_cases hij : i = j <;> simp [hrem,hij]

theorem remainder_offer (s : Spending) (i : ℕ) : (s.offer i).remainder =
    if s.left i = 0 then s.remainder else s.remainder - 1 := by
  rw [offer]
  by_cases hi : s.left i = 0
  · rw [if_pos hi,if_pos hi]
  · rw [if_neg hi,if_neg hi,giveOne]
    by_cases hrem : s.remainder = 0
    · rw [if_pos hrem,hrem]
    · rw [if_neg hrem]

/-- Nothing left to offer. -/
theorem left_offers_spent (h : s.remainder = 0) (is : List ℕ) (j : ℕ) :
    (is.foldl offer s).left j = s.left j := by
  induction is generalizing s with
  | nil => rfl
  | cons i is ih =>
    have hrem : (s.offer i).remainder = 0 := by
      rw [remainder_offer,h]
      split_ifs <;> rfl
    rw [List.foldl_cons,ih hrem,left_offer,if_neg fun hoffer => hoffer.2 h]

/-- A group that is not asked. -/
theorem left_offers_of_not_mem (h : j ∉ is) : (is.foldl offer s).left j = s.left j := by
  induction is generalizing s with
  | nil => rfl
  | cons i is ih =>
    obtain ⟨hne,hrest⟩ := not_or.mp fun hor => h (List.mem_cons.mpr hor)
    rw [List.foldl_cons,ih hrest,left_offer,if_neg fun hoffer => hne hoffer.1.symm]

theorem le_left_offers (h : is.Nodup) (j : ℕ) : s.left j - 1 ≤ (is.foldl offer s).left j := by
  induction is generalizing s with
  | nil => exact Nat.sub_le _ _
  | cons i is ih =>
    obtain ⟨hi,hnodup⟩ := List.nodup_cons.mp h
    by_cases hij : i = j
    · subst hij
      rw [List.foldl_cons,left_offers_of_not_mem hi,left_offer]
      split_ifs <;> omega
    · have hrest := ih (s := s.offer i) hnodup
      rwa [left_offer,if_neg fun hoffer => hij hoffer.1] at hrest

/-- Groups with room take a row each, as long as there are rows. -/
theorem remainder_offers (hnodup : is.Nodup) (hleft : ∀ i ∈ is, 0 < s.left i) :
    (is.foldl offer s).remainder = s.remainder - is.length := by
  induction is generalizing s with
  | nil => rfl
  | cons i is ih =>
    obtain ⟨hi,hnd⟩ := List.nodup_cons.mp hnodup
    have hrest : ∀ k ∈ is, 0 < (s.offer i).left k := by
      intro k hk
      have hne : i ≠ k := fun heq => hi (heq ▸ hk)
      rw [left_offer,if_neg fun hoffer => hne hoffer.1]
      exact hleft k (List.mem_cons_of_mem _ hk)
    rw [List.foldl_cons,ih hnd hrest,remainder_offer,if_neg (hleft i List.mem_cons_self).ne',
      List.length_cons]
    omega

/-- A group is full, or ahead of the other. -/
def Ahead (available : List ℕ) (i j : ℕ) (s : Spending) : Prop :=
  s.left i = 0 ∨ available[j]?.getD 0 + s.left i ≤ available[i]?.getD 0 + s.left j

theorem Ahead.offers {p q : List ℕ} (h : s.Ahead available i j) (hnodup : (p ++ i :: q).Nodup)
    (hj : j ∉ p) (hne : i ≠ j) : ((p ++ i :: q).foldl offer s).Ahead available i j := by
  obtain ⟨-,hcons,hdisjoint⟩ := List.nodup_append.mp hnodup
  obtain ⟨hiq,hq⟩ := List.nodup_cons.mp hcons
  have hip : i ∉ p := fun hmem => hdisjoint i hmem i List.mem_cons_self rfl
  rw [List.foldl_append,List.foldl_cons]
  set t := p.foldl offer s
  have hti : t.left i = s.left i := left_offers_of_not_mem hip
  have htj : t.left j = s.left j := left_offers_of_not_mem hj
  have hui : (q.foldl offer (t.offer i)).left i = (t.offer i).left i := left_offers_of_not_mem hiq
  have huj := le_left_offers (s := t.offer i) hq j
  rw [left_offer,if_neg fun hoffer => hne hoffer.1] at huj
  rw [Ahead,← hti,← htj] at h
  rw [Ahead,hui,left_offer]
  by_cases hrem : t.remainder = 0
  · have hspent : (t.offer i).remainder = 0 := by
      rw [remainder_offer,hrem]
      split_ifs <;> rfl
    rw [left_offers_spent hspent,left_offer,if_neg fun hoffer => hoffer.2 hrem,
      if_neg fun hoffer => hoffer.2 hrem]
    exact h
  · rw [if_pos ⟨rfl,hrem⟩]
    omega

end Spending

section Pass

open Spending

variable {available active : List ℕ} {s : Spending} {weights : List K} {i j : ℕ}

instance : Std.Total (shareLe (K := K)) where
  total t u := by
    unfold shareLe
    rcases lt_trichotomy t.2 u.2 with h | h | h
    · exact .inr (.inl h)
    · exact (le_total t.1 u.1).imp (fun hle => .inr ⟨h,hle⟩) fun hle => .inr ⟨h.symm,hle⟩
    · exact .inl (.inl h)

instance : IsTrans (ℕ × K) shareLe where
  trans t u v htu huv := by
    unfold shareLe at *
    rcases htu with htu | ⟨htu,htu'⟩ <;> rcases huv with huv | ⟨huv,huv'⟩
    · exact .inl (huv.trans htu)
    · exact .inl (huv ▸ htu)
    · exact .inl (htu ▸ huv)
    · exact .inr ⟨htu.trans huv,htu'.trans huv'⟩

variable [FloorSemiring K]

def shareOf (weights : List K) (active : List ℕ) (s : Spending) (i : ℕ) : K :=
  (s.remainder : K) * weightAt weights i / (active.map (weightAt weights)).sum

theorem left_giveShares (hnodup : active.Nodup) (share : ℕ → K) (s : Spending) :
    (∀ k, (giveShares s (active.map fun i => (i,share i))).1.left k =
      if k ∈ active then s.left k - ⌊share k⌋₊ else s.left k) ∧
      (giveShares s (active.map fun i => (i,share i))).2 =
        (active.map fun i => min ⌊share i⌋₊ (s.left i)).sum := by
  induction active using List.reverseRecOn with
  | nil => exact ⟨fun _ => rfl,rfl⟩
  | append_singleton is i ih =>
    obtain ⟨hnd,-,hdisjoint⟩ := List.nodup_append.mp hnodup
    have hi : i ∉ is := fun hmem => hdisjoint i hmem i (List.mem_singleton_self i) rfl
    obtain ⟨hleft,hgiven⟩ := ih hnd
    have hroom := hleft i
    rw [if_neg hi] at hroom
    rw [List.map_append,List.map_singleton,giveShares_append,hroom,hgiven,List.map_append,
      List.sum_append,List.map_singleton,List.sum_singleton]
    refine ⟨fun k => ?_,rfl⟩
    rw [left_give,hleft]
    by_cases hik : i = k
    · subst hik
      rw [if_pos rfl,if_neg hi,if_pos (by simp)]
      dsimp only
      omega
    · rw [if_neg hik]
      have hmem : k ∈ is ++ [i] ↔ k ∈ is := by simp [Ne.symm hik]
      rw [if_congr hmem rfl rfl]

/-- What a pass does: a round of single rows without weights, a round of single rows by shares
that are all below one row, or the whole rows of the shares. -/
theorem apportionPass_cases (weights : List K) (hnodup : active.Nodup)
    (hleft : ∀ i, i ∈ active ↔ 0 < s.left i) :
    ((active.map (weightAt weights)).sum ≤ 0 ∧
        apportionPass weights active s = active.foldl offer s) ∨
      (0 < (active.map (weightAt weights)).sum ∧
        (∀ i ∈ active, ⌊shareOf weights active s i⌋₊ = 0) ∧
        ∃ is : List ℕ, is.Perm active ∧ is.Pairwise (fun i j =>
          shareLe (i,shareOf weights active s i) (j,shareOf weights active s j)) ∧
          apportionPass weights active s = is.foldl offer s) ∨
      0 < (active.map (weightAt weights)).sum ∧
        (∃ i ∈ active, 0 < ⌊shareOf weights active s i⌋₊) ∧
        (∀ i, (apportionPass weights active s).left i =
          s.left i - ⌊shareOf weights active s i⌋₊) ∧
        (apportionPass weights active s).remainder = s.remainder -
          (active.map fun i => min ⌊shareOf weights active s i⌋₊ (s.left i)).sum := by
  have hroom : ∀ i ∈ active, 0 < s.left i := fun i hi => (hleft i).mp hi
  rw [apportionPass]
  by_cases htotal : (active.map (weightAt weights)).sum ≤ 0
  · rw [if_pos htotal,foldl_giveOne hnodup hroom]
    exact .inl ⟨htotal,rfl⟩
  refine .inr ?_
  rw [if_neg htotal]
  have hshares : (active.map fun i => (i,(s.remainder : K) * weightAt weights i /
      (active.map (weightAt weights)).sum)) =
      active.map fun i => (i,shareOf weights active s i) := rfl
  rw [hshares]
  set shares := active.map fun i => (i,shareOf weights active s i) with hdef
  obtain ⟨hgiven,hsum⟩ := left_giveShares hnodup (shareOf weights active s) s
  rw [← hdef] at hgiven hsum
  dsimp only
  by_cases hnone : (giveShares s shares).2 = 0
  · rw [if_pos hnone,giveShares_none hnone,hnone]
    rw [giveShares_none hnone] at hgiven
    refine .inl ⟨not_le.mp htotal,fun i hi => ?_,(shares.insertionSort shareLe).map Prod.fst,?_,?_,?_⟩
    · have hsame := hgiven i
      rw [if_pos hi] at hsame
      have hpos := hroom i hi
      omega
    · have hperm := (List.perm_insertionSort shareLe shares).map Prod.fst
      rwa [hdef,List.map_map,show Prod.fst ∘ (fun i => (i,shareOf weights active s i)) = id from rfl,
        List.map_id] at hperm
    · refine List.pairwise_map.mpr ((List.pairwise_insertionSort shareLe shares).imp_of_mem
        fun {t u} ht hu htu => ?_)
      obtain ⟨i,-,rfl⟩ := List.mem_map.mp ((List.perm_insertionSort shareLe shares).mem_iff.mp ht)
      obtain ⟨j,-,rfl⟩ := List.mem_map.mp ((List.perm_insertionSort shareLe shares).mem_iff.mp hu)
      exact htu
    · rw [List.foldl_map]
      rfl
  · rw [if_neg hnone]
    refine .inr ⟨not_le.mp htotal,?_,fun i => ?_,?_⟩
    · by_contra hzero
      rw [hsum] at hnone
      refine hnone (List.sum_eq_zero fun x hx => ?_)
      obtain ⟨i,hi,rfl⟩ := List.mem_map.mp hx
      have hfloor : ⌊shareOf weights active s i⌋₊ = 0 :=
        Nat.eq_zero_of_not_pos fun hpos => hzero ⟨i,hi,hpos⟩
      rw [hfloor,Nat.zero_min]
    · show (giveShares s shares).1.left i = _
      rw [hgiven]
      by_cases hi : i ∈ active
      · rw [if_pos hi]
      · have hzero : s.left i = 0 := Nat.eq_zero_of_not_pos fun hpos => hi ((hleft i).mpr hpos)
        rw [if_neg hi,hzero,Nat.zero_sub]
    · rw [← hsum]

variable [IsStrictOrderedRing K]

omit [FloorSemiring K] in
theorem shareOf_lt (hrem : 0 < s.remainder) (htotal : 0 < (active.map (weightAt weights)).sum)
    (h : weightAt weights j < weightAt weights i) :
    shareOf weights active s j < shareOf weights active s i :=
  div_lt_div_of_pos_right (mul_lt_mul_of_pos_left h (Nat.cast_pos.mpr hrem)) htotal

omit [Field K] [FloorSemiring K] [IsStrictOrderedRing K] in
theorem not_shareLe {t u : ℕ × K} (h : u.2 < t.2) : ¬shareLe u t := by
  rintro (hlt | ⟨heq,-⟩)
  · exact lt_asymm h hlt
  · exact h.ne heq

omit [FloorSemiring K] in
theorem total_pos (hweights : ∀ i, 0 ≤ weightAt weights i) {i : ℕ} (hi : i ∈ active)
    (hpos : 0 < weightAt weights i) : 0 < (active.map (weightAt weights)).sum := by
  have hnonneg : ∀ w ∈ active.map (weightAt weights), 0 ≤ w := by
    intro w hw
    obtain ⟨k,-,rfl⟩ := List.mem_map.mp hw
    exact hweights k
  exact hpos.trans_le (List.single_le_sum hnonneg _ (List.mem_map_of_mem hi))

omit [FloorSemiring K] in
theorem left_eq_zero_of_total (hweights : ∀ i, 0 ≤ weightAt weights i)
    (hleft : ∀ i, i ∈ active ↔ 0 < s.left i) (htotal : (active.map (weightAt weights)).sum ≤ 0)
    (hi : 0 < weightAt weights i) : s.left i = 0 := by
  refine Nat.eq_zero_of_not_pos fun hpos => ?_
  exact not_lt.mpr htotal (total_pos hweights ((hleft i).mpr hpos) hi)

theorem ahead_pass {headroom : List ℕ} (hweights : ∀ i, 0 ≤ weightAt weights i)
    (hlt : weightAt weights j < weightAt weights i) (h : s.Fits headroom) (hnodup : active.Nodup)
    (hleft : ∀ i, i ∈ active ↔ 0 < s.left i) (hrem : 0 < s.remainder)
    (hs : s.Ahead available i j) : (apportionPass weights active s).Ahead available i j := by
  obtain ⟨htotal,hpass⟩ | ⟨htotal,-,is,hperm,hsorted,hpass⟩ | ⟨htotal,-,hpass,-⟩ :=
    apportionPass_cases weights hnodup hleft
  · have hzero := left_eq_zero_of_total hweights hleft htotal ((hweights j).trans_lt hlt)
    have hle := (offers_spend active h).left_le i
    rw [hpass]
    exact .inl (by omega)
  · rw [hpass]
    by_cases hi : i ∈ active
    · obtain ⟨p,q,hsplit,hj⟩ := exists_split_of_pairwise hsorted (hperm.mem_iff.mpr hi)
        (not_shareLe (shareOf_lt hrem htotal hlt))
      have hne : i ≠ j := by
        rintro rfl
        exact lt_irrefl _ hlt
      have hnd := hperm.nodup_iff.mpr hnodup
      rw [hsplit] at hnd ⊢
      exact hs.offers hnd hj hne
    · have hzero : s.left i = 0 := Nat.eq_zero_of_not_pos fun hpos => hi ((hleft i).mpr hpos)
      have hle := (offers_spend is h).left_le i
      exact .inl (by omega)
  · have hfloors := Nat.floor_mono (shareOf_lt hrem htotal hlt).le
    rw [Ahead] at hs ⊢
    rw [hpass,hpass]
    omega

/-- A group without weight has all its room, or the groups with weight have none. -/
def Starved (weights : List K) (i room : ℕ) (s : Spending) : Prop :=
  s.left i = room ∨ ∀ j, 0 < weightAt weights j → s.left j = 0

omit [LinearOrder K] [FloorSemiring K] [IsStrictOrderedRing K] in
theorem shareOf_eq_zero (hi : weightAt weights i = 0) : shareOf weights active s i = 0 := by
  rw [shareOf,hi,mul_zero,zero_div]

omit [FloorSemiring K] in
/-- Proportional shares make up the whole. -/
theorem sum_proportional {is : List ℕ} {w : ℕ → K} (h : 0 < (is.map w).sum) (r : K) :
    (is.map fun i => r * w i / (is.map w).sum).sum = r := by
  have hmap : (is.map fun i => r * w i / (is.map w).sum) =
      is.map fun i => w i * (r / (is.map w).sum) := List.map_congr_left fun i _ => by ring
  rw [hmap,List.sum_map_mul_right,mul_div_assoc',mul_comm,mul_div_assoc,div_self h.ne',mul_one]

omit [FloorSemiring K] in
theorem sum_shareOf (htotal : 0 < (active.map (weightAt weights)).sum) :
    (active.map (shareOf weights active s)).sum = s.remainder :=
  sum_proportional htotal (s.remainder : K)

theorem remainder_le_of_split (hweights : ∀ i, 0 ≤ weightAt weights i)
    (htotal : 0 < (active.map (weightAt weights)).sum)
    (hfloors : ∀ i ∈ active, ⌊shareOf weights active s i⌋₊ = 0)
    {p q : List ℕ} (hperm : (p ++ i :: q).Perm active)
    (hsorted : (p ++ i :: q).Pairwise fun i j =>
      shareLe (i,shareOf weights active s i) (j,shareOf weights active s j))
    (hi : weightAt weights i = 0) : s.remainder ≤ p.length := by
  have hnonneg : ∀ k, 0 ≤ shareOf weights active s k := fun k =>
    div_nonneg (mul_nonneg (Nat.cast_nonneg _) (hweights k)) htotal.le
  have hrest : (q.map (shareOf weights active s)).sum = 0 := by
    refine List.sum_eq_zero fun x hx => ?_
    obtain ⟨k,hk,rfl⟩ := List.mem_map.mp hx
    have hle := (List.pairwise_cons.mp (List.pairwise_append.mp hsorted).2.1).1 k hk
    rw [shareLe,shareOf_eq_zero hi] at hle
    obtain hlt | ⟨heq,-⟩ := hle
    · exact absurd hlt (not_lt.mpr (hnonneg k))
    · exact heq.symm
  have hfirst : (p.map (shareOf weights active s)).sum ≤ (p.map fun _ => (1 : K)).sum := by
    refine List.sum_le_sum fun k hk => ?_
    have hmem := hperm.mem_iff.mp (List.mem_append_left _ hk)
    exact (Nat.floor_eq_zero.mp (hfloors k hmem)).le
  have hsum := sum_shareOf (s := s) htotal
  rw [← (hperm.map _).sum_eq,List.map_append,List.map_cons,List.sum_append,List.sum_cons,hrest,
    shareOf_eq_zero hi,add_zero,add_zero] at hsum
  rw [hsum] at hfirst
  simpa using hfirst

theorem starved_pass (hweights : ∀ i, 0 ≤ weightAt weights i) {room : ℕ}
    (hi : weightAt weights i = 0) (h : s.Fits available) (hnodup : active.Nodup)
    (hleft : ∀ i, i ∈ active ↔ 0 < s.left i) (hrem : 0 < s.remainder) (hactive : active ≠ [])
    (hs : Starved weights i room s) : Starved weights i room (apportionPass weights active s) := by
  obtain hroom | hfull := hs
  · obtain ⟨htotal,hpass⟩ | ⟨htotal,hfloors,is,hperm,hsorted,hpass⟩ | ⟨htotal,-,hpass,-⟩ :=
      apportionPass_cases weights hnodup hleft
    · refine .inr fun j hj => ?_
      have hzero := left_eq_zero_of_total hweights hleft htotal hj
      have hle := (offers_spend active h).left_le j
      rw [hpass]
      omega
    · left
      rw [hpass,← hroom]
      by_cases hmem : i ∈ is
      · obtain ⟨p,q,rfl⟩ := List.append_of_mem hmem
        have hnd := hperm.nodup_iff.mpr hnodup
        obtain ⟨hp,-,hdisjoint⟩ := List.nodup_append.mp hnd
        have hip : i ∉ p := fun hin => hdisjoint i hin i List.mem_cons_self rfl
        have hspent : (p.foldl offer s).remainder = 0 := by
          have hlength := remainder_le_of_split hweights htotal hfloors hperm hsorted hi
          rw [remainder_offers hp fun k hk =>
            (hleft k).mp (hperm.mem_iff.mp (List.mem_append_left _ hk))]
          omega
        rw [List.foldl_append,left_offers_spent hspent,left_offers_of_not_mem hip]
      · exact left_offers_of_not_mem hmem
    · refine .inl ?_
      rw [hpass,shareOf_eq_zero hi,Nat.floor_zero,Nat.sub_zero,hroom]
  · refine .inr fun j hj => ?_
    have hle := (apportionPass_spends hweights h hnodup (fun k hk => (hleft k).mp hk) hactive
      hrem).1.left_le j
    have hzero := hfull j hj
    omega

end Pass

section Quotas

open Spending

variable {available : List ℕ} {graded : List K} {i j : ℕ}

theorem Spending.Fits.at {s : Spending} (h : s.Fits available) (k : ℕ) :
    s.quotas[k]?.getD 0 + s.left k = available[k]?.getD 0 := by
  rw [← h.sum,left,List.getElem?_zipWith]
  by_cases hk : k < available.length
  · have hq : k < s.quotas.length := h.quotas.symm ▸ hk
    have hh : k < s.headroom.length := h.headroom.symm ▸ hk
    simp [hq,hh]
  · have hq : s.quotas[k]? = none := List.getElem?_eq_none (by have := h.quotas; omega)
    have hh : s.headroom[k]? = none := List.getElem?_eq_none (by have := h.headroom; omega)
    simp [hq,hh]

variable [FloorSemiring K] [IsStrictOrderedRing K]

theorem exists_apportioned (hgraded : ∀ i, 0 ≤ weightAt graded i)
    (hlen : graded.length = available.length) (groupWeight : List K) {floor budget : ℕ}
    (hfloors : (available.map (min floor)).sum ≤ budget) {P : Spending → Prop}
    (hstart : ∀ s : Spending, (∀ k, s.left k = available[k]?.getD 0 - floor) → P s)
    (hstep : ∀ {headroom active : List ℕ} {s : Spending}, s.Fits headroom → active.Nodup →
      (∀ i, i ∈ active ↔ 0 < s.left i) → 0 < s.remainder → active ≠ [] → P s →
      P (apportionPass graded active s)) :
    ∃ t, P t ∧ ∀ k : ℕ, (groupQuotas graded groupWeight available floor budget)[k]?.getD 0 +
      t.left k = available[k]?.getD 0 := by
  rw [groupQuotas,if_neg (not_lt.mpr hfloors)]
  set headroom := List.zipWith (· - ·) available (available.map (min floor)) with hheadroom
  have hwide : graded.length = headroom.length := by simp [hheadroom,hlen]
  have hroom : ∀ k : ℕ, headroom[k]?.getD 0 = available[k]?.getD 0 - floor := by
    intro k
    rw [hheadroom,List.getElem?_zipWith,List.getElem?_map]
    cases available[k]? with
    | none => simp
    | some x =>
      simp only [Option.map_some,Option.getD_some]
      omega
  obtain ⟨t,hrun,hquotas⟩ := apportion_run hgraded hwide (budget - (available.map (min floor)).sum)
  obtain ⟨hfits,ht⟩ := hrun.preserves hgraded hstep (fits_start hwide _) (List.nodup_range.filter _)
    (mem_active_start hwide _) (hstart _ hroom)
  refine ⟨t,ht,fun k => ?_⟩
  have hat := hfits.at k
  rw [hroom] at hat
  rw [← hquotas,List.getElem?_zipWith,List.getElem?_map]
  have hlength : t.quotas.length = available.length := by
    rw [hfits.quotas,← hwide,hlen]
  by_cases hk : k < available.length
  · simp only [List.getElem?_eq_getElem hk,List.getElem?_eq_getElem (hlength.symm ▸ hk),
      Option.getD_some,Option.map_some] at hat ⊢
    omega
  · simp only [List.getElem?_eq_none (not_lt.mp hk),Option.map_none,Option.getD_none] at hat ⊢
    omega

theorem apportioned_le (hgraded : ∀ i, 0 ≤ weightAt graded i)
    (hlen : graded.length = available.length) (groupWeight : List K) {floor budget : ℕ}
    (hfloors : (available.map (min floor)).sum ≤ budget)
    (hlt : weightAt graded j < weightAt graded i)
    (hsize : available[j]?.getD 0 ≤ available[i]?.getD 0) :
    (groupQuotas graded groupWeight available floor budget)[j]?.getD 0 ≤
      (groupQuotas graded groupWeight available floor budget)[i]?.getD 0 := by
  obtain ⟨t,ht,hquotas⟩ := exists_apportioned hgraded hlen groupWeight hfloors
    (P := Ahead available i j)
    (fun s hs => .inr (by rw [hs,hs]; omega))
    (fun h hnodup hleft hrem _ hs => ahead_pass hgraded hlt h hnodup hleft hrem hs)
  have hi := hquotas i
  have hj := hquotas j
  rw [Ahead] at ht
  omega

theorem apportioned_full (hgraded : ∀ i, 0 ≤ weightAt graded i)
    (hlen : graded.length = available.length) (groupWeight : List K) {floor budget : ℕ}
    (hfloors : (available.map (min floor)).sum ≤ budget) (hzero : weightAt graded j = 0)
    (hpos : 0 < weightAt graded i)
    (hmore : min floor (available[j]?.getD 0) <
      (groupQuotas graded groupWeight available floor budget)[j]?.getD 0) :
    (groupQuotas graded groupWeight available floor budget)[i]?.getD 0 = available[i]?.getD 0 := by
  obtain ⟨t,ht,hquotas⟩ := exists_apportioned hgraded hlen groupWeight hfloors
    (P := Starved graded j (available[j]?.getD 0 - floor))
    (fun s hs => .inl (hs j))
    (fun h hnodup hleft hrem hactive hs =>
      starved_pass hgraded hzero h hnodup hleft hrem hactive hs)
  have hi := hquotas i
  have hj := hquotas j
  obtain hroom | hfull := ht
  · omega
  · have hnone := hfull i hpos
    omega

end Quotas

section Squeezed

variable {graded groupWeight : List K} {i j : ℕ}

instance : Std.Total (rankLe graded groupWeight) where
  total i j := by
    unfold rankLe
    rcases lt_trichotomy (weightAt graded i) (weightAt graded j) with h | h | h
    · exact .inr (.inl h)
    · rcases lt_trichotomy (weightAt groupWeight i) (weightAt groupWeight j) with hw | hw | hw
      · exact .inr (.inr ⟨h.symm,.inl hw⟩)
      · exact (le_total i j).imp (fun hle => .inr ⟨h,.inr ⟨hw,hle⟩⟩)
          fun hle => .inr ⟨h.symm,.inr ⟨hw.symm,hle⟩⟩
      · exact .inl (.inr ⟨h,.inl hw⟩)
    · exact .inl (.inl h)

instance : IsTrans ℕ (rankLe graded groupWeight) where
  trans i j k hij hjk := by
    unfold rankLe at *
    rcases hij with hij | ⟨hij,hij'⟩ <;> rcases hjk with hjk | ⟨hjk,hjk'⟩
    · exact .inl (hjk.trans hij)
    · exact .inl (hjk ▸ hij)
    · exact .inl (hij ▸ hjk)
    · refine .inr ⟨hij.trans hjk,?_⟩
      rcases hij' with hij' | ⟨hij',hle⟩ <;> rcases hjk' with hjk' | ⟨hjk',hle'⟩
      · exact .inl (hjk'.trans hij')
      · exact .inl (hjk' ▸ hij')
      · exact .inl (hij' ▸ hjk')
      · exact .inr ⟨hij'.trans hjk',hle.trans hle'⟩

theorem squeeze_fold_at (available : List ℕ) (floor : ℕ) {ranked : List ℕ} (hnodup : ranked.Nodup)
    (quotas : List ℕ) (budget : ℕ) (hquotas : ∀ k ∈ ranked, quotas[k]?.getD 0 = 0) :
    let out := ranked.foldl (fun out i =>
      (out.1.set i (min (min (available[i]?.getD 0) floor) out.2),
        out.2 - min (min (available[i]?.getD 0) floor) out.2)) (quotas,budget)
    (∀ k, k ∉ ranked → out.1[k]? = quotas[k]?) ∧
      ∀ k ∈ ranked, out.1[k]?.getD 0 ≤ min (min (available[k]?.getD 0) floor) budget := by
  induction ranked generalizing quotas budget with
  | nil => exact ⟨fun _ _ => rfl,fun k hk => absurd hk List.not_mem_nil⟩
  | cons i ranked ih =>
    obtain ⟨hi,hnd⟩ := List.nodup_cons.mp hnodup
    set take := min (min (available[i]?.getD 0) floor) budget with htake
    obtain ⟨hsame,hless⟩ := ih hnd (quotas.set i take) (budget - take) (fun k hk => by
      have hne : i ≠ k := fun heq => hi (heq ▸ hk)
      rw [List.getElem?_set_ne hne]
      exact hquotas k (List.mem_cons_of_mem _ hk))
    refine ⟨fun k hk => ?_,fun k hk => ?_⟩
    · obtain ⟨hne,hrest⟩ := not_or.mp fun hor => hk (List.mem_cons.mpr hor)
      exact (hsame k hrest).trans (List.getElem?_set_ne (Ne.symm hne))
    · obtain rfl | hrest := List.mem_cons.mp hk
      · refine (congrArg (·.getD 0) (hsame k hi)).trans_le ?_
        show ((quotas.set k take)[k]?).getD 0 ≤ take
        by_cases hlt : k < quotas.length
        · rw [List.getElem?_set_self hlt,Option.getD_some]
        · rw [List.getElem?_eq_none (by rw [List.length_set]; omega),Option.getD_none]
          exact Nat.zero_le _
      · exact (hless k hrest).trans (by omega)

theorem getD_replicate_zero (n k : ℕ) : (List.replicate n 0)[k]?.getD 0 = 0 := by
  rw [List.getElem?_replicate]
  split_ifs <;> rfl

theorem squeeze_le {available p q : List ℕ} {floor budget : ℕ} (hnodup : (p ++ i :: q).Nodup)
    (hi : i < available.length) (hj : j ∉ p) (hne : i ≠ j)
    (hsize : available[j]?.getD 0 ≤ available[i]?.getD 0) :
    (squeeze available floor (p ++ i :: q) budget)[j]?.getD 0 ≤
      (squeeze available floor (p ++ i :: q) budget)[i]?.getD 0 := by
  obtain ⟨hp,hcons,hdisjoint⟩ := List.nodup_append.mp hnodup
  obtain ⟨hiq,hq⟩ := List.nodup_cons.mp hcons
  have hip : i ∉ p := fun hmem => hdisjoint i hmem i List.mem_cons_self rfl
  have hstart := getD_replicate_zero available.length
  have hfirst := (squeeze_fold_at available floor hp (List.replicate available.length 0) budget
    fun k _ => hstart k).1
  rw [squeeze,List.foldl_append,List.foldl_cons]
  dsimp only at hfirst ⊢
  set out := p.foldl (fun out i => (out.1.set i (min (min (available[i]?.getD 0) floor) out.2),
    out.2 - min (min (available[i]?.getD 0) floor) out.2)) (List.replicate available.length 0,budget)
  set take := min (min (available[i]?.getD 0) floor) out.2 with htake
  obtain ⟨hsame,hless⟩ := squeeze_fold_at available floor hq (out.1.set i take) (out.2 - take)
    fun k hk => by
      have hik : i ≠ k := fun heq => hiq (heq ▸ hk)
      rw [List.getElem?_set_ne hik,hfirst k fun hmem => hdisjoint k hmem k
        (List.mem_cons_of_mem _ hk) rfl]
      exact hstart k
  have hlt : i < out.1.length := by
    have hvalue := hfirst i hip
    rw [List.getElem?_replicate,if_pos hi] at hvalue
    exact (List.getElem?_eq_some_iff.mp hvalue).1
  rw [hsame i hiq,List.getElem?_set_self hlt,Option.getD_some]
  by_cases hjq : j ∈ q
  · exact (hless j hjq).trans (by omega)
  · rw [hsame j hjq,List.getElem?_set_ne hne,hfirst j hj,hstart]
    exact Nat.zero_le _

theorem squeeze_le_floor (available : List ℕ) {ranked : List ℕ} (hnodup : ranked.Nodup)
    (floor budget k : ℕ) :
    (squeeze available floor ranked budget)[k]?.getD 0 ≤ min floor (available[k]?.getD 0) := by
  have hstart := getD_replicate_zero available.length
  obtain ⟨hsame,hless⟩ := squeeze_fold_at available floor hnodup (List.replicate available.length 0)
    budget fun k _ => hstart k
  rw [squeeze]
  by_cases hk : k ∈ ranked
  · exact (hless k hk).trans (by omega)
  · rw [hsame k hk,hstart]
    exact Nat.zero_le _

variable [FloorSemiring K] [IsStrictOrderedRing K] {available : List ℕ}

theorem groupQuotas_le (hgraded : ∀ i, 0 ≤ weightAt graded i)
    (hlen : graded.length = available.length) (floor budget : ℕ) (hi : i < available.length)
    (hlt : weightAt graded j < weightAt graded i)
    (hsize : available[j]?.getD 0 ≤ available[i]?.getD 0) :
    (groupQuotas graded groupWeight available floor budget)[j]?.getD 0 ≤
      (groupQuotas graded groupWeight available floor budget)[i]?.getD 0 := by
  by_cases hfloors : (available.map (min floor)).sum ≤ budget
  · exact apportioned_le hgraded hlen groupWeight hfloors hlt hsize
  rw [groupQuotas,if_pos (not_le.mp hfloors),List.length_map]
  set ranked := (List.range available.length).insertionSort (rankLe graded groupWeight) with hranked
  have hperm : ranked.Perm (List.range available.length) := List.perm_insertionSort _ _
  have hfirst : ¬rankLe graded groupWeight j i := by
    rintro (hgt | ⟨heq,-⟩)
    · exact lt_asymm hlt hgt
    · exact hlt.ne heq
  obtain ⟨p,q,hsplit,hj⟩ := exists_split_of_pairwise
    (List.pairwise_insertionSort (rankLe graded groupWeight) _)
    (hperm.mem_iff.mpr (List.mem_range.mpr hi)) hfirst
  have hnodup := hperm.nodup_iff.mpr List.nodup_range
  have hne : i ≠ j := by
    rintro rfl
    exact lt_irrefl _ hlt
  rw [hranked,hsplit] at hnodup ⊢
  exact squeeze_le hnodup hi hj hne hsize

theorem groupQuotas_full (hgraded : ∀ i, 0 ≤ weightAt graded i)
    (hlen : graded.length = available.length) {floor budget : ℕ} (hzero : weightAt graded j = 0)
    (hpos : 0 < weightAt graded i)
    (hmore : min floor (available[j]?.getD 0) <
      (groupQuotas graded groupWeight available floor budget)[j]?.getD 0) :
    (groupQuotas graded groupWeight available floor budget)[i]?.getD 0 = available[i]?.getD 0 := by
  by_cases hfloors : (available.map (min floor)).sum ≤ budget
  · exact apportioned_full hgraded hlen groupWeight hfloors hzero hpos hmore
  · rw [groupQuotas,if_pos (not_le.mp hfloors)] at hmore
    have hle := squeeze_le_floor available ((List.perm_insertionSort
      (rankLe graded groupWeight) (List.range (available.map (min floor)).length)).nodup_iff.mpr
      List.nodup_range) floor budget j
    omega

end Squeezed

section Allocation

variable [FloorSemiring K] [IsStrictOrderedRing K] {A : Arithmetic K}

theorem group_at {varianceExponent diversityExponent : K}
    (hvariance : NonnegPower A varianceExponent) (hdiversity : NonnegPower A diversityExponent)
    {groupIds : List I} {weights : List K} {budget : ℤ} (minRolloutsPerPrompt : ℤ)
    {diversity : Option (List K)} (hpos : 0 < budget) (hless : budget < groupIds.length) {g : I × K}
    (hg : g ∈ (groupRows groupIds).2.zip
      (gradedWeights A groupIds weights varianceExponent diversity diversityExponent)) :
    ∃ i, i < ((groupRows groupIds).1.map List.length).length ∧
      weightAt (gradedWeights A groupIds weights varianceExponent diversity diversityExponent) i =
        g.2 ∧
      ((groupRows groupIds).1.map List.length)[i]?.getD 0 = groupIds.count g.1 ∧
      keptOf groupIds (allocateRolloutBudget A groupIds weights budget minRolloutsPerPrompt
        varianceExponent diversity diversityExponent) g.1 = (positions groupIds g.1).take
          ((rolloutQuotas A groupIds weights budget minRolloutsPerPrompt varianceExponent diversity
            diversityExponent)[i]?.getD 0) ∧
      (rolloutQuotas A groupIds weights budget minRolloutsPerPrompt varianceExponent diversity
        diversityExponent)[i]?.getD 0 ≤ groupIds.count g.1 := by
  obtain ⟨i,hzip⟩ := List.mem_iff_getElem?.mp hg
  obtain ⟨hat,hgraded⟩ := List.getElem?_zip_eq_some.mp hzip
  obtain ⟨quota,hquota,hle,-⟩ := exists_quota hvariance hdiversity weights minRolloutsPerPrompt
    diversity hless hat
  have hkept := keptOf_eq_take A groupIds weights minRolloutsPerPrompt _ diversity _ hpos hless hat
    hquota
  have hsize : ((groupRows groupIds).1.map List.length)[i]? = some (groupIds.count g.1) := by
    rw [groupRows_eq] at hat
    rw [length_groupRows,List.getElem?_map,hat,Option.map_some]
  refine ⟨i,(List.getElem?_eq_some_iff.mp hsize).1,?_,?_,?_,?_⟩
  · rw [weightAt,hgraded,Option.getD_some]
  · rw [hsize,Option.getD_some]
  · rw [hquota,Option.getD_some,hkept]
  · rw [hquota,Option.getD_some]
    exact hle

/-- Of two groups, the one with the greater weight and not fewer rows keeps at least as many; and a
group without weight keeps more than its floor only where those with weight keep all. -/
theorem allocateRolloutBudget_monotone {varianceExponent diversityExponent : K}
    (hvariance : NonnegPower A varianceExponent) (hdiversity : NonnegPower A diversityExponent)
    (groupIds : List I) (weights : List K) (budget minRolloutsPerPrompt : ℤ)
    (diversity : Option (List K)) :
    let kept := allocateRolloutBudget A groupIds weights budget minRolloutsPerPrompt
      varianceExponent diversity diversityExponent
    let groups := (groupRows groupIds).2.zip
      (gradedWeights A groupIds weights varianceExponent diversity diversityExponent)
    ∀ g ∈ groups, ∀ h ∈ groups,
      (h.2 < g.2 → groupIds.count h.1 ≤ groupIds.count g.1 →
        (keptOf groupIds kept h.1).length ≤ (keptOf groupIds kept g.1).length) ∧
      (h.2 = 0 → 0 < g.2 →
        min minRolloutsPerPrompt.toNat (groupIds.count h.1) < (keptOf groupIds kept h.1).length →
        keptOf groupIds kept g.1 = positions groupIds g.1) := by
  intro kept groups g hg h hh
  by_cases hall : (groupIds.length : ℤ) ≤ budget
  · have hkept := keptOf_all A groupIds weights minRolloutsPerPrompt varianceExponent diversity
      diversityExponent hall
    refine ⟨fun _ hsize => ?_,fun _ _ _ => hkept g.1⟩
    rw [hkept,hkept,length_positions,length_positions]
    exact hsize
  by_cases hnone : budget ≤ 0
  · have hkept := keptOf_none A groupIds weights minRolloutsPerPrompt varianceExponent diversity
      diversityExponent hnone (not_le.mp hall)
    refine ⟨fun _ _ => ?_,fun _ _ hmore => ?_⟩
    · rw [hkept]
      exact Nat.zero_le _
    · rw [hkept] at hmore
      exact absurd hmore (Nat.not_lt_zero _)
  obtain ⟨i,hi,hwi,hsi,hki,hqi⟩ := group_at hvariance hdiversity minRolloutsPerPrompt
    (not_le.mp hnone) (not_le.mp hall) hg
  obtain ⟨j,hj,hwj,hsj,hkj,hqj⟩ := group_at hvariance hdiversity minRolloutsPerPrompt
    (not_le.mp hnone) (not_le.mp hall) hh
  obtain ⟨hnonneg,hlength⟩ := gradedWeights_nonneg hvariance hdiversity groupIds weights diversity
  have hlen : (gradedWeights A groupIds weights varianceExponent diversity
      diversityExponent).length = ((groupRows groupIds).1.map List.length).length := by
    rw [hlength,List.length_map]
  rw [hki,hkj,List.length_take,List.length_take,length_positions,length_positions,
    Nat.min_eq_left hqi,Nat.min_eq_left hqj]
  refine ⟨fun hlt hsize => ?_,fun hzero hpos hmore => ?_⟩
  · exact groupQuotas_le (weightAt_nonneg hnonneg) hlen _ _ hi (by rw [hwi,hwj]; exact hlt)
      (by rw [hsi,hsj]; exact hsize)
  · have hfull : (rolloutQuotas A groupIds weights budget minRolloutsPerPrompt varianceExponent
        diversity diversityExponent)[i]?.getD 0 = groupIds.count g.1 :=
      (groupQuotas_full (weightAt_nonneg hnonneg) hlen (hwj.trans hzero) (hwi.symm ▸ hpos)
        (by rw [hsj]; exact hmore)).trans hsi
    rw [hfull,← length_positions,List.take_length]

theorem allocateRolloutBudget_monotone_four :
    let kept := allocateRolloutBudget rationalArithmetic [7,4,4,2,2] [1,3,3,0,0] 4 0 1 none 0
    (keptOf [7,4,4,2,2] kept 7).length ≤ (keptOf [7,4,4,2,2] kept 4).length ∧
      keptOf [7,4,4,2,2] kept 4 = positions [7,4,4,2,2] 4 :=
  have h := allocateRolloutBudget_monotone (fun x => rationalArithmetic_powerNonneg x 1)
    (fun x => rationalArithmetic_powerNonneg x 0) [7,4,4,2,2] [1,3,3,0,0] 4 0 none (4,3)
    (by decide +kernel)
  ⟨(h (7,1) (by decide +kernel)).1 (by decide +kernel) (by decide),
    (h (2,0) (by decide +kernel)).2 rfl (by decide +kernel) (by decide +kernel)⟩

end Allocation

end Grpo
end DockyardRL
