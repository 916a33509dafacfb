import Mathlib.Algebra.Order.Floor.Semiring
import DockyardRL.Grpo.Baseline
import DockyardRL.Lib.Grouping

/-! `allocate_rollout_budget`: the rows of a batch that a step trains on, chosen by the spread
of the groups they belong to. -/
namespace DockyardRL
namespace Grpo

open Gather Grouping

variable {I K : Type*} [DecidableEq I] [Field K] [LinearOrder K]

/-- `rows.setdefault(gid, []).append(row)`, the groups in order of first appearance. -/
def appendRow (gid : I) (row : ℕ) : List (I × List ℕ) → List (I × List ℕ)
  | [] => [(gid,[row])]
  | group :: rest =>
    if group.1 = gid then (gid,group.2 ++ [row]) :: rest else group :: appendRow gid row rest

def groupRows (groupIds : List I) : List (List ℕ) × List I :=
  let rows := groupIds.zipIdx.foldl (fun rows entry => appendRow entry.1 entry.2 rows) []
  (rows.map Prod.snd,rows.map Prod.fst)

/-- Rows given to each group, rows each group has left, and rows still to be given. -/
structure Spending where
  quotas : List ℕ
  headroom : List ℕ
  remainder : ℕ
deriving DecidableEq, Repr

namespace Spending

def left (s : Spending) (i : ℕ) : ℕ := s.headroom[i]?.getD 0

/-- `quotas[i] += take; headroom[i] -= take`. -/
def give (s : Spending) (i take : ℕ) : Spending :=
  { s with quotas := s.quotas.modify i (· + take), headroom := s.headroom.modify i (· - take) }

/-- One row for group `i`, as long as there is one to give. -/
def giveOne (s : Spending) (i : ℕ) : Spending :=
  if s.remainder = 0 then s else { s.give i 1 with remainder := s.remainder - 1 }

/-- One row for group `i`, unless it has none left. -/
def offer (s : Spending) (i : ℕ) : Spending := if s.left i = 0 then s else s.giveOne i

def start (groups : ℕ) (headroom : List ℕ) (remainder : ℕ) : Spending :=
  ⟨List.replicate groups 0,headroom,remainder⟩

/-- `[i for i in active if headroom[i] > 0]`. -/
def active (s : Spending) (groups : List ℕ) : List ℕ := groups.filter fun i => 0 < s.left i

end Spending

def weightAt (weights : List K) (i : ℕ) : K := weights[i]?.getD 0

/-- `t[1] > u[1]`, ties broken on the group index. -/
def shareLe (t u : ℕ × K) : Prop := u.2 < t.2 ∨ t.2 = u.2 ∧ t.1 ≤ u.1

instance (t u : ℕ × K) : Decidable (shareLe t u) := by unfold shareLe; infer_instance

variable [FloorSemiring K]

/-- Whole rows of every share, as far as the groups have them, and how many these are. -/
def giveShares (s : Spending) (shares : List (ℕ × K)) : Spending × ℕ :=
  shares.foldl (fun out share =>
    let take := min ⌊share.2⌋₊ (out.1.left share.1)
    (out.1.give share.1 take,out.2 + take)) (s,0)

/-- One pass of the loop of `_apportion`. -/
def apportionPass (weights : List K) (active : List ℕ) (s : Spending) : Spending :=
  let totalW := (active.map (weightAt weights)).sum
  if totalW ≤ 0 then active.foldl Spending.giveOne s
  else
    let shares := active.map fun i => (i,(s.remainder : K) * weightAt weights i / totalW)
    let out := giveShares s shares
    let s := { out.1 with remainder := s.remainder - out.2 }
    if out.2 = 0 then
      (shares.insertionSort shareLe).foldl (fun s share => s.offer share.1) s
    else s

/-- `while remainder > 0 and active`. -/
def apportionLoop (weights : List K) : ℕ → List ℕ → Spending → Spending
  | 0, _, s => s
  | fuel + 1, active, s =>
    if 0 < s.remainder ∧ active ≠ [] then
      let s := apportionPass weights active s
      apportionLoop weights fuel (s.active active) s
    else s

/-- `_apportion`; every pass of the loop gives a row, so that `remainder` passes suffice. -/
def apportion (weights : List K) (headroom : List ℕ) (remainder : ℕ) : List ℕ :=
  let s : Spending := ⟨List.replicate weights.length 0,headroom,remainder⟩
  (apportionLoop weights remainder (s.active (List.range weights.length)) s).quotas

/-- `max(0.0, sum(flat[r] for r in rows) / len(rows))`. -/
def groupMean (flat : List K) (rows : List ℕ) : K := max 0 ((gather flat rows).sum / rows.length)

def diversityFactor (A : Arithmetic K) (rowsPerGroup : List (List ℕ)) (diversity : Option (List K))
    (exponent : K) : List K :=
  match diversity with
  | none => List.replicate rowsPerGroup.length 1
  | some flat =>
    if exponent = 0 then List.replicate rowsPerGroup.length 1
    else
      let perGroup := rowsPerGroup.map (groupMean flat)
      if perGroup.sum ≤ 0 then List.replicate rowsPerGroup.length 1
      else perGroup.map fun value => A.power value exponent

/-- `(-graded[i], -group_weight[i], i)`. -/
def rankLe (graded groupWeight : List K) (i j : ℕ) : Prop :=
  weightAt graded j < weightAt graded i ∨ weightAt graded i = weightAt graded j ∧
    (weightAt groupWeight j < weightAt groupWeight i ∨
      weightAt groupWeight i = weightAt groupWeight j ∧ i ≤ j)

instance (graded groupWeight : List K) (i j : ℕ) : Decidable (rankLe graded groupWeight i j) := by
  unfold rankLe; infer_instance

def squeeze (available : List ℕ) (floor : ℕ) (ranked : List ℕ) (budget : ℕ) : List ℕ :=
  (ranked.foldl (fun out i =>
    let take := min (min (available[i]?.getD 0) floor) out.2
    (out.1.set i take,out.2 - take)) (List.replicate available.length 0,budget)).1

def groupQuotas (graded groupWeight : List K) (available : List ℕ) (floor budget : ℕ) : List ℕ :=
  let floors := available.map (min floor)
  if budget < floors.sum then
    squeeze available floor ((List.range floors.length).insertionSort (rankLe graded groupWeight)) budget
  else
    let extra := apportion graded (List.zipWith (· - ·) available floors) (budget - floors.sum)
    List.zipWith (· + ·) floors extra

def allocateRolloutBudget (A : Arithmetic K) (groupIds : List I) (weights : List K) (budget : ℤ)
    (minRolloutsPerPrompt : ℤ) (varianceExponent : K) (diversity : Option (List K))
    (diversityExponent : K) : List ℕ :=
  if (groupIds.length : ℤ) ≤ budget then List.range groupIds.length
  else if budget ≤ 0 then []
  else
    let rowsPerGroup := (groupRows groupIds).1
    let groupWeight := rowsPerGroup.map (groupMean weights)
    let factor := diversityFactor A rowsPerGroup diversity diversityExponent
    let graded := List.zipWith (fun w f => A.power w varianceExponent * f) groupWeight factor
    let quotas := groupQuotas graded groupWeight (rowsPerGroup.map List.length)
      minRolloutsPerPrompt.toNat budget.toNat
    (List.zipWith (fun rows quota => rows.take quota) rowsPerGroup quotas).flatten.insertionSort
      (· ≤ ·)

/-- The graded weights of the groups, in the order of `groupRows`. -/
def gradedWeights (A : Arithmetic K) (groupIds : List I) (weights : List K) (varianceExponent : K)
    (diversity : Option (List K)) (diversityExponent : K) : List K :=
  List.zipWith (fun w f => A.power w varianceExponent * f)
    ((groupRows groupIds).1.map (groupMean weights))
    (diversityFactor A (groupRows groupIds).1 diversity diversityExponent)

/-- The rows that each group keeps, in the order of `groupRows`. -/
def rolloutQuotas (A : Arithmetic K) (groupIds : List I) (weights : List K) (budget : ℤ)
    (minRolloutsPerPrompt : ℤ) (varianceExponent : K) (diversity : Option (List K))
    (diversityExponent : K) : List ℕ :=
  groupQuotas (gradedWeights A groupIds weights varianceExponent diversity diversityExponent)
    ((groupRows groupIds).1.map (groupMean weights)) ((groupRows groupIds).1.map List.length)
    minRolloutsPerPrompt.toNat budget.toNat

section Grouping

theorem appendRow_eq (gid : I) (row : ℕ) (rows : List (I × List ℕ)) :
    appendRow gid row rows = Dict.assign gid ((rows.lookup gid).getD [] ++ [row]) rows := by
  induction rows with
  | nil => rfl
  | cons entry rows ih =>
    by_cases hgid : entry.1 = gid
    · rw [appendRow,Dict.assign,if_pos hgid,if_pos hgid,Dict.lookup_cons,if_pos hgid.symm]
      rfl
    · rw [appendRow,Dict.assign,if_neg hgid,if_neg hgid,Dict.lookup_cons,if_neg (Ne.symm hgid),ih]

/-- The rows of every group, under its id. -/
theorem groupRows_eq (groupIds : List I) :
    groupRows groupIds = ((group groupIds).entries.map Prod.snd,(group groupIds).keys) := by
  have hstep : ∀ (entries : List (I × ℕ)) (groups : Dict I (List ℕ)),
      entries.foldl (fun rows entry => appendRow entry.1 entry.2 rows) groups.entries =
        (entries.foldl place groups).entries := by
    intro entries
    induction entries with
    | nil => exact fun _ => rfl
    | cons entry entries ih =>
      intro groups
      rw [List.foldl_cons,List.foldl_cons,appendRow_eq]
      exact ih (place groups entry)
  exact congrArg (fun rows => (List.map Prod.snd rows,List.map Prod.fst rows))
    (hstep groupIds.zipIdx Dict.empty)

/-- Every row belongs to one group. -/
theorem groupRows_perm (groupIds : List I) :
    (groupRows groupIds).1.flatten.Perm (List.range groupIds.length) := by
  rw [groupRows_eq]
  exact flatMap_entries_perm groupIds

end Grouping

namespace Spending

/-- Quotas and headrooms that make up the rows each group had. -/
structure Fits (available : List ℕ) (s : Spending) : Prop where
  quotas : s.quotas.length = available.length
  headroom : s.headroom.length = available.length
  sum : List.zipWith (· + ·) s.quotas s.headroom = available

/-- `t` comes from `s` by giving rows away. -/
structure Spends (available : List ℕ) (s t : Spending) : Prop where
  fits : t.Fits available
  total : t.quotas.sum + t.remainder = s.quotas.sum + s.remainder
  left_le : ∀ i, t.left i ≤ s.left i
  remainder_le : t.remainder ≤ s.remainder

variable {available : List ℕ} {s t u : Spending}

theorem Spends.refl (h : s.Fits available) : Spends available s s :=
  ⟨h,rfl,fun _ => le_rfl,le_rfl⟩

theorem Spends.trans (hst : Spends available s t) (htu : Spends available t u) :
    Spends available s u :=
  ⟨htu.fits,htu.total.trans hst.total,fun i => (htu.left_le i).trans (hst.left_le i),
    htu.remainder_le.trans hst.remainder_le⟩

theorem sum_modify {l : List ℕ} {i k : ℕ} (h : i < l.length) :
    (l.modify i (· + k)).sum = l.sum + k := by
  induction l generalizing i with
  | nil => simp at h
  | cons x l ih =>
    cases i with
    | zero =>
      simp only [List.modify_zero_cons,List.sum_cons]
      omega
    | succ i =>
      have hrest := ih (i := i) (by simpa using h)
      simp only [List.modify_succ_cons,List.sum_cons]
      omega

theorem zipWith_modify {q h : List ℕ} {i take : ℕ} (htake : take ≤ h[i]?.getD 0) :
    List.zipWith (· + ·) (q.modify i (· + take)) (h.modify i (· - take)) =
      List.zipWith (· + ·) q h := by
  induction q generalizing h i with
  | nil => simp
  | cons x q ih =>
    cases h with
    | nil => simp
    | cons y h =>
      cases i with
      | zero =>
        have hle : take ≤ y := by simpa using htake
        simp only [List.modify_zero_cons,List.zipWith_cons_cons,List.cons.injEq,and_true]
        omega
      | succ i =>
        have hrest := ih (h := h) (i := i) (by simpa using htake)
        simp only [List.modify_succ_cons,List.zipWith_cons_cons,hrest]

theorem left_give (i take j : ℕ) :
    (s.give i take).left j = if i = j then s.left j - take else s.left j := by
  rw [left,left,give,List.getElem?_modify]
  by_cases hij : i = j
  · cases s.headroom[j]? <;> simp [hij]
  · simp [hij]

theorem fits_give {i take : ℕ} (h : s.Fits available) (htake : take ≤ s.left i) :
    (s.give i take).Fits available :=
  ⟨by rw [give,List.length_modify,h.quotas],by rw [give,List.length_modify,h.headroom],
    (zipWith_modify htake).trans h.sum⟩

theorem sum_give {i take : ℕ} (h : s.Fits available) (htake : take ≤ s.left i) :
    (s.give i take).quotas.sum = s.quotas.sum + take := by
  by_cases hi : i < s.quotas.length
  · exact sum_modify hi
  · have hnone : s.left i = 0 := by
      rw [left,List.getElem?_eq_none (by rw [h.headroom,← h.quotas]; omega),Option.getD_none]
    have hzero : take = 0 := by omega
    rw [give,hzero,List.modify_eq_self (by omega),Nat.add_zero]

theorem giveOne_spends {i : ℕ} (h : s.Fits available) (hleft : 0 < s.left i) :
    Spends available s (s.giveOne i) := by
  rw [giveOne]
  by_cases hrem : s.remainder = 0
  · rw [if_pos hrem]
    exact Spends.refl h
  · rw [if_neg hrem]
    have hone : 1 ≤ s.left i := hleft
    have hfits := fits_give h hone
    refine ⟨⟨hfits.quotas,hfits.headroom,hfits.sum⟩,?_,fun j => ?_,Nat.sub_le _ _⟩
    · have hsum := sum_give h hone
      show (s.give i 1).quotas.sum + (s.remainder - 1) = _
      omega
    · have hgive := left_give (s := s) i 1 j
      show (s.give i 1).left j ≤ _
      rw [hgive]
      split_ifs <;> omega

theorem offer_spends (i : ℕ) (h : s.Fits available) : Spends available s (s.offer i) := by
  rw [offer]
  by_cases hleft : s.left i = 0
  · rw [if_pos hleft]
    exact Spends.refl h
  · rw [if_neg hleft]
    exact giveOne_spends h (Nat.pos_of_ne_zero hleft)

theorem offers_spend (is : List ℕ) (h : s.Fits available) :
    Spends available s (is.foldl offer s) := by
  induction is generalizing s with
  | nil => exact Spends.refl h
  | cons i is ih =>
    have hstep := offer_spends i h
    exact hstep.trans (ih hstep.fits)

theorem offers_progress {is : List ℕ} {i : ℕ} (h : s.Fits available) (hi : i ∈ is)
    (hleft : 0 < s.left i) (hrem : 0 < s.remainder) :
    (is.foldl offer s).remainder < s.remainder := by
  induction is generalizing s with
  | nil => cases hi
  | cons k is ih =>
    have hrest := (offers_spend is (offer_spends k h).fits).remainder_le
    have hstep := (offer_spends k h).remainder_le
    show (is.foldl offer (s.offer k)).remainder < s.remainder
    by_cases hk : s.left k = 0
    · have hne : i ≠ k := by
        intro heq
        rw [heq,hk] at hleft
        omega
      have hskip : s.offer k = s := by rw [offer,if_pos hk]
      rw [hskip]
      exact ih h ((List.mem_cons.mp hi).resolve_left hne) hleft hrem
    · have hgive : (s.offer k).remainder = s.remainder - 1 := by
        rw [offer,if_neg hk,giveOne,if_neg hrem.ne']
      omega

theorem fits_start {groups : ℕ} {headroom : List ℕ} (hlen : groups = headroom.length)
    (remainder : ℕ) : (start groups headroom remainder).Fits headroom := by
  subst hlen
  refine ⟨List.length_replicate,rfl,?_⟩
  show List.zipWith (· + ·) (List.replicate headroom.length 0) headroom = headroom
  induction headroom with
  | nil => rfl
  | cons x l ih =>
    rw [List.length_cons,List.replicate_succ,List.zipWith_cons_cons,ih,Nat.zero_add]

theorem mem_active_start {groups : ℕ} {headroom : List ℕ} (hlen : groups = headroom.length)
    (remainder i : ℕ) : i ∈ (start groups headroom remainder).active (List.range groups) ↔
      0 < (start groups headroom remainder).left i := by
  rw [Spending.active,List.mem_filter,decide_eq_true_eq,and_iff_right_iff_imp,List.mem_range]
  intro hpos
  by_contra hi
  have hnone : headroom[i]? = none := List.getElem?_eq_none (by omega)
  simp [left,start,hnone] at hpos

/-- Every group is asked once, so that each still has room when it is asked. -/
theorem foldl_giveOne {is : List ℕ} (hnodup : is.Nodup) (hleft : ∀ i ∈ is, 0 < s.left i) :
    is.foldl giveOne s = is.foldl offer s := by
  induction is generalizing s with
  | nil => rfl
  | cons i is ih =>
    obtain ⟨hi,hnd⟩ := List.nodup_cons.mp hnodup
    have hoffer : s.offer i = s.giveOne i := by
      rw [offer,if_neg (hleft i List.mem_cons_self).ne']
    have hrest : ∀ j ∈ is, 0 < (s.giveOne i).left j := by
      intro j hj
      have hne : i ≠ j := fun heq => hi (heq ▸ hj)
      have hpos := hleft j (List.mem_cons_of_mem _ hj)
      have hsame := left_give (s := s) i 1 j
      rw [if_neg hne] at hsame
      rw [giveOne]
      split_ifs
      · exact hpos
      · show 0 < (s.give i 1).left j
        omega
    rw [List.foldl_cons,List.foldl_cons,hoffer,ih hnd hrest]

end Spending

section Apportion

variable {available : List ℕ} {s : Spending} {weights : List K}

open Spending

theorem giveShares_append (s : Spending) (shares : List (ℕ × K)) (share : ℕ × K) :
    giveShares s (shares ++ [share]) =
      ((giveShares s shares).1.give share.1
          (min ⌊share.2⌋₊ ((giveShares s shares).1.left share.1)),
        (giveShares s shares).2 + min ⌊share.2⌋₊ ((giveShares s shares).1.left share.1)) := by
  rw [giveShares,List.foldl_append]
  rfl

theorem giveShares_spends (shares : List (ℕ × K)) (h : s.Fits available) :
    (giveShares s shares).1.Fits available ∧
      (giveShares s shares).1.quotas.sum = s.quotas.sum + (giveShares s shares).2 ∧
      (∀ i, (giveShares s shares).1.left i ≤ s.left i) ∧
      (giveShares s shares).2 ≤ (shares.map fun share => ⌊share.2⌋₊).sum := by
  induction shares using List.reverseRecOn with
  | nil => exact ⟨h,rfl,fun _ => le_rfl,le_rfl⟩
  | append_singleton shares share ih =>
    obtain ⟨hfits,hsum,hleft,hgiven⟩ := ih
    have htake : min ⌊share.2⌋₊ ((giveShares s shares).1.left share.1) ≤
        (giveShares s shares).1.left share.1 := Nat.min_le_right _ _
    rw [giveShares_append]
    refine ⟨fits_give hfits htake,?_,fun i => ?_,?_⟩
    · have hgive := sum_give hfits htake
      show ((giveShares s shares).1.give share.1 _).quotas.sum = _
      omega
    · have hgive := left_give (s := (giveShares s shares).1) share.1
        (min ⌊share.2⌋₊ ((giveShares s shares).1.left share.1)) i
      have hbefore := hleft i
      show ((giveShares s shares).1.give share.1 _).left i ≤ _
      rw [hgive]
      split_ifs <;> omega
    · rw [List.map_append,List.sum_append,List.map_singleton,List.sum_singleton]
      have hmin := Nat.min_le_left ⌊share.2⌋₊ ((giveShares s shares).1.left share.1)
      show (giveShares s shares).2 + _ ≤ _
      omega

/-- Shares of less than one row give nothing. -/
theorem giveShares_none {shares : List (ℕ × K)} (h : (giveShares s shares).2 = 0) :
    (giveShares s shares).1 = s := by
  induction shares using List.reverseRecOn with
  | nil => rfl
  | append_singleton shares share ih =>
    rw [giveShares_append] at h ⊢
    have hboth : (giveShares s shares).2 = 0 ∧
        min ⌊share.2⌋₊ ((giveShares s shares).1.left share.1) = 0 := Nat.add_eq_zero_iff.mp h
    have hzero : ∀ l : List ℕ, ∀ k, l.modify k (· + 0) = l ∧ l.modify k (· - 0) = l :=
      fun l k => ⟨List.modify_id k l,List.modify_id k l⟩
    dsimp only
    rw [hboth.2,ih hboth.1,give,(hzero _ _).1,(hzero _ _).2]

variable [IsStrictOrderedRing K]

theorem floors_le {active : List ℕ} (remainder : ℕ) (hweights : ∀ i, 0 ≤ weightAt weights i)
    (htotal : 0 < (active.map (weightAt weights)).sum) :
    ((active.map fun i => (i,(remainder : K) * weightAt weights i /
      (active.map (weightAt weights)).sum)).map fun share => ⌊share.2⌋₊).sum ≤ remainder := by
  have hcast : ∀ is : List ℕ, (((is.map fun i => (i,(remainder : K) * weightAt weights i /
      (active.map (weightAt weights)).sum)).map fun share => ⌊share.2⌋₊).sum : K) ≤
      remainder * (is.map (weightAt weights)).sum / (active.map (weightAt weights)).sum := by
    intro is
    induction is with
    | nil => simp
    | cons i is ih =>
      have hshare : 0 ≤ (remainder : K) * weightAt weights i / (active.map (weightAt weights)).sum :=
        div_nonneg (mul_nonneg (Nat.cast_nonneg _) (hweights i)) htotal.le
      have hfloor := Nat.floor_le hshare
      simp only [List.map_cons,List.sum_cons,Nat.cast_add] at ih ⊢
      rw [mul_add,add_div]
      exact add_le_add hfloor ih
  have hall := hcast active
  rw [mul_div_cancel_right₀ _ htotal.ne'] at hall
  exact_mod_cast hall

/-- A pass of the loop gives rows away, at least one. -/
theorem apportionPass_spends {active : List ℕ} (hweights : ∀ i, 0 ≤ weightAt weights i)
    (h : s.Fits available) (hnodup : active.Nodup) (hleft : ∀ i ∈ active, 0 < s.left i)
    (hactive : active ≠ []) (hrem : 0 < s.remainder) :
    Spends available s (apportionPass weights active s) ∧
      (apportionPass weights active s).remainder < s.remainder := by
  obtain ⟨i,hi⟩ := List.exists_mem_of_ne_nil active hactive
  rw [apportionPass]
  by_cases htotal : (active.map (weightAt weights)).sum ≤ 0
  · rw [if_pos htotal,foldl_giveOne hnodup hleft]
    exact ⟨offers_spend active h,offers_progress h hi (hleft i hi) hrem⟩
  · rw [if_neg htotal]
    set shares := active.map fun i => (i,(s.remainder : K) * weightAt weights i /
      (active.map (weightAt weights)).sum) with hshares
    obtain ⟨hfits,hsum,hless,hgiven⟩ := giveShares_spends shares h
    have hfloors := hgiven.trans (floors_le s.remainder hweights (not_le.mp htotal))
    dsimp only
    set t : Spending := { (giveShares s shares).1 with
      remainder := s.remainder - (giveShares s shares).2 } with ht
    have hst : Spends available s t := by
      refine ⟨⟨hfits.quotas,hfits.headroom,hfits.sum⟩,?_,hless,Nat.sub_le _ _⟩
      show (giveShares s shares).1.quotas.sum + (s.remainder - (giveShares s shares).2) = _
      omega
    by_cases hnone : (giveShares s shares).2 = 0
    · rw [if_pos hnone]
      have hsame : t.remainder = s.remainder := by
        show s.remainder - _ = _
        omega
      have hroom : 0 < t.left i := by
        have hunchanged := giveShares_none hnone
        show 0 < (giveShares s shares).1.left i
        rw [hunchanged]
        exact hleft i hi
      have hmem : i ∈ (shares.insertionSort shareLe).map Prod.fst := by
        rw [((List.perm_insertionSort shareLe shares).map Prod.fst).mem_iff,hshares,List.map_map]
        exact List.mem_map.mpr ⟨i,hi,rfl⟩
      rw [← List.foldl_map (f := Prod.fst) (g := offer)]
      refine ⟨hst.trans (offers_spend _ hst.fits),?_⟩
      rw [← hsame]
      exact offers_progress hst.fits hmem hroom (hsame ▸ hrem)
    · rw [if_neg hnone]
      refine ⟨hst,?_⟩
      show s.remainder - _ < _
      omega

theorem mem_active_pass (hweights : ∀ i, 0 ≤ weightAt weights i) {active : List ℕ}
    (h : s.Fits available) (hnodup : active.Nodup) (hleft : ∀ i, i ∈ active ↔ 0 < s.left i)
    (hgo : 0 < s.remainder ∧ active ≠ []) (i : ℕ) :
    i ∈ (apportionPass weights active s).active active ↔
      0 < (apportionPass weights active s).left i := by
  have hpass := (apportionPass_spends hweights h hnodup (fun j hj => (hleft j).mp hj) hgo.2 hgo.1).1
  rw [Spending.active,List.mem_filter,decide_eq_true_eq,and_iff_right_iff_imp]
  intro hroom
  exact (hleft i).mpr (hroom.trans_le (hpass.left_le i))

theorem apportionLoop_spends (hweights : ∀ i, 0 ≤ weightAt weights i) {fuel : ℕ} {active : List ℕ}
    (h : s.Fits available) (hfuel : s.remainder ≤ fuel) (hnodup : active.Nodup)
    (hleft : ∀ i, i ∈ active ↔ 0 < s.left i) :
    Spends available s (apportionLoop weights fuel active s) ∧
      ((apportionLoop weights fuel active s).remainder = 0 ∨
        ∀ i, (apportionLoop weights fuel active s).left i = 0) := by
  induction fuel generalizing s active with
  | zero => exact ⟨Spends.refl h,Or.inl (Nat.le_zero.mp hfuel)⟩
  | succ fuel ih =>
    rw [apportionLoop]
    by_cases hgo : 0 < s.remainder ∧ active ≠ []
    · rw [if_pos hgo]
      obtain ⟨hpass,hless⟩ := apportionPass_spends hweights h hnodup (fun i hi => (hleft i).mp hi)
        hgo.2 hgo.1
      obtain ⟨hrest,hend⟩ := ih hpass.fits (by omega) (hnodup.filter _)
        (mem_active_pass hweights h hnodup hleft hgo)
      exact ⟨hpass.trans hrest,hend⟩
    · rw [if_neg hgo]
      refine ⟨Spends.refl h,?_⟩
      by_cases hrem : s.remainder = 0
      · exact Or.inl hrem
      · have hnil : active = [] := by
          by_contra hne
          exact hgo ⟨Nat.pos_of_ne_zero hrem,hne⟩
        refine Or.inr fun i => Nat.eq_zero_of_not_pos fun hroom => ?_
        have hmem := (hleft i).mpr hroom
        rw [hnil] at hmem
        cases hmem

theorem sum_zipWith_add {q h : List ℕ} (hlen : q.length = h.length) :
    (List.zipWith (· + ·) q h).sum = q.sum + h.sum := by
  induction q generalizing h with
  | nil => cases h <;> simp at hlen ⊢
  | cons x q ih =>
    cases h with
    | nil => simp at hlen
    | cons y h =>
      have hrest := ih (h := h) (by simpa using hlen)
      simp only [List.zipWith_cons_cons,List.sum_cons,hrest]
      omega

theorem le_zipWith_add {q h : List ℕ} (hlen : q.length = h.length) :
    List.Forall₂ (· ≤ ·) q (List.zipWith (· + ·) q h) := by
  induction q generalizing h with
  | nil => exact List.Forall₂.nil
  | cons x q ih =>
    cases h with
    | nil => simp at hlen
    | cons y h => exact List.Forall₂.cons (Nat.le_add_right x y) (ih (by simpa using hlen))

/-- `_apportion` spends the remainder, and gives no group more than its headroom. -/
theorem apportion_spends {headroom : List ℕ} (remainder : ℕ)
    (hweights : ∀ i, 0 ≤ weightAt weights i) (hlen : weights.length = headroom.length)
    (hroom : remainder ≤ headroom.sum) :
    (apportion weights headroom remainder).sum = remainder ∧
      List.Forall₂ (· ≤ ·) (apportion weights headroom remainder) headroom := by
  set s := Spending.start weights.length headroom remainder with hs
  have hfits : s.Fits headroom := fits_start hlen remainder
  have hactive := mem_active_start hlen remainder
  have hnodup : (s.active (List.range weights.length)).Nodup := List.nodup_range.filter _
  have hfuel : s.remainder ≤ remainder := le_rfl
  obtain ⟨hspend,hend⟩ := apportionLoop_spends hweights hfits hfuel hnodup hactive
  have hquotas : apportion weights headroom remainder =
      (apportionLoop weights remainder (s.active (List.range weights.length)) s).quotas := rfl
  rw [hquotas]
  set t := apportionLoop weights remainder (s.active (List.range weights.length)) s with ht
  have htotal := hspend.total
  have hzero : s.quotas.sum = 0 := by simp [hs,Spending.start]
  have hlengths : t.quotas.length = t.headroom.length :=
    hspend.fits.quotas.trans hspend.fits.headroom.symm
  have hmade := sum_zipWith_add hlengths
  rw [hspend.fits.sum] at hmade
  have hnone : t.remainder = 0 := by
    obtain hrem | hempty := hend
    · exact hrem
    · have hheadroom : t.headroom.sum = 0 := by
        refine List.sum_eq_zero fun x hx => ?_
        obtain ⟨i,hi,rfl⟩ := List.mem_iff_getElem.mp hx
        have hleft := hempty i
        rwa [left,List.getElem?_eq_getElem hi,Option.getD_some] at hleft
      have hrem : s.remainder = remainder := rfl
      omega
  refine ⟨by have hrem : s.remainder = remainder := rfl; omega,?_⟩
  have hle := le_zipWith_add hlengths
  rwa [hspend.fits.sum] at hle

end Apportion

section Squeeze

theorem squeeze_fold (available : List ℕ) (floor : ℕ) (ranked : List ℕ) (quotas : List ℕ)
    (budget : ℕ) (hnodup : ranked.Nodup) (hzero : ∀ i ∈ ranked, quotas[i]? = some 0)
    (hle : ∀ i : ℕ, quotas[i]?.getD 0 ≤ available[i]?.getD 0) :
    let out := ranked.foldl (fun out i =>
      (out.1.set i (min (min (available[i]?.getD 0) floor) out.2),
        out.2 - min (min (available[i]?.getD 0) floor) out.2)) (quotas,budget)
    out.1.length = quotas.length ∧
      out.1.sum = quotas.sum + min budget (ranked.map fun i => min (available[i]?.getD 0) floor).sum ∧
      ∀ i : ℕ, out.1[i]?.getD 0 ≤ available[i]?.getD 0 := by
  induction ranked generalizing quotas budget with
  | nil => exact ⟨rfl,by simp,hle⟩
  | cons k ranked ih =>
    obtain ⟨hk,hnd⟩ := List.nodup_cons.mp hnodup
    obtain ⟨hlt,hvalue⟩ := List.getElem?_eq_some_iff.mp (hzero k List.mem_cons_self)
    set take := min (min (available[k]?.getD 0) floor) budget with htake
    have hrest := ih (quotas.set k take) (budget - take) hnd
      (fun i hi => by
        have hne : k ≠ i := fun heq => hk (heq ▸ hi)
        rw [List.getElem?_set_ne hne]
        exact hzero i (List.mem_cons_of_mem _ hi))
      (fun i => by
        by_cases hik : k = i
        · rw [← hik,List.getElem?_set_self hlt,Option.getD_some]
          omega
        · rw [List.getElem?_set_ne hik]
          exact hle i)
    have hsum : (quotas.set k take).sum = quotas.sum + take := by
      have hset := List.sum_set quotas k take
      have hsplit := List.sum_take_add_sum_drop quotas k
      rw [List.drop_eq_getElem_cons hlt,List.sum_cons,hvalue] at hsplit
      rw [hset,if_pos hlt]
      omega
    obtain ⟨hlength,htotal,hbound⟩ := hrest
    refine ⟨?_,?_,hbound⟩
    · rw [List.foldl_cons,hlength,List.length_set]
    · rw [List.foldl_cons,htotal,hsum,List.map_cons,List.sum_cons]
      omega

theorem forall₂_of_getD {q h : List ℕ} (hlen : q.length = h.length)
    (hle : ∀ i : ℕ, q[i]?.getD 0 ≤ h[i]?.getD 0) : List.Forall₂ (· ≤ ·) q h := by
  refine List.forall₂_iff_get.mpr ⟨hlen,fun i hi hj => ?_⟩
  have hboth := hle i
  rwa [List.getElem?_eq_getElem hi,List.getElem?_eq_getElem hj,Option.getD_some,
    Option.getD_some] at hboth

theorem squeeze_spends {available ranked : List ℕ} {floor budget : ℕ}
    (hranked : ranked.Perm (List.range available.length))
    (hbudget : budget ≤ (available.map (min floor)).sum) :
    (squeeze available floor ranked budget).sum = budget ∧
      List.Forall₂ (· ≤ ·) (squeeze available floor ranked budget) available := by
  have hwithin : ∀ i ∈ ranked, i < available.length :=
    fun i hi => List.mem_range.mp (hranked.mem_iff.mp hi)
  obtain ⟨hlength,hsum,hle⟩ := squeeze_fold available floor ranked
    (List.replicate available.length 0) budget (hranked.nodup_iff.mpr List.nodup_range)
    (fun i hi => by rw [List.getElem?_replicate,if_pos (hwithin i hi)])
    (fun i => by
      rw [List.getElem?_replicate]
      split_ifs <;> simp)
  have hcaps : (ranked.map fun i => min (available[i]?.getD 0) floor).sum =
      (available.map (min floor)).sum := by
    rw [(hranked.map _).sum_eq]
    congr 1
    refine List.ext_getElem (by simp) fun i hi hj => ?_
    simp only [List.getElem_map,List.getElem_range]
    rw [List.getElem?_eq_getElem (by simpa using hj),Option.getD_some,Nat.min_comm]
  refine ⟨?_,forall₂_of_getD (by rw [squeeze]; simpa using hlength) hle⟩
  have hzero : (List.replicate available.length 0).sum = 0 := by simp
  rw [hcaps,hzero] at hsum
  rw [squeeze]
  exact hsum.trans (by omega)

end Squeeze

section Allocation

omit [FloorSemiring K]

theorem weightAt_nonneg {weights : List K} (h : ∀ w ∈ weights, 0 ≤ w) (i : ℕ) :
    0 ≤ weightAt weights i := by
  rw [weightAt]
  cases hi : weights[i]? with
  | none => exact le_rfl
  | some w => exact h w (List.mem_of_getElem? hi)

theorem length_takes {groups : List (List ℕ)} {quotas : List ℕ}
    (h : List.Forall₂ (· ≤ ·) quotas (groups.map List.length)) :
    (List.zipWith (fun rows quota => rows.take quota) groups quotas).flatten.length = quotas.sum := by
  induction groups generalizing quotas with
  | nil =>
    cases h
    rfl
  | cons rows groups ih =>
    cases quotas with
    | nil => cases h
    | cons quota quotas =>
      obtain ⟨hle,hrest⟩ := List.forall₂_cons.mp h
      rw [List.zipWith_cons_cons,List.flatten_cons,List.length_append,ih hrest,List.length_take,
        Nat.min_eq_left hle,List.sum_cons]

theorem takes_sublist (groups : List (List ℕ)) (quotas : List ℕ) :
    (List.zipWith (fun rows quota => rows.take quota) groups quotas).flatten.Sublist
      groups.flatten := by
  induction groups generalizing quotas with
  | nil => exact List.Sublist.refl _
  | cons rows groups ih =>
    cases quotas with
    | nil => exact List.nil_sublist _
    | cons quota quotas =>
      rw [List.zipWith_cons_cons,List.flatten_cons,List.flatten_cons]
      exact (List.take_sublist _ _).append (ih quotas)

/-- Powers of what is not negative are not negative. -/
def PowerNonneg (A : Arithmetic K) : Prop := ∀ x e, 0 ≤ x → 0 ≤ A.power x e

/-- Powers of what is not negative, to this exponent. -/
def NonnegPower (A : Arithmetic K) (e : K) : Prop := ∀ x, 0 ≤ x → 0 ≤ A.power x e

variable [IsStrictOrderedRing K] {A : Arithmetic K}

theorem diversityFactor_nonneg {exponent : K} (hA : NonnegPower A exponent)
    (rowsPerGroup : List (List ℕ)) (diversity : Option (List K)) :
    (∀ f ∈ diversityFactor A rowsPerGroup diversity exponent, 0 ≤ f) ∧
      (diversityFactor A rowsPerGroup diversity exponent).length = rowsPerGroup.length := by
  have hones : (∀ f ∈ List.replicate rowsPerGroup.length (1 : K), 0 ≤ f) ∧
      (List.replicate rowsPerGroup.length (1 : K)).length = rowsPerGroup.length :=
    ⟨fun f hf => (List.eq_of_mem_replicate hf) ▸ zero_le_one,List.length_replicate⟩
  cases diversity with
  | none => exact hones
  | some flat =>
    rw [diversityFactor]
    dsimp only
    split_ifs
    · exact hones
    · exact hones
    · refine ⟨fun f hf => ?_,by simp⟩
      obtain ⟨value,hvalue,rfl⟩ := List.mem_map.mp hf
      obtain ⟨rows,-,rfl⟩ := List.mem_map.mp hvalue
      exact hA _ (le_max_left _ _)

theorem forall₂_add {floors available extra : List ℕ} (hle : List.Forall₂ (· ≤ ·) floors available)
    (hextra : List.Forall₂ (· ≤ ·) extra (List.zipWith (· - ·) available floors)) :
    List.Forall₂ (· ≤ ·) (List.zipWith (· + ·) floors extra) available := by
  induction hle generalizing extra with
  | nil => exact List.Forall₂.nil
  | cons hxy _ ih =>
    cases hextra with
    | cons hz hrest =>
      refine List.Forall₂.cons ?_ (ih hrest)
      dsimp only at hz ⊢
      omega

theorem sum_zipWith_sub {floors available : List ℕ} (hle : List.Forall₂ (· ≤ ·) floors available) :
    floors.sum + (List.zipWith (· - ·) available floors).sum = available.sum := by
  induction hle with
  | nil => rfl
  | cons hxy _ ih =>
    rw [List.zipWith_cons_cons,List.sum_cons,List.sum_cons,List.sum_cons]
    omega

variable [FloorSemiring K]

theorem groupQuotas_spend {graded : List K} (groupWeight : List K) {available : List ℕ}
    (floor : ℕ) {budget : ℕ}     (hgraded : ∀ w ∈ graded, 0 ≤ w) (hlen : graded.length = available.length)
    (hbudget : budget ≤ available.sum) :
    (groupQuotas graded groupWeight available floor budget).sum = budget ∧
      List.Forall₂ (· ≤ ·) (groupQuotas graded groupWeight available floor budget) available := by
  have hle : List.Forall₂ (· ≤ ·) (available.map (min floor)) available := by
    rw [List.forall₂_map_left_iff,List.forall₂_same]
    exact fun x _ => Nat.min_le_right _ x
  rw [groupQuotas]
  by_cases hsqueeze : budget < (available.map (min floor)).sum
  · rw [if_pos hsqueeze]
    refine squeeze_spends ?_ hsqueeze.le
    have hranked := List.perm_insertionSort (rankLe graded groupWeight)
      (List.range (available.map (min floor)).length)
    rwa [List.length_map] at hranked ⊢
  · rw [if_neg hsqueeze]
    have hroom := sum_zipWith_sub hle
    have hwide : graded.length =
        (List.zipWith (· - ·) available (available.map (min floor))).length := by simp [hlen]
    obtain ⟨hsum,hextra⟩ := apportion_spends (budget - (available.map (min floor)).sum)
      (weightAt_nonneg hgraded) hwide (by omega)
    refine ⟨?_,forall₂_add hle hextra⟩
    have hlength : (available.map (min floor)).length = (apportion graded
        (List.zipWith (· - ·) available (available.map (min floor)))
        (budget - (available.map (min floor)).sum)).length := by
      rw [hextra.length_eq]
      simp
    rw [sum_zipWith_add hlength,hsum]
    omega

omit [IsStrictOrderedRing K] in
/-- A budget for some but not all of the rows: the first rows of every group. -/
theorem allocateRolloutBudget_eq (A : Arithmetic K) (groupIds : List I) (weights : List K)
    {budget : ℤ} (minRolloutsPerPrompt : ℤ) (varianceExponent : K) (diversity : Option (List K))
    (diversityExponent : K) (hpos : 0 < budget) (hless : budget < groupIds.length) :
    allocateRolloutBudget A groupIds weights budget minRolloutsPerPrompt varianceExponent diversity
      diversityExponent = (List.zipWith (fun rows quota => rows.take quota) (groupRows groupIds).1
        (rolloutQuotas A groupIds weights budget minRolloutsPerPrompt varianceExponent diversity
          diversityExponent)).flatten.insertionSort (· ≤ ·) := by
  rw [allocateRolloutBudget,if_neg (not_le.mpr hless),if_neg (not_le.mpr hpos)]
  rfl

omit [FloorSemiring K] in
theorem gradedWeights_nonneg {varianceExponent diversityExponent : K}
    (hvariance : NonnegPower A varianceExponent) (hdiversity : NonnegPower A diversityExponent)
    (groupIds : List I) (weights : List K) (diversity : Option (List K)) :
    (∀ w ∈ gradedWeights A groupIds weights varianceExponent diversity diversityExponent, 0 ≤ w) ∧
      (gradedWeights A groupIds weights varianceExponent diversity diversityExponent).length =
        (groupRows groupIds).1.length := by
  obtain ⟨hfactor,hfactors⟩ := diversityFactor_nonneg hdiversity (groupRows groupIds).1 diversity
  refine ⟨fun x hx => ?_,by simp [gradedWeights,hfactors]⟩
  rw [gradedWeights,← List.map_uncurry_zip_eq_zipWith] at hx
  obtain ⟨⟨w,f⟩,hpair,rfl⟩ := List.mem_map.mp hx
  obtain ⟨hw,hf⟩ := List.of_mem_zip hpair
  obtain ⟨rows,-,rfl⟩ := List.mem_map.mp hw
  exact mul_nonneg (hvariance _ (le_max_left _ _)) (hfactor f hf)

theorem rolloutQuotas_spend {varianceExponent diversityExponent : K}
    (hvariance : NonnegPower A varianceExponent) (hdiversity : NonnegPower A diversityExponent)
    (groupIds : List I) (weights : List K) {budget : ℤ} (minRolloutsPerPrompt : ℤ)
    (diversity : Option (List K)) (hless : budget < groupIds.length) :
    (rolloutQuotas A groupIds weights budget minRolloutsPerPrompt varianceExponent diversity
        diversityExponent).sum = budget.toNat ∧
      List.Forall₂ (· ≤ ·) (rolloutQuotas A groupIds weights budget minRolloutsPerPrompt
        varianceExponent diversity diversityExponent) ((groupRows groupIds).1.map List.length) := by
  obtain ⟨hnonneg,hlength⟩ := gradedWeights_nonneg hvariance hdiversity groupIds weights diversity
  have htotal : ((groupRows groupIds).1.map List.length).sum = groupIds.length := by
    rw [← List.length_flatten,(groupRows_perm groupIds).length_eq,List.length_range]
  exact groupQuotas_spend _ _ hnonneg (by rw [hlength,List.length_map]) (by omega)

/-- The rows that are kept are in order, and as many as the budget pays for. -/
theorem allocateRolloutBudget_spec {varianceExponent diversityExponent : K}
    (hvariance : NonnegPower A varianceExponent) (hdiversity : NonnegPower A diversityExponent)
    (groupIds : List I) (weights : List K) (budget minRolloutsPerPrompt : ℤ)
    (diversity : Option (List K)) :
    (allocateRolloutBudget A groupIds weights budget minRolloutsPerPrompt varianceExponent diversity
        diversityExponent).Pairwise (· < ·) ∧
      Within (allocateRolloutBudget A groupIds weights budget minRolloutsPerPrompt varianceExponent
        diversity diversityExponent) groupIds.length ∧
      ((allocateRolloutBudget A groupIds weights budget minRolloutsPerPrompt varianceExponent
        diversity diversityExponent).length : ℤ) = max 0 (min budget groupIds.length) := by
  by_cases hall : (groupIds.length : ℤ) ≤ budget
  · rw [allocateRolloutBudget,if_pos hall]
    refine ⟨List.pairwise_lt_range,fun i hi => List.mem_range.mp hi,?_⟩
    rw [List.length_range]
    omega
  by_cases hnone : budget ≤ 0
  · rw [allocateRolloutBudget,if_neg hall,if_pos hnone]
    refine ⟨List.Pairwise.nil,fun i hi => absurd hi List.not_mem_nil,?_⟩
    rw [List.length_nil]
    omega
  rw [allocateRolloutBudget_eq A groupIds weights minRolloutsPerPrompt varianceExponent diversity
    diversityExponent (not_le.mp hnone) (not_le.mp hall)]
  obtain ⟨hsum,hle⟩ := rolloutQuotas_spend hvariance hdiversity groupIds weights
    minRolloutsPerPrompt diversity (not_le.mp hall)
  set quotas := rolloutQuotas A groupIds weights budget minRolloutsPerPrompt varianceExponent
    diversity diversityExponent
  set groups := (groupRows groupIds).1
  have hperm := groupRows_perm groupIds
  have hsorted := List.perm_insertionSort (· ≤ ·)
    (List.zipWith (fun rows quota => rows.take quota) groups quotas).flatten
  have hsub := takes_sublist groups quotas
  have hnodup := (hsub.nodup (hperm.nodup_iff.mpr List.nodup_range))
  refine ⟨?_,fun i hi => ?_,?_⟩
  · have hle := List.pairwise_insertionSort (· ≤ ·)
      (List.zipWith (fun rows quota => rows.take quota) groups quotas).flatten
    exact (hle.and (hsorted.nodup_iff.mpr hnodup)).imp fun hab => hab.1.lt_of_ne hab.2
  · exact List.mem_range.mp (hperm.mem_iff.mp (hsub.subset (hsorted.mem_iff.mp hi)))
  · rw [hsorted.length_eq,length_takes hle,hsum]
    omega

end Allocation

end Grpo
end DockyardRL
