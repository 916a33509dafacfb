import DockyardRL.Grpo.RolloutOrder
import Mathlib.Data.Finset.Dedup
import Mathlib.Data.Finset.Max

/-! `_apportion` against the quota rule of the largest-remainder method. What the whole rows of the
exact shares leave over is shared out again in proportion, not by the fractional parts: a group of
much weight can be given a second row, or one that its share does not ask for. The rule holds just
when, down the groups by weight, every one that is reached has a fraction to round up and either
room for that row alone or a new share below one row. -/
namespace DockyardRL
namespace Grpo

open Spending SortByKey

variable {K : Type*} [Field K] [LinearOrder K]

/-- By weight, ties broken on the group index. -/
def heavier (weights : List K) (i j : ℕ) : Prop :=
  shareLe (i,weightAt weights i) (j,weightAt weights j)

instance (weights : List K) : DecidableRel (heavier weights) := fun i j => by
  unfold heavier; infer_instance

instance (weights : List K) : Std.Total (heavier weights) where
  total i j := total_of shareLe (i,weightAt weights i) (j,weightAt weights j)

instance (weights : List K) : IsTrans ℕ (heavier weights) where
  trans _ _ _ := trans_of shareLe

def exactShare (weights : List K) (remainder i : ℕ) : K :=
  (remainder : K) * weightAt weights i / weights.sum

/-- Down a list of groups, as long as rows are left over: the group has a fraction to round up, and
no room beyond or a new share below one row. -/
def OneRowEach (weights : List K) (floors ceils room : ℕ → ℕ) : ℕ → List ℕ → Prop
  | 0, _ => True
  | _ + 1, [] => True
  | r + 1, i :: is =>
    (floors i < ceils i ∧ (room i = ceils i ∨
      ((r + 1 : ℕ) : K) * weightAt weights i < ((i :: is).map (weightAt weights)).sum)) ∧
    OneRowEach weights floors ceils room r is

instance (weights : List K) (floors ceils room : ℕ → ℕ) :
    ∀ r is, Decidable (OneRowEach weights floors ceils room r is)
  | 0, _ => isTrue trivial
  | _ + 1, [] => isTrue trivial
  | r + 1, i :: is => by
    have hrest := instDecidableOneRowEach weights floors ceils room r is
    unfold OneRowEach
    infer_instance

section Walk

variable [IsStrictOrderedRing K] {weights : List K} {floors ceils room : ℕ → ℕ}

omit [IsStrictOrderedRing K] in
theorem weightAt_le_of_heavier {i j : ℕ} (h : heavier weights i j) :
    weightAt weights j ≤ weightAt weights i := by
  obtain hlt | ⟨heq,-⟩ := h
  · exact hlt.le
  · exact heq.ge

theorem oneRowEach_of_light {r : ℕ} {is : List ℕ} (hsorted : is.Pairwise (heavier weights))
    (hlight : ∀ i ∈ is, (r : K) * weightAt weights i < (is.map (weightAt weights)).sum) :
    OneRowEach weights floors ceils room r is ↔ ∀ i ∈ is.take r, floors i < ceils i := by
  induction is generalizing r with
  | nil => cases r <;> simp [OneRowEach]
  | cons i is ih =>
    cases r with
    | zero => simp [OneRowEach]
    | succ r =>
      obtain ⟨hi,hrest⟩ := List.pairwise_cons.mp hsorted
      have hhead := hlight i List.mem_cons_self
      have htail : ∀ j ∈ is, (r : K) * weightAt weights j < (is.map (weightAt weights)).sum := by
        intro j hj
        rw [List.map_cons,List.sum_cons,Nat.cast_add,Nat.cast_one,add_mul,one_mul,add_comm,
          add_lt_add_iff_left] at hhead
        exact (mul_le_mul_of_nonneg_left (weightAt_le_of_heavier (hi j hj))
          (Nat.cast_nonneg r)).trans_lt hhead
      rw [OneRowEach,ih hrest htail,List.take_succ_cons,List.forall_mem_cons]
      exact and_congr_left fun _ => and_iff_left (.inr hhead)

theorem oneRowEach_append (floors ceils room : ℕ → ℕ) {r : ℕ} {p q : List ℕ}
    (hsorted : (p ++ q).Pairwise (heavier weights))
    (hheavy : ∀ i ∈ p, ((p ++ q).map (weightAt weights)).sum ≤ (r : K) * weightAt weights i)
    (hlength : p.length ≤ r) :
    OneRowEach weights floors ceils room r (p ++ q) ↔
      (∀ i ∈ p, floors i < ceils i ∧ room i = ceils i) ∧
        OneRowEach weights floors ceils room (r - p.length) q := by
  induction p generalizing r with
  | nil => simp
  | cons i p ih =>
    cases r with
    | zero => simp at hlength
    | succ r =>
      obtain ⟨hi,hrest⟩ := List.pairwise_cons.mp hsorted
      have hhead := hheavy i List.mem_cons_self
      have htail : ∀ j ∈ p, ((p ++ q).map (weightAt weights)).sum ≤ (r : K) * weightAt weights j := by
        intro j hj
        have hj' := hheavy j (List.mem_cons_of_mem _ hj)
        rw [List.cons_append,List.map_cons,List.sum_cons,Nat.cast_add,Nat.cast_one,add_mul,
          one_mul] at hj'
        have hle := weightAt_le_of_heavier (hi j (List.mem_append_left _ hj))
        linarith
      rw [List.length_cons] at hlength ⊢
      rw [List.cons_append] at hhead ⊢
      rw [OneRowEach,ih hrest htail (by omega),List.forall_mem_cons,Nat.add_sub_add_right,
        or_iff_left (not_lt.mpr hhead)]
      exact and_assoc.symm

end Walk

section Loop

variable [FloorSemiring K] [IsStrictOrderedRing K] {available active : List ℕ} {s t : Spending}
  {weights : List K}

omit [IsStrictOrderedRing K] in
theorem ApportionRun.eq_of_spent (hrun : ApportionRun weights active s t) (h : s.remainder = 0) :
    t = s := by
  cases hrun with
  | stop _ => rfl
  | pass hgo _ => exact absurd hgo.1 (by omega)

theorem ApportionRun.left_le (hweights : ∀ i, 0 ≤ weightAt weights i)
    (hrun : ApportionRun weights active s t) (h : s.Fits available) (hnodup : active.Nodup)
    (hleft : ∀ i, i ∈ active ↔ 0 < s.left i) (i : ℕ) : t.left i ≤ s.left i :=
  (hrun.preserves hweights (P := fun u => u.left i ≤ s.left i)
    (fun hfits hnd hroom hrem hactive hle =>
      ((apportionPass_spends hweights hfits hnd (fun k hk => (hroom k).mp hk) hactive
        hrem).1.left_le i).trans hle) h hnodup hleft le_rfl).2

omit [FloorSemiring K] in
theorem shareLe_shareOf (hrem : 0 < s.remainder) (htotal : 0 < (active.map (weightAt weights)).sum)
    {i j : ℕ} : shareLe (i,shareOf weights active s i) (j,shareOf weights active s j) ↔
      heavier weights i j := by
  have hpos : 0 < (s.remainder : K) := Nat.cast_pos.mpr hrem
  rw [heavier,shareLe,shareLe]
  dsimp only [shareOf]
  rw [div_lt_div_iff_of_pos_right htotal,mul_lt_mul_iff_right₀ hpos,div_left_inj' htotal.ne',
    mul_right_inj' hpos.ne']

theorem exists_heaviest_taken (hnodup : active.Nodup)
    (hleft : ∀ i, i ∈ active ↔ 0 < s.left i) (hrem : 0 < s.remainder)
    (htotal : 0 < (active.map (weightAt weights)).sum) :
    ∃ m ∈ active, (∀ i ∈ active, weightAt weights i ≤ weightAt weights m) ∧
      (apportionPass weights active s).left m < s.left m := by
  obtain ⟨hzero,-⟩ | ⟨-,-,is,hperm,hsorted,hpass⟩ | ⟨-,⟨i,hi,hfloor⟩,hpass,-⟩ :=
    apportionPass_cases weights hnodup hleft
  · exact absurd hzero (not_le.mpr htotal)
  · cases is with
    | nil =>
      rw [← hperm.nil_eq] at htotal
      exact absurd htotal (lt_irrefl _)
    | cons m is =>
      obtain ⟨hm,-⟩ := List.pairwise_cons.mp hsorted
      have hmem : m ∈ active := hperm.mem_iff.mp List.mem_cons_self
      refine ⟨m,hmem,fun i hi => ?_,?_⟩
      · obtain rfl | his := List.mem_cons.mp (hperm.mem_iff.mpr hi)
        · exact le_rfl
        · exact weightAt_le_of_heavier ((shareLe_shareOf hrem htotal).mp (hm i his))
      · have hnot : m ∉ is := (List.nodup_cons.mp (hperm.nodup_iff.mpr hnodup)).1
        have hpos := (hleft m).mp hmem
        rw [hpass,List.foldl_cons,left_offers_of_not_mem hnot,left_offer,if_pos ⟨rfl,hrem.ne'⟩]
        omega
  · obtain ⟨m,hm,hmax⟩ := active.toFinset.exists_max_image (weightAt weights)
      ⟨i,List.mem_toFinset.mpr hi⟩
    have hmem := List.mem_toFinset.mp hm
    have hshare : shareOf weights active s i ≤ shareOf weights active s m :=
      div_le_div_of_nonneg_right (mul_le_mul_of_nonneg_left (hmax i (List.mem_toFinset.mpr hi))
        (Nat.cast_nonneg _)) htotal.le
    have hpos := (hleft m).mp hmem
    have hmore := Nat.floor_mono hshare
    refine ⟨m,hmem,fun k hk => hmax k (List.mem_toFinset.mpr hk),?_⟩
    rw [hpass]
    omega

omit [FloorSemiring K] [IsStrictOrderedRing K] in
theorem left_offers {is : List ℕ} (hnodup : is.Nodup) (hleft : ∀ i ∈ is, 0 < s.left i) (j : ℕ) :
    (is.foldl offer s).left j = if j ∈ is.take s.remainder then s.left j - 1 else s.left j := by
  induction is generalizing s with
  | nil => simp
  | cons i is ih =>
    obtain ⟨hi,hnd⟩ := List.nodup_cons.mp hnodup
    by_cases hrem : s.remainder = 0
    · rw [left_offers_spent hrem,hrem,List.take_zero,if_neg List.not_mem_nil]
    have hroom : ∀ k ∈ is, 0 < (s.offer i).left k := by
      intro k hk
      have hne : i ≠ k := fun heq => hi (heq ▸ hk)
      rw [left_offer,if_neg fun hoffer => hne hoffer.1]
      exact hleft k (List.mem_cons_of_mem _ hk)
    obtain ⟨r,hr⟩ := Nat.exists_eq_succ_of_ne_zero hrem
    have hspent : (s.offer i).remainder = r := by
      rw [remainder_offer,if_neg (hleft i List.mem_cons_self).ne',hr]
      rfl
    rw [List.foldl_cons,hr,List.take_succ_cons]
    by_cases hij : i = j
    · subst hij
      rw [left_offers_of_not_mem hi,left_offer,if_pos ⟨rfl,hrem⟩,if_pos List.mem_cons_self]
    · have hsame : (s.offer i).left j = s.left j := by
        rw [left_offer,if_neg fun hoffer => hij hoffer.1]
      have hmem : j ∈ i :: is.take r ↔ j ∈ is.take r := by simp [Ne.symm hij]
      rw [ih hnd hroom,hspent,hsame,if_congr hmem rfl rfl]

theorem length_lt_remainder (hweights : ∀ i, 0 ≤ weightAt weights i)
    (htotal : 0 < (active.map (weightAt weights)).sum) {p q : List ℕ} (hperm : (p ++ q).Perm active)
    (hp : ∀ i ∈ p, 0 < ⌊shareOf weights active s i⌋₊) (hrem : 0 < s.remainder)
    (hcount : s.remainder < (p ++ q).countP fun i => 0 < weightAt weights i) :
    p.length < s.remainder := by
  have hnonneg : ∀ k, 0 ≤ shareOf weights active s k := fun k =>
    div_nonneg (mul_nonneg (Nat.cast_nonneg _) (hweights k)) htotal.le
  have hsum := sum_shareOf (s := s) htotal
  rw [← (hperm.map _).sum_eq,List.map_append,List.sum_append] at hsum
  have hfirst : (p.length : K) ≤ (p.map (shareOf weights active s)).sum := by
    have hone : (p.map fun _ => (1 : K)).sum ≤ (p.map (shareOf weights active s)).sum :=
      List.sum_le_sum fun k hk => Nat.floor_pos.mp (hp k hk)
    simpa using hone
  have hq : ∀ x ∈ q.map (shareOf weights active s), 0 ≤ x := by
    intro x hx
    obtain ⟨k,-,rfl⟩ := List.mem_map.mp hx
    exact hnonneg k
  have hrest := List.sum_nonneg hq
  have hle : p.length ≤ s.remainder := by
    have hcast : (p.length : K) ≤ s.remainder := by linarith
    exact_mod_cast hcast
  have hsome : 0 < q.countP fun i => 0 < weightAt weights i := by
    have hfew : p.countP (fun i => 0 < weightAt weights i) ≤ p.length := List.countP_le_length
    rw [List.countP_append] at hcount
    omega
  obtain ⟨k,hk,hpos⟩ := List.countP_pos_iff.mp hsome
  have hshare : 0 < shareOf weights active s k :=
    div_pos (mul_pos (Nat.cast_pos.mpr hrem) (of_decide_eq_true hpos)) htotal
  have hsingle := List.single_le_sum hq _ (List.mem_map_of_mem hk)
  have hcast : (p.length : K) < s.remainder := by linarith
  exact_mod_cast hcast

variable {floors ceils room : ℕ → ℕ}

instance (weights : List K) : Std.Antisymm (heavier weights) where
  antisymm i j hij hji := by
    have hle := (weightAt_le_of_heavier hij).antisymm (weightAt_le_of_heavier hji)
    obtain hlt | ⟨-,hle'⟩ := hij
    · exact absurd hlt hle.ge.not_gt
    obtain hlt | ⟨-,hge'⟩ := hji
    · exact absurd hlt hle.le.not_gt
    · exact le_antisymm hle' hge'

/-- The state after whole rows: a group has all the room beyond its whole rows, or it has its
rounded-up share and no room. -/
structure Rounded (floors ceils room : ℕ → ℕ) (s : Spending) : Prop where
  caps : ∀ i, floors i ≤ ceils i ∧ ceils i ≤ floors i + 1 ∧ ceils i ≤ room i
  left : ∀ i, s.left i = room i - floors i ∨ s.left i = 0 ∧ room i = ceils i

theorem Rounded.left_of_pos {floors ceils room : ℕ → ℕ} (hs : Rounded floors ceils room s) {i : ℕ}
    (hpos : 0 < s.left i) : s.left i = room i - floors i := by
  obtain hroom | ⟨hnone,-⟩ := hs.left i <;> omega

theorem Rounded.within {floors ceils room : ℕ → ℕ} (hs : Rounded floors ceils room s) (i : ℕ) :
    room i ≤ ceils i + s.left i := by
  have hcaps := hs.caps i
  obtain hroom | ⟨hnone,hfull⟩ := hs.left i <;> omega

theorem within_ceils_single (hs : Rounded floors ceils room s) (hnodup : active.Nodup)
    (hleft : ∀ i, i ∈ active ↔ 0 < s.left i) (htotal : 0 < (active.map (weightAt weights)).sum)
    (hfloors : ∀ i ∈ active, ⌊shareOf weights active s i⌋₊ = 0) {is : List ℕ}
    (hperm : is.Perm active) (hsorted : is.Pairwise (heavier weights)) :
    (∀ i, room i ≤ ceils i + (is.foldl offer s).left i) ↔
      OneRowEach weights floors ceils room s.remainder is := by
  have hlight : ∀ i ∈ is, (s.remainder : K) * weightAt weights i <
      (is.map (weightAt weights)).sum := by
    intro i hi
    have hless := Nat.floor_eq_zero.mp (hfloors i (hperm.mem_iff.mp hi))
    rw [shareOf,div_lt_one htotal] at hless
    rwa [(hperm.map _).sum_eq]
  have hroom : ∀ i ∈ is, 0 < s.left i := fun i hi => (hleft i).mp (hperm.mem_iff.mp hi)
  have hoffers := left_offers (hperm.nodup_iff.mpr hnodup) hroom
  rw [oneRowEach_of_light hsorted hlight]
  constructor
  · intro h i hi
    have hwithin := h i
    have hpos := hroom i (List.mem_of_mem_take hi)
    have hleft := hs.left_of_pos hpos
    rw [hoffers,if_pos hi] at hwithin
    omega
  · intro h i
    rw [hoffers]
    by_cases hi : i ∈ is.take s.remainder
    · have hless := h i hi
      have hpos := hroom i (List.mem_of_mem_take hi)
      have hleft := hs.left_of_pos hpos
      have hcaps := hs.caps i
      rw [if_pos hi]
      omega
    · rw [if_neg hi]
      exact hs.within i

omit [IsStrictOrderedRing K] in
theorem sum_taken {p q : List ℕ} (hperm : (p ++ q).Perm active)
    (hp : ∀ i ∈ p, min ⌊shareOf weights active s i⌋₊ (s.left i) = 1)
    (hq : ∀ i ∈ q, ⌊shareOf weights active s i⌋₊ = 0) :
    (active.map fun i => min ⌊shareOf weights active s i⌋₊ (s.left i)).sum = p.length := by
  have hfirst : p.map (fun i => min ⌊shareOf weights active s i⌋₊ (s.left i)) = p.map fun _ => 1 :=
    List.map_congr_left hp
  have hrest : q.map (fun i => min ⌊shareOf weights active s i⌋₊ (s.left i)) = q.map fun _ => 0 :=
    List.map_congr_left fun i hi => by rw [hq i hi,Nat.zero_min]
  rw [← (hperm.map _).sum_eq,List.map_append,List.sum_append,hfirst,hrest]
  simp

theorem full_of_within (hweights : ∀ i, 0 ≤ weightAt weights i) (hs : Rounded floors ceils room s)
    (h : s.Fits available) (hnodup : active.Nodup) (hleft : ∀ i, i ∈ active ↔ 0 < s.left i)
    (hgo : 0 < s.remainder ∧ active ≠ []) (htotal : 0 < (active.map (weightAt weights)).sum)
    (hrest : ApportionRun weights ((apportionPass weights active s).active active)
      (apportionPass weights active s) t) {p q : List ℕ} (hperm : (p ++ q).Perm active)
    (hp : ∀ i ∈ p, 0 < ⌊shareOf weights active s i⌋₊)
    (hq : ∀ i ∈ q, ⌊shareOf weights active s i⌋₊ = 0)
    (hpass : ∀ i, (apportionPass weights active s).left i =
      s.left i - ⌊shareOf weights active s i⌋₊)
    (hspent : (apportionPass weights active s).remainder = s.remainder -
      (active.map fun i => min ⌊shareOf weights active s i⌋₊ (s.left i)).sum)
    (hless : p.length < s.remainder) (hwithin : ∀ i, room i ≤ ceils i + t.left i) :
    ∀ i ∈ p, floors i < ceils i ∧ room i = ceils i := by
  have hroom : ∀ i ∈ p, 0 < s.left i := fun i hi =>
    (hleft i).mp (hperm.mem_iff.mp (List.mem_append_left _ hi))
  have hfits := (apportionPass_spends hweights h hnodup (fun k hk => (hleft k).mp hk) hgo.2
    hgo.1).1.fits
  have hnext := mem_active_pass hweights h hnodup hleft hgo
  have hless' := hrest.left_le hweights hfits (hnodup.filter _) hnext
  have hone : ∀ i ∈ p, floors i < ceils i ∧
      (room i = ceils i ∨ ⌊shareOf weights active s i⌋₊ = 1) := by
    intro i hi
    have hpos := hroom i hi
    have hleft := hs.left_of_pos hpos
    have hcaps := hs.caps i
    have hbound := (hwithin i).trans (Nat.add_le_add_left (hless' i) _)
    have hshare := hp i hi
    rw [hpass] at hbound
    omega
  intro i hi
  refine ⟨(hone i hi).1,?_⟩
  by_contra hmore
  have htaken : ∀ k ∈ p, min ⌊shareOf weights active s k⌋₊ (s.left k) = 1 := by
    intro k hk
    have hpos := hroom k hk
    have hleft := hs.left_of_pos hpos
    have hcaps := hs.caps k
    have hshare := hp k hk
    obtain ⟨hlt,hfull | hsingle⟩ := hone k hk <;> omega
  rw [sum_taken hperm htaken hq] at hspent
  have hstill : 0 < (apportionPass weights active s).left i := by
    have hleft := hs.left_of_pos (hroom i hi)
    have hcaps := hs.caps i
    have hsingle := (hone i hi).2.resolve_left hmore
    have hlt := (hone i hi).1
    rw [hpass]
    omega
  have hactive := (hnext i).mpr hstill
  have hpos : 0 < weightAt weights i := by
    refine (hweights i).lt_of_ne fun hzero => ?_
    have hshare := hp i hi
    rw [shareOf_eq_zero hzero.symm,Nat.floor_zero] at hshare
    exact lt_irrefl _ hshare
  have hstay : ((apportionPass weights active s).active active).Nodup := hnodup.filter _
  obtain ⟨m,hm,hmax,hmtaken⟩ := exists_heaviest_taken hstay hnext (by omega)
    (total_pos hweights hactive hpos)
  have hmp : m ∈ p := by
    have hmem := hperm.mem_iff.mpr (List.mem_of_mem_filter hm)
    refine (List.mem_append.mp hmem).resolve_right fun hmq => ?_
    have hshare : shareOf weights active s i ≤ shareOf weights active s m :=
      div_le_div_of_nonneg_right (mul_le_mul_of_nonneg_left (hmax i hactive)
        (Nat.cast_nonneg _)) htotal.le
    have hfloor := Nat.floor_mono hshare
    have hone := hp i hi
    rw [hq m hmq] at hfloor
    omega
  have hlast : t.left m ≤ (apportionPass weights
      ((apportionPass weights active s).active active) (apportionPass weights active s)).left m := by
    cases hrest with
    | stop hstop => exact absurd ⟨by omega,List.ne_nil_of_mem hm⟩ hstop
    | pass hgo' hrest' =>
      have hfits' := (apportionPass_spends hweights hfits (hnodup.filter _)
        (fun k hk => (hnext k).mp hk) hgo'.2 hgo'.1).1.fits
      exact hrest'.left_le hweights hfits' ((hnodup.filter _).filter _)
        (mem_active_pass hweights hfits (hnodup.filter _) hnext hgo') m
  have hmleft := hs.left_of_pos (hroom m hmp)
  have hmroom := (hnext m).mp hm
  have hmcaps := hs.caps m
  have hmone := hone m hmp
  have hmshare := hp m hmp
  have hmwithin := hwithin m
  rw [hpass] at hmroom
  rw [hpass m] at hmtaken
  omega

omit [IsStrictOrderedRing K] in
theorem Rounded.pass (hs : Rounded floors ceils room s) (hnodup : active.Nodup)
    (hleft : ∀ i, i ∈ active ↔ 0 < s.left i) {p q : List ℕ} (hperm : (p ++ q).Perm active)
    (hp : ∀ i ∈ p, 0 < ⌊shareOf weights active s i⌋₊)
    (hq : ∀ i ∈ q, ⌊shareOf weights active s i⌋₊ = 0)
    (hpass : ∀ i, (apportionPass weights active s).left i =
      s.left i - ⌊shareOf weights active s i⌋₊)
    (hspent : (apportionPass weights active s).remainder = s.remainder -
      (active.map fun i => min ⌊shareOf weights active s i⌋₊ (s.left i)).sum)
    (hnext : ∀ i, i ∈ (apportionPass weights active s).active active ↔
      0 < (apportionPass weights active s).left i)
    (hfull : ∀ i ∈ p, floors i < ceils i ∧ room i = ceils i) :
    Rounded floors ceils room (apportionPass weights active s) ∧
      (apportionPass weights active s).remainder = s.remainder - p.length ∧
      q.Perm ((apportionPass weights active s).active active) := by
  have hone : ∀ i ∈ p, s.left i = 1 := by
    intro i hi
    have hpos := (hleft i).mp (hperm.mem_iff.mp (List.mem_append_left _ hi))
    have hroom := hs.left_of_pos hpos
    have hcaps := hs.caps i
    have hceils := hfull i hi
    omega
  have hend : ∀ i ∈ p, (apportionPass weights active s).left i = 0 := by
    intro i hi
    have hshare := hp i hi
    rw [hpass,hone i hi]
    omega
  have hsame : ∀ i, i ∉ p → (apportionPass weights active s).left i = s.left i := by
    intro i hi
    rw [hpass]
    by_cases hiq : i ∈ q
    · rw [hq i hiq,Nat.sub_zero]
    · have hzero : s.left i = 0 := Nat.eq_zero_of_not_pos fun hpos => by
        have hmem := hperm.mem_iff.mpr ((hleft i).mpr hpos)
        exact (List.mem_append.mp hmem).elim hi hiq
      rw [hzero,Nat.zero_sub]
  have htaken : ∀ i ∈ p, min ⌊shareOf weights active s i⌋₊ (s.left i) = 1 := by
    intro i hi
    have hshare := hp i hi
    have hleft := hone i hi
    omega
  refine ⟨⟨hs.caps,fun i => ?_⟩,by rw [hspent,sum_taken hperm htaken hq],?_⟩
  · by_cases hi : i ∈ p
    · exact .inr ⟨hend i hi,(hfull i hi).2⟩
    · rw [hsame i hi]
      exact hs.left i
  · have hnd := List.nodup_append.mp (hperm.nodup_iff.mpr hnodup)
    refine (List.perm_ext_iff_of_nodup hnd.2.1 (hnodup.filter _)).mpr fun i => ?_
    rw [show List.filter _ active = (apportionPass weights active s).active active from rfl,hnext]
    constructor
    · intro hi
      rw [hsame i fun hip => hnd.2.2 i hip i hi rfl]
      exact (hleft i).mp (hperm.mem_iff.mp (List.mem_append_right _ hi))
    · intro hpos
      have hmem := hperm.mem_iff.mpr ((hleft i).mpr (hpos.trans_le (by
        rw [hpass]
        exact Nat.sub_le _ _)))
      refine (List.mem_append.mp hmem).resolve_left fun hi => ?_
      rw [hend i hi] at hpos
      exact lt_irrefl _ hpos

theorem within_ceils_iff (hweights : ∀ i, 0 ≤ weightAt weights i)
    (hrun : ApportionRun weights active s t) (hs : Rounded floors ceils room s)
    (h : s.Fits available) (hnodup : active.Nodup) (hleft : ∀ i, i ∈ active ↔ 0 < s.left i)
    {is : List ℕ} (hperm : is.Perm active) (hsorted : is.Pairwise (heavier weights))
    (hcount : s.remainder = 0 ∨ s.remainder < is.countP fun i => 0 < weightAt weights i) :
    (∀ i, room i ≤ ceils i + t.left i) ↔
      OneRowEach weights floors ceils room s.remainder is := by
  induction hrun generalizing is with
  | @stop active s hstop =>
    have hzero : s.remainder = 0 := by
      by_contra hrem
      have hcount := hcount.resolve_left hrem
      have hnil : active = [] := by
        by_contra hactive
        exact hstop ⟨Nat.pos_of_ne_zero hrem,hactive⟩
      rw [hnil] at hperm
      rw [hperm.eq_nil] at hcount
      simp at hcount
    rw [hzero,OneRowEach]
    exact iff_true_intro hs.within
  | @pass active s t hgo hrest ih =>
    have hrem : 0 < s.remainder := hgo.1
    have hcount := hcount.resolve_left hrem.ne'
    obtain ⟨k,hk,hkpos⟩ := List.countP_pos_iff.mp (Nat.zero_lt_of_lt hcount)
    have htotal := total_pos hweights (hperm.mem_iff.mp hk) (of_decide_eq_true hkpos)
    obtain ⟨hzero,-⟩ | ⟨-,hfloors,js,hjs,hjsorted,hpass⟩ | ⟨-,-,hpass,hspent⟩ :=
      apportionPass_cases weights hnodup hleft
    · exact absurd hzero (not_le.mpr htotal)
    · have hsame : js = is := (hjs.trans hperm.symm).eq_of_pairwise
        (fun i j _ _ => antisymm_of (heavier weights))
        (hjsorted.imp fun hle => (shareLe_shareOf hrem htotal).mp hle) hsorted
      have hlength : (is.foldl offer s).remainder = 0 := by
        have hmany : is.countP (fun i => 0 < weightAt weights i) ≤ is.length := List.countP_le_length
        rw [remainder_offers (hperm.nodup_iff.mpr hnodup)
          fun i hi => (hleft i).mp (hperm.mem_iff.mp hi)]
        omega
      rw [hpass,hsame] at hrest
      rw [hrest.eq_of_spent hlength]
      exact within_ceils_single hs hnodup hleft htotal hfloors hperm hsorted
    · obtain ⟨p,q,rfl,hp,hq⟩ := exists_split_of_downward
        (P := fun i => 0 < ⌊shareOf weights active s i⌋₊) hsorted (fun i j hij hj => by
          have hshare : shareOf weights active s j ≤ shareOf weights active s i :=
            div_le_div_of_nonneg_right (mul_le_mul_of_nonneg_left (weightAt_le_of_heavier hij)
              (Nat.cast_nonneg _)) htotal.le
          exact hj.trans_le (Nat.floor_mono hshare))
      have hq : ∀ i ∈ q, ⌊shareOf weights active s i⌋₊ = 0 := fun i hi =>
        Nat.eq_zero_of_not_pos (hq i hi)
      have hless := length_lt_remainder hweights htotal hperm hp hrem hcount
      have hheavy : ∀ i ∈ p, ((p ++ q).map (weightAt weights)).sum ≤
          (s.remainder : K) * weightAt weights i := by
        intro i hi
        have hone := Nat.floor_pos.mp (hp i hi)
        rw [shareOf,one_le_div htotal] at hone
        rwa [(hperm.map _).sum_eq]
      have hwalk := oneRowEach_append floors ceils room hsorted hheavy hless.le
      have hfits := (apportionPass_spends hweights h hnodup (fun k hk => (hleft k).mp hk) hgo.2
        hgo.1).1.fits
      have hnext := mem_active_pass hweights h hnodup hleft hgo
      have hkey : (∀ i ∈ p, floors i < ceils i ∧ room i = ceils i) →
          ((∀ i, room i ≤ ceils i + t.left i) ↔
            OneRowEach weights floors ceils room (s.remainder - p.length) q) := by
        intro hfull
        obtain ⟨hrounded,hrows,hothers⟩ := hs.pass hnodup hleft hperm hp hq hpass hspent hnext hfull
        have hfew : p.countP (fun i => 0 < weightAt weights i) ≤ p.length := List.countP_le_length
        rw [List.countP_append] at hcount
        rw [← hrows]
        exact ih hrounded hfits (hnodup.filter _) hnext hothers (List.pairwise_append.mp hsorted).2.1
          (.inr (by omega))
      constructor
      · intro hwithin
        have hfull := full_of_within hweights hs h hnodup hleft hgo htotal hrest hperm hp hq hpass
          hspent hless hwithin
        exact hwalk.mpr ⟨hfull,(hkey hfull).mp hwithin⟩
      · intro hrows
        obtain ⟨hfull,hothers⟩ := hwalk.mp hrows
        exact (hkey hfull).mpr hothers

end Loop

section Shares

variable [FloorSemiring K]

def wholeRows (weights : List K) (remainder i : ℕ) : ℕ := ⌊exactShare weights remainder i⌋₊

def roundedUp (weights : List K) (remainder i : ℕ) : ℕ := ⌈exactShare weights remainder i⌉₊

def leftOver (weights : List K) (remainder : ℕ) : ℕ :=
  remainder - ((List.range weights.length).map (wholeRows weights remainder)).sum

def spareGroups (weights : List K) (headroom : List ℕ) (remainder : ℕ) : List ℕ :=
  ((List.range weights.length).filter fun i =>
    wholeRows weights remainder i < headroom[i]?.getD 0).insertionSort (heavier weights)

/-- Every quota is the exact share, rounded down or up. -/
def QuotaRule (weights : List K) (headroom : List ℕ) (remainder : ℕ) : Prop :=
  ∀ i < weights.length,
    (apportion weights headroom remainder)[i]?.getD 0 = wholeRows weights remainder i ∨
      (apportion weights headroom remainder)[i]?.getD 0 = roundedUp weights remainder i

omit [LinearOrder K] [FloorSemiring K] in
theorem map_weightAt (weights : List K) :
    (List.range weights.length).map (weightAt weights) = weights := by
  refine List.ext_getElem (by simp) fun i hi hi' => ?_
  rw [List.getElem_map,List.getElem_range,weightAt,List.getElem?_eq_getElem hi',Option.getD_some]

theorem sum_filter {M : Type*} [AddCommMonoid M] {p : ℕ → Prop} [DecidablePred p] {g : ℕ → M}
    {is : List ℕ} (h : ∀ i ∈ is, ¬p i → g i = 0) :
    ((is.filter fun i => p i).map g).sum = (is.map g).sum := by
  have hrest : ((is.filter fun i => ¬p i).map g).sum = 0 := by
    refine List.sum_eq_zero fun x hx => ?_
    obtain ⟨i,hi,rfl⟩ := List.mem_map.mp hx
    exact h i (List.mem_of_mem_filter hi) (of_decide_eq_true (List.mem_filter.mp hi).2)
  rw [← List.sum_map_filter_add_sum_map_filter_not p g is,hrest,add_zero]

variable [IsStrictOrderedRing K] {weights : List K} {headroom : List ℕ} {remainder : ℕ}

omit [FloorSemiring K] in
theorem sum_fractions {g : ℕ → K} {is : List ℕ} (h : ∀ i ∈ is, 0 ≤ g i ∧ g i < 1) :
    (is.map g).sum = 0 ∨ (is.map g).sum < (is.countP fun i => 0 < g i : ℕ) := by
  induction is with
  | nil => exact .inl rfl
  | cons i is ih =>
    obtain ⟨⟨hnonneg,hless⟩,hrest⟩ := List.forall_mem_cons.mp h
    rw [List.map_cons,List.sum_cons]
    by_cases hi : 0 < g i
    · have hcount : (0 : K) ≤ (is.countP fun i => 0 < g i : ℕ) := Nat.cast_nonneg _
      rw [List.countP_cons_of_pos (by simpa using hi),Nat.cast_add,Nat.cast_one]
      right
      obtain hzero | hlt := ih hrest <;> linarith
    · rw [List.countP_cons_of_neg (by simpa using hi),(not_lt.mp hi).antisymm hnonneg,zero_add]
      exact ih hrest

omit [FloorSemiring K] in
theorem exactShare_nonneg (hweights : ∀ w ∈ weights, 0 ≤ w) (htotal : 0 < weights.sum)
    (remainder i : ℕ) : 0 ≤ exactShare weights remainder i :=
  div_nonneg (mul_nonneg (Nat.cast_nonneg _) (weightAt_nonneg hweights i)) htotal.le

omit [FloorSemiring K] in
theorem sum_exactShare (htotal : 0 < weights.sum) (remainder : ℕ) :
    ((List.range weights.length).map (exactShare weights remainder)).sum = remainder := by
  have hsum := sum_proportional (w := weightAt weights)
    (by rwa [map_weightAt]) (remainder : K)
  rwa [map_weightAt] at hsum

theorem caps (hroom : ∀ i < weights.length, roundedUp weights remainder i ≤ headroom[i]?.getD 0)
    (i : ℕ) : wholeRows weights remainder i ≤ roundedUp weights remainder i ∧
      roundedUp weights remainder i ≤ wholeRows weights remainder i + 1 ∧
      roundedUp weights remainder i ≤ headroom[i]?.getD 0 := by
  refine ⟨Nat.floor_le_ceil _,Nat.ceil_le_floor_add_one _,?_⟩
  by_cases hi : i < weights.length
  · exact hroom i hi
  · have hnone : weights[i]? = none := List.getElem?_eq_none (not_lt.mp hi)
    simp [roundedUp,exactShare,weightAt,hnone]

theorem leftOver_lt (hweights : ∀ w ∈ weights, 0 ≤ w) (htotal : 0 < weights.sum)
    (hroom : ∀ i, roundedUp weights remainder i ≤ headroom[i]?.getD 0) :
    (((List.range weights.length).map (wholeRows weights remainder)).sum ≤ remainder) ∧
      (leftOver weights remainder = 0 ∨ leftOver weights remainder <
        (spareGroups weights headroom remainder).countP fun i => 0 < weightAt weights i) := by
  set is := List.range weights.length with his
  set g : ℕ → K := fun i => exactShare weights remainder i - wholeRows weights remainder i with hg
  have hfraction : ∀ i ∈ is, 0 ≤ g i ∧ g i < 1 := by
    intro i _
    have hfloor := Nat.floor_le (exactShare_nonneg hweights htotal remainder i)
    have hnext := Nat.lt_floor_add_one (exactShare weights remainder i)
    refine ⟨sub_nonneg.mpr hfloor,?_⟩
    rw [hg,sub_lt_iff_lt_add']
    exact hnext
  have hsum : (is.map g).sum + ((is.map (wholeRows weights remainder)).sum : ℕ) = (remainder : K) := by
    rw [← sum_exactShare htotal remainder,Nat.cast_list_sum,List.map_map,← List.sum_map_add]
    refine congrArg List.sum (List.map_congr_left fun i _ => ?_)
    simp [hg]
  have hspare : is.countP (fun i => 0 < g i) ≤
      (spareGroups weights headroom remainder).countP fun i => 0 < weightAt weights i := by
    rw [spareGroups,(List.perm_insertionSort _ _).countP_eq,List.countP_filter]
    refine List.countP_mono_left fun i _ hi => ?_
    have hpos : 0 < g i := of_decide_eq_true hi
    have hless : (wholeRows weights remainder i : K) < exactShare weights remainder i :=
      sub_pos.mp hpos
    rw [Bool.and_eq_true,decide_eq_true_iff,decide_eq_true_iff]
    refine ⟨(weightAt_nonneg hweights i).lt_of_ne fun hzero => ?_,?_⟩
    · have hshare : exactShare weights remainder i = 0 := by
        rw [exactShare,← hzero,mul_zero,zero_div]
      rw [hshare] at hless
      exact not_le.mpr hless (Nat.cast_nonneg _)
    · exact (Nat.lt_ceil.mpr hless).trans_le (hroom i)
  obtain hzero | hlt := sum_fractions hfraction
  · rw [hzero,zero_add] at hsum
    have heq : (is.map (wholeRows weights remainder)).sum = remainder := Nat.cast_injective hsum
    refine ⟨heq.le,.inl ?_⟩
    rw [leftOver,heq,Nat.sub_self]
  · have hnonneg : 0 ≤ (is.map g).sum := by
      refine List.sum_nonneg fun x hx => ?_
      obtain ⟨i,hi,rfl⟩ := List.mem_map.mp hx
      exact (hfraction i hi).1
    have hle : ((is.map (wholeRows weights remainder)).sum : K) ≤ remainder := by linarith
    have hmore : (remainder : K) < ((is.countP fun i => 0 < g i) +
        (is.map (wholeRows weights remainder)).sum : ℕ) := by
      rw [Nat.cast_add]
      linarith
    have hle' := Nat.cast_le.mp hle
    have hmore' := Nat.cast_lt.mp hmore
    refine ⟨hle',.inr ?_⟩
    rw [leftOver,← his]
    omega

theorem exists_rounded (hweights : ∀ w ∈ weights, 0 ≤ w) (htotal : 0 < weights.sum)
    (hlen : weights.length = headroom.length)
    (hroom : ∀ i < weights.length, roundedUp weights remainder i ≤ headroom[i]?.getD 0)
    {t : Spending} (hrun : ApportionRun weights
      ((Spending.start weights.length headroom remainder).active (List.range weights.length))
      (Spending.start weights.length headroom remainder) t) :
    ∃ active s, ApportionRun weights active s t ∧ s.Fits headroom ∧ active.Nodup ∧
      (∀ i, i ∈ active ↔ 0 < s.left i) ∧
      (∀ i, s.left i = headroom[i]?.getD 0 - wholeRows weights remainder i) ∧
      s.remainder = leftOver weights remainder := by
  have hcaps := caps hroom
  have hnonneg := weightAt_nonneg hweights
  have hstart : ∀ i, (Spending.start weights.length headroom remainder).left i =
      headroom[i]?.getD 0 := fun _ => rfl
  have hfits := fits_start hlen remainder
  have hnodup : ((Spending.start weights.length headroom remainder).active
      (List.range weights.length)).Nodup := List.nodup_range.filter _
  have hleft := mem_active_start hlen remainder
  by_cases hnone : ∀ i, wholeRows weights remainder i = 0
  · refine ⟨_,_,hrun,hfits,hnodup,hleft,fun i => by rw [hstart,hnone,Nat.sub_zero],?_⟩
    have hzero : ((List.range weights.length).map (wholeRows weights remainder)).sum = 0 :=
      List.sum_eq_zero fun x hx => by
        obtain ⟨i,-,rfl⟩ := List.mem_map.mp hx
        exact hnone i
    rw [leftOver,hzero]
    rfl
  obtain ⟨k,hk⟩ := not_forall.mp hnone
  have hrem : 0 < remainder := by
    refine Nat.pos_of_ne_zero fun hzero => hk ?_
    rw [wholeRows,exactShare,hzero,Nat.cast_zero,zero_mul,zero_div,Nat.floor_zero]
  have houtside : ∀ i ∈ List.range weights.length, ¬0 < headroom[i]?.getD 0 →
      weightAt weights i = 0 := by
    intro i hi hfull
    have hceil : exactShare weights remainder i ≤ 0 := by
      have hzero : roundedUp weights remainder i = 0 := by
        have hcap := (hcaps i).2.2
        omega
      exact Nat.ceil_eq_zero.mp hzero
    rw [exactShare,div_le_iff₀ htotal,zero_mul] at hceil
    have hpos : 0 < (remainder : K) := Nat.cast_pos.mpr hrem
    exact (nonpos_of_mul_nonpos_right hceil hpos).antisymm (hnonneg i)
  set active := (Spending.start weights.length headroom remainder).active
    (List.range weights.length) with hactive
  have hsum : (active.map (weightAt weights)).sum = weights.sum :=
    (sum_filter houtside).trans (congrArg List.sum (map_weightAt weights))
  have hshare : ∀ i, shareOf weights active (Spending.start weights.length headroom remainder) i =
      exactShare weights remainder i := by
    intro i
    rw [shareOf,hsum]
    rfl
  have hmem : k ∈ active := by
    rw [hleft,hstart]
    have hcap := hcaps k
    omega
  cases hrun with
  | stop hstop => exact absurd ⟨hrem,List.ne_nil_of_mem hmem⟩ hstop
  | pass hgo hrest =>
    have hpass := apportionPass_spends hnonneg hfits hnodup (fun i hi => (hleft i).mp hi) hgo.2 hgo.1
    refine ⟨_,_,hrest,hpass.1.fits,hnodup.filter _,mem_active_pass hnonneg hfits hnodup hleft hgo,?_⟩
    obtain ⟨hzero,-⟩ | ⟨-,hfloors,-⟩ | ⟨-,-,hgiven,hspent⟩ :=
      apportionPass_cases weights hnodup hleft
    · rw [hsum] at hzero
      exact absurd hzero (not_le.mpr htotal)
    · have hfloor := hfloors k hmem
      rw [hshare] at hfloor
      exact absurd hfloor hk
    · refine ⟨fun i => by rw [hgiven,hshare,hstart]; rfl,?_⟩
      rw [hspent,leftOver]
      congr 1
      have hmin : active.map (fun i => min ⌊shareOf weights active
          (Spending.start weights.length headroom remainder) i⌋₊
          ((Spending.start weights.length headroom remainder).left i)) =
          active.map (wholeRows weights remainder) := by
        refine List.map_congr_left fun i _ => ?_
        have hcap := hcaps i
        rw [hshare,hstart]
        show min (wholeRows weights remainder i) _ = _
        omega
      rw [hmin]
      refine sum_filter fun i _ hfull => ?_
      have hcap := hcaps i
      have hzero : headroom[i]?.getD 0 = 0 := Nat.eq_zero_of_not_pos hfull
      omega

/-- The quotas are the exact shares, rounded down or up, just when down the groups with room beyond
their whole rows, as long as rows are left over, every one has a fraction to round up, and no room
for a second row or a new share below one row. -/
theorem quotaRule_iff (hweights : ∀ w ∈ weights, 0 ≤ w) (htotal : 0 < weights.sum)
    (hlen : headroom.length = weights.length)
    (hroom : ∀ i < weights.length, roundedUp weights remainder i ≤ headroom[i]?.getD 0) :
    QuotaRule weights headroom remainder ↔ OneRowEach weights (wholeRows weights remainder)
      (roundedUp weights remainder) (fun i => headroom[i]?.getD 0) (leftOver weights remainder)
      (spareGroups weights headroom remainder) := by
  have hnonneg := weightAt_nonneg hweights
  have hcaps := caps hroom
  obtain ⟨t,hrun,hquotas⟩ := apportion_run hnonneg hlen.symm remainder
  obtain ⟨active,s,hrest,hfits,hnodup,hleft,hwhole,hspent⟩ := exists_rounded hweights htotal
    hlen.symm hroom hrun
  have hperm : (spareGroups weights headroom remainder).Perm active := by
    refine (List.perm_insertionSort _ _).trans ?_
    refine (List.perm_ext_iff_of_nodup (List.nodup_range.filter _) hnodup).mpr fun i => ?_
    rw [List.mem_filter,List.mem_range,decide_eq_true_iff,hleft,hwhole]
    constructor
    · rintro ⟨-,hlt⟩
      omega
    · intro hpos
      refine ⟨?_,by omega⟩
      by_contra hi
      rw [List.getElem?_eq_none (by omega)] at hpos
      exact absurd hpos (by simp)
  have hcount := (leftOver_lt hweights htotal
    fun i => (hcaps i).2.2).2
  rw [← hspent] at hcount ⊢
  rw [← within_ceils_iff hnonneg hrest ⟨hcaps,fun i => .inl (hwhole i)⟩ hfits hnodup hleft hperm
    (List.pairwise_insertionSort _ _) hcount]
  obtain ⟨hend,-⟩ := hrest.preserves hnonneg (P := fun _ => True) (fun _ _ _ _ _ _ => trivial) hfits
    hnodup hleft trivial
  have hless := hrest.left_le hnonneg hfits hnodup hleft
  have hat : ∀ i, (apportion weights headroom remainder)[i]?.getD 0 + t.left i =
      headroom[i]?.getD 0 := by
    intro i
    rw [← hquotas]
    exact hend.at i
  constructor
  · intro hrule i
    have hcap := hcaps i
    have hi := hat i
    by_cases hin : i < weights.length
    · obtain hdown | hup := hrule i hin <;> omega
    · have hnone : headroom[i]?.getD 0 = 0 := by
        rw [List.getElem?_eq_none (by omega),Option.getD_none]
      omega
  · intro hwithin i _
    have hcap := hcaps i
    have hi := hat i
    have hup := hwithin i
    have hdown := hless i
    rw [hwhole] at hdown
    omega

end Shares

theorem quotaRule_holds : QuotaRule ([3,1,1] : List ℚ) [2,1,1] 2 :=
  have h : QuotaRule ([3,1,1] : List ℚ) [2,1,1] 2 ↔ _ :=
    quotaRule_iff (by decide +kernel) (by decide +kernel) rfl (by decide +kernel)
  h.mpr (by decide +kernel)

/-- A whole share, and the row left over by two halves goes to it. -/
theorem whole_share_is_exceeded :
    (∀ w ∈ ([2,1 / 2,1 / 2] : List ℚ), 0 ≤ w) ∧ 0 < ([2,1 / 2,1 / 2] : List ℚ).sum ∧
      (∀ i < 3, roundedUp ([2,1 / 2,1 / 2] : List ℚ) 3 i ≤ ([3,1,1] : List ℕ)[i]?.getD 0) ∧
      apportion ([2,1 / 2,1 / 2] : List ℚ) [3,1,1] 3 = [3,0,0] ∧
      ¬QuotaRule ([2,1 / 2,1 / 2] : List ℚ) [3,1,1] 3 := by
  refine ⟨by decide +kernel,by decide +kernel,by decide +kernel,by decide +kernel,?_⟩
  unfold QuotaRule
  decide +kernel

end Grpo
end DockyardRL
