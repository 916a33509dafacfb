import Mathlib.Data.List.Sort
import Mathlib.Data.List.Nodup
import Mathlib.Order.Basic
import Mathlib.Data.Prod.Lex
import Mathlib.Tactic.Common

/-! Stable sorting by a key.

Elements that stand together in a list, and what a list in a strict order has first. -/
namespace DockyardRL
namespace SortByKey

variable {α κ : Type*} [LinearOrder κ] (key : α → κ)

def sortByKey (l : List α) : List α := l.insertionSort fun a b => key a ≤ key b

theorem sortByKey_perm (l : List α) : (sortByKey key l).Perm l := List.perm_insertionSort _ l

theorem pairwise_sortByKey (l : List α) : (sortByKey key l).Pairwise fun a b => key a ≤ key b := by
  have htotal : Std.Total fun a b : α => key a ≤ key b := ⟨fun a b => le_total (key a) (key b)⟩
  have htrans : IsTrans α fun a b => key a ≤ key b := ⟨fun _ _ _ hab hbc => hab.trans hbc⟩
  exact List.pairwise_insertionSort _ l

/-- What is not to come before an element does not. -/
theorem exists_split_of_pairwise {r : α → α → Prop} {l : List α} (h : l.Pairwise r) {a b : α}
    (ha : a ∈ l) (hab : ¬r b a) : ∃ p q, l = p ++ a :: q ∧ b ∉ p := by
  obtain ⟨p,q,rfl⟩ := List.append_of_mem ha
  exact ⟨p,q,rfl,fun hb => hab ((List.pairwise_append.mp h).2.2 b hb a List.mem_cons_self)⟩

/-- Down an order that a property follows, those with the property come first. -/
theorem exists_split_of_downward {r : α → α → Prop} {P : α → Prop} {l : List α} (h : l.Pairwise r)
    (hdown : ∀ a b, r a b → P b → P a) :
    ∃ p q, l = p ++ q ∧ (∀ a ∈ p, P a) ∧ ∀ a ∈ q, ¬P a := by
  induction l with
  | nil => exact ⟨[],[],rfl,fun _ h => absurd h List.not_mem_nil,fun _ h => absurd h List.not_mem_nil⟩
  | cons a l ih =>
    obtain ⟨ha,hl⟩ := List.pairwise_cons.mp h
    by_cases hP : P a
    · obtain ⟨p,q,rfl,hp,hq⟩ := ih hl
      exact ⟨a :: p,q,rfl,List.forall_mem_cons.mpr ⟨hP,hp⟩,hq⟩
    · refine ⟨[],a :: l,rfl,fun _ h => absurd h List.not_mem_nil,?_⟩
      exact List.forall_mem_cons.mpr ⟨hP,fun b hb hPb => hP (hdown a b (ha b hb) hPb)⟩

variable {key}

/-- A list in order whose keys differ is what sorting gives. -/
theorem sortByKey_eq {l m : List α} (hperm : l.Perm m) (hm : m.Pairwise fun a b => key a ≤ key b)
    (hkeys : ∀ a ∈ m, ∀ b ∈ m, key a = key b → a = b) : sortByKey key l = m := by
  have hsame := (sortByKey_perm key l).trans hperm
  refine hsame.eq_of_pairwise (fun a b ha hb hab hba => ?_) (pairwise_sortByKey key l) hm
  exact hkeys a (hsame.mem_iff.mp ha) b hb (le_antisymm hab hba)

/-- The first elements of an order are those with few elements before them. -/
theorem mem_take_iff {l : List α} (h : l.Pairwise fun a b => key a < key b) {k : ℕ} {a : α} :
    a ∈ l.take k ↔ a ∈ l ∧ l.countP (fun b => decide (key b < key a)) < k := by
  induction l generalizing k with
  | nil => simp
  | cons b l ih =>
    obtain ⟨hb,hl⟩ := List.pairwise_cons.mp h
    cases k with
    | zero => simp
    | succ k =>
      rw [List.take_succ_cons,List.mem_cons,List.mem_cons,ih hl,List.countP_cons]
      constructor
      · rintro (rfl | ⟨hmem,hcount⟩)
        · have hnone : l.countP (fun c => decide (key c < key a)) = 0 :=
            List.countP_eq_zero.mpr fun c hc => by
              simpa using le_of_lt (hb c hc)
          exact ⟨.inl rfl,by simp [hnone]⟩
        · exact ⟨.inr hmem,by
            rw [if_pos (decide_eq_true (hb a hmem))]
            omega⟩
      · rintro ⟨rfl | hmem,hcount⟩
        · exact .inl rfl
        · rw [if_pos (decide_eq_true (hb a hmem))] at hcount
          exact .inr ⟨hmem,by omega⟩

section Buckets

variable {key : α → ℕ}

def buckets (key : α → ℕ) (n : ℕ) (l : List α) : List α :=
  (List.range n).flatMap fun k => l.filter fun a => key a = k

theorem orderedInsert_append {a : α} {front behind : List α} (hfront : ∀ b ∈ front, key b < key a)
    (hbehind : ∀ b ∈ behind, key a ≤ key b) :
    (front ++ behind).orderedInsert (fun x y => key x ≤ key y) a = front ++ a :: behind := by
  induction front with
  | nil =>
    cases behind with
    | nil => rfl
    | cons b behind =>
      rw [List.nil_append,List.orderedInsert_cons,if_pos (hbehind b List.mem_cons_self)]
      rfl
  | cons b front ih =>
    have hlt : ¬ key a ≤ key b := Nat.not_le.mpr (hfront b List.mem_cons_self)
    rw [List.cons_append,List.orderedInsert_cons,if_neg hlt,
      ih fun c hc => hfront c (List.mem_cons_of_mem b hc)]
    rfl

/-- Sorting by a bounded number lays out the buckets. -/
theorem sortByKey_eq_buckets {n : ℕ} {l : List α} (hl : ∀ a ∈ l, key a < n) :
    sortByKey key l = buckets key n l := by
  induction l with
  | nil =>
    rw [buckets]
    simp [sortByKey]
  | cons a l ih =>
    have ha := hl a List.mem_cons_self
    have hsplit : ∀ m : List α, buckets key n m = buckets key (key a) m ++
        (List.range' (key a) (n - key a)).flatMap fun k => m.filter fun b => key b = k := by
      intro m
      have hrange : List.range n = List.range (key a) ++ List.range' (key a) (n - key a) := by
        have happend := @List.range'_append_1 0 (key a) (n - key a)
        rw [Nat.zero_add,Nat.add_sub_cancel' (Nat.le_of_lt ha)] at happend
        rw [List.range_eq_range',List.range_eq_range',happend]
      rw [buckets,buckets,hrange,List.flatMap_append]
    have hcons : List.range' (key a) (n - key a) =
        key a :: List.range' (key a + 1) (n - key a - 1) := by
      obtain ⟨d,hd⟩ := Nat.exists_eq_succ_of_ne_zero (Nat.sub_ne_zero_of_lt ha)
      rw [hd,List.range'_succ]
      rfl
    have hfront : buckets key (key a) (a :: l) = buckets key (key a) l := by
      rw [buckets,buckets]
      refine List.flatMap_congr fun k hk => ?_
      rw [List.filter_cons_of_neg (by simpa using (Nat.ne_of_gt (List.mem_range.mp hk)))]
    have hbehind : ((List.range' (key a + 1) (n - key a - 1)).flatMap fun k =>
        (a :: l).filter fun b => key b = k) =
          (List.range' (key a + 1) (n - key a - 1)).flatMap fun k => l.filter fun b => key b = k := by
      refine List.flatMap_congr fun k hk => ?_
      have hlt := (List.mem_range'_1.mp hk).1
      rw [List.filter_cons_of_neg (by simpa using (by omega : ¬ key a = k))]
    rw [sortByKey,List.insertionSort_cons]
    show List.orderedInsert _ a (sortByKey key l) = _
    rw [ih fun b hb => hl b (List.mem_cons_of_mem a hb),hsplit l,hsplit (a :: l),hfront,
      orderedInsert_append,hcons,List.flatMap_cons,List.flatMap_cons,hbehind,
      List.filter_cons_of_pos (by simp)]
    · rfl
    · intro b hb
      obtain ⟨k,hk,hmem⟩ := List.mem_flatMap.mp hb
      have hkey : key b = k := by simpa using (List.mem_filter.mp hmem).2
      rw [hkey]
      exact List.mem_range.mp hk
    · intro b hb
      obtain ⟨k,hk,hmem⟩ := List.mem_flatMap.mp hb
      have hkey : key b = k := by simpa using (List.mem_filter.mp hmem).2
      rw [hkey]
      exact (List.mem_range'_1.mp hk).1

end Buckets

end SortByKey

namespace Consecutive

open SortByKey

variable {α κ : Type*}

/-- Between two elements with the property every element has it. -/
def Together (p : α → Prop) (l : List α) : Prop :=
  ∀ a b c, [a,b,c].Sublist l → p a → p c → p b

/-- What lies between two pairs with one first component has it as well. -/
theorem lex_between_iff {β : Type*} [LinearOrder κ] [LinearOrder β] {k k' : κ} {a b c : β} :
    (toLex (k,a) < toLex (k',b) ∧ toLex (k',b) < toLex (k,c)) ↔ k' = k ∧ a < b ∧ b < c := by
  rw [Prod.Lex.toLex_lt_toLex,Prod.Lex.toLex_lt_toLex]
  constructor
  · rintro ⟨hlt | ⟨rfl,hab⟩,hlt' | ⟨heq,hbc⟩⟩
    · exact absurd (hlt.trans hlt') (lt_irrefl _)
    · exact absurd (heq ▸ hlt) (lt_irrefl _)
    · exact absurd hlt' (lt_irrefl _)
    · exact ⟨rfl,hab,hbc⟩
  · rintro ⟨rfl,hab,hbc⟩
    exact ⟨.inr ⟨rfl,hab⟩,.inr ⟨rfl,hbc⟩⟩

section Ordered

variable [LinearOrder κ] {key : α → κ} {l : List α}

theorem nodup_of_pairwise_lt (h : l.Pairwise fun a b => key a < key b) : l.Nodup :=
  h.imp fun hlt heq => (heq ▸ hlt).false

theorem triple_sublist_iff (h : l.Pairwise fun a b => key a < key b) {a b c : α} :
    [a,b,c].Sublist l ↔ (a ∈ l ∧ b ∈ l ∧ c ∈ l) ∧ key a < key b ∧ key b < key c := by
  constructor
  · intro hsub
    have hpairs := h.sublist hsub
    simp only [List.pairwise_cons,List.mem_cons,forall_eq_or_imp] at hpairs
    exact ⟨⟨hsub.subset (by simp),hsub.subset (by simp),hsub.subset (by simp)⟩,
      hpairs.1.1,hpairs.2.1.1⟩
  · rintro ⟨⟨ha,hb,hc⟩,hab,hbc⟩
    have hnodup : [a,b,c].Nodup := by
      simp only [List.nodup_cons,List.mem_cons,not_or,List.not_mem_nil,not_false_eq_true,
        List.nodup_nil,and_true]
      refine ⟨⟨?_,?_⟩,?_⟩
      · rintro rfl
        exact hab.false
      · rintro rfl
        exact (hab.trans hbc).false
      · rintro rfl
        exact hbc.false
    have hsubset : [a,b,c] ⊆ l := by
      intro x hx
      simp only [List.mem_cons,List.not_mem_nil,or_false] at hx
      rcases hx with rfl | rfl | rfl <;> assumption
    have hpairs : [a,b,c].Pairwise fun x y => key x < key y := by simp [hab,hbc,hab.trans hbc]
    have hanti : Std.Antisymm fun x y : α => key x < key y :=
      ⟨fun x y hxy hyx => absurd (hxy.trans hyx) (lt_irrefl _)⟩
    exact List.sublist_of_subperm_of_pairwise (List.subperm_of_subset hnodup hsubset) hpairs h

theorem together_iff (h : l.Pairwise fun a b => key a < key b) {p : α → Prop} :
    Together p l ↔ ∀ a ∈ l, ∀ b ∈ l, ∀ c ∈ l, key a < key b → key b < key c → p a → p c → p b := by
  constructor
  · intro htogether a ha b hb c hc hab hbc
    exact htogether a b c ((triple_sublist_iff h).mpr ⟨⟨ha,hb,hc⟩,hab,hbc⟩)
  · intro hbetween a b c hsub
    obtain ⟨⟨ha,hb,hc⟩,hab,hbc⟩ := (triple_sublist_iff h).mp hsub
    exact hbetween a ha b hb c hc hab hbc

/-- The first elements are those with a property when there are as many and they come first. -/
theorem take_eq_filter_iff (h : l.Pairwise fun a b => key a < key b) {p : α → Prop}
    [DecidablePred p] {m : ℕ} :
    l.take m = l.filter p ↔
      l.countP p = min m l.length ∧ ∀ a ∈ l, ∀ b ∈ l, p a → ¬p b → key a < key b := by
  constructor
  · intro heq
    refine ⟨by rw [List.countP_eq_length_filter,← heq,List.length_take],?_⟩
    intro a ha b hb hpa hpb
    rw [← List.take_append_drop m l] at h hb
    have hfirst : a ∈ l.take m := heq ▸ List.mem_filter.mpr ⟨ha,decide_eq_true hpa⟩
    refine (List.pairwise_append.mp h).2.2 a hfirst b ((List.mem_append.mp hb).resolve_left ?_)
    intro hb
    rw [heq] at hb
    exact hpb (of_decide_eq_true (List.mem_filter.mp hb).2)
  · rintro ⟨hcount,horder⟩
    have hdown : l.Pairwise fun a b => p b → p a := by
      refine h.imp_of_mem fun ha hb hlt hpb => ?_
      by_contra hpa
      exact (hlt.trans (horder _ hb _ ha hpb hpa)).false
    obtain ⟨first,rest,rfl,hfirst,hrest⟩ := exists_split_of_downward hdown fun _ _ himp => himp
    have hfilter : (first ++ rest).filter p = first := by
      rw [List.filter_append,List.filter_eq_self.mpr fun a ha => decide_eq_true (hfirst a ha),
        List.filter_eq_nil_iff.mpr fun a ha hpa => hrest a ha (of_decide_eq_true hpa),List.append_nil]
    rw [List.countP_eq_length_filter,hfilter,List.length_append] at hcount
    rw [hfilter]
    by_cases hm : m = first.length
    · rw [hm,List.take_left]
    · have hnil : rest = [] := List.length_eq_zero_iff.mp (by omega)
      rw [hnil,List.append_nil]
      exact List.take_of_length_le (by omega)

/-- The first elements are those with a property when they are known by it. -/
theorem take_eq_filter_of_mem (h : l.Pairwise fun a b => key a < key b) {p : α → Prop}
    [DecidablePred p] {m : ℕ} (hmem : ∀ a ∈ l, a ∈ l.take m ↔ p a) : l.take m = l.filter p := by
  have hanti : Std.Antisymm fun x y : α => key x < key y :=
    ⟨fun x y hxy hyx => absurd (hxy.trans hyx) (lt_irrefl _)⟩
  have hirrefl : Std.Irrefl fun x y : α => key x < key y := ⟨fun x => lt_irrefl _⟩
  refine List.Subset.antisymm_of_pairwise (r := fun x y : α => key x < key y)
    (h.sublist (List.take_sublist m l)) (h.sublist List.filter_sublist) ?_ ?_
  · intro a ha
    have hl := List.mem_of_mem_take ha
    exact List.mem_filter.mpr ⟨hl,decide_eq_true ((hmem a hl).mp ha)⟩
  · intro a ha
    obtain ⟨hl,hp⟩ := List.mem_filter.mp ha
    exact (hmem a hl).mpr (of_decide_eq_true hp)

theorem pairwise_orderedInsert {P : α → α → Prop} {a : α} (ha : ∀ b ∈ l, P a b)
    (h : l.Pairwise fun b c => key b < key c ∨ key b = key c ∧ P b c) :
    (l.orderedInsert (fun b c => key b ≤ key c) a).Pairwise
      fun b c => key b < key c ∨ key b = key c ∧ P b c := by
  induction l with
  | nil => simp
  | cons b l ih =>
    obtain ⟨hb,hpairs⟩ := List.pairwise_cons.mp h
    rw [List.orderedInsert_cons]
    split_ifs with hle
    · refine List.pairwise_cons.mpr ⟨fun c hc => ?_,h⟩
      have hbc : key b ≤ key c := by
        rcases List.mem_cons.mp hc with rfl | hc
        · exact le_refl _
        · exact (hb c hc).elim le_of_lt fun heq => heq.1.le
      exact (hle.trans hbc).lt_or_eq.imp_right fun heq => ⟨heq,ha c hc⟩
    · refine List.pairwise_cons.mpr ⟨fun c hc => ?_,ih (List.forall_mem_cons.mp ha).2 hpairs⟩
      rcases List.mem_cons.mp ((List.perm_orderedInsert _ a l).mem_iff.mp hc) with rfl | hc
      · exact .inl (not_le.mp hle)
      · exact hb c hc

/-- Sorting keeps what holds of earlier and later elements whose keys are equal. -/
theorem pairwise_sortByKey_of_pairwise {P : α → α → Prop} (h : l.Pairwise P) :
    (sortByKey key l).Pairwise fun a b => key a < key b ∨ key a = key b ∧ P a b := by
  induction l with
  | nil => exact List.Pairwise.nil
  | cons a l ih =>
    obtain ⟨ha,hl⟩ := List.pairwise_cons.mp h
    exact pairwise_orderedInsert (fun b hb => ha b ((sortByKey_perm key l).mem_iff.mp hb)) (ih hl)

end Ordered
end Consecutive
end DockyardRL
