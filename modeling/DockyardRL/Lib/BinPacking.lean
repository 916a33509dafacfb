import Mathlib.Data.List.Perm.Basic
import Mathlib.Data.List.Dedup
import Mathlib.Algebra.Ring.Nat
import Mathlib.Algebra.BigOperators.Group.List.Basic
import Mathlib.Tactic.Common

/-! Packings: nonempty packs that hold every item exactly once. A packing grows
by opening a pack, by adding to one, and by putting a finished pack in front. -/
namespace DockyardRL
namespace BinPacking

variable {ι : Type*}

/-- The packs hold the items, each item once, and no pack is empty. -/
structure Packs (items : List ι) (packs : List (List ι)) : Prop where
  nonempty : ∀ p ∈ packs, p ≠ []
  perm : packs.flatten.Perm items

def load (weight : ι → ℕ) (p : List ι) : ℕ := (p.map weight).sum

@[simp] theorem load_append (weight : ι → ℕ) (p q : List ι) :
    load weight (p ++ q) = load weight p + load weight q := by
  simp [load]

@[simp] theorem load_singleton (weight : ι → ℕ) (x : ι) : load weight [x] = weight x := by
  simp [load]

/-- No pack exceeds the capacity. -/
def Fits (weight : ι → ℕ) (capacity : ℕ) (packs : List (List ι)) : Prop :=
  ∀ p ∈ packs, load weight p ≤ capacity

variable {items : List ι} {packs : List (List ι)} {weight : ι → ℕ} {capacity : ℕ}

theorem Packs.nil : Packs ([] : List ι) [] := ⟨by simp,by simp⟩

/-- Open a pack behind the others. -/
theorem Packs.snoc (h : Packs items packs) {p : List ι} (hp : p ≠ []) :
    Packs (items ++ p) (packs ++ [p]) := by
  refine ⟨?_,?_⟩
  · intro q hq
    rcases List.mem_append.mp hq with hq | hq
    · exact h.nonempty q hq
    · rw [List.mem_singleton.mp hq]
      exact hp
  · rw [List.flatten_append,List.flatten_singleton]
    exact h.perm.append_right p

/-- Put a finished pack in front of a packing of the rest. -/
theorem Packs.cons {rest p : List ι} (h : Packs rest packs) (hp : p ≠ [])
    (hperm : (p ++ rest).Perm items) : Packs items (p :: packs) := by
  refine ⟨?_,?_⟩
  · intro q hq
    rcases List.mem_cons.mp hq with rfl | hq
    · exact hp
    · exact h.nonempty q hq
  · rw [List.flatten_cons]
    exact (h.perm.append_left p).trans hperm

theorem mem_modify {f : List ι → List ι} {k : ℕ} {q : List ι} (hk : k < packs.length)
    (hq : q ∈ packs.modify k f) : q ∈ packs ∨ q = f packs[k] := by
  rw [List.modify_eq_take_cons_drop hk,List.mem_append,List.mem_cons] at hq
  rcases hq with hq | rfl | hq
  · exact .inl (List.mem_of_mem_take hq)
  · exact .inr rfl
  · exact .inl (List.mem_of_mem_drop hq)

theorem modify_last (f : List ι → List ι) (packs : List (List ι)) (p : List ι) :
    (packs ++ [p]).modify packs.length f = packs ++ [f p] := by
  induction packs with
  | nil => rfl
  | cons q packs ih =>
    rw [List.cons_append,List.length_cons,List.modify_succ_cons,ih,List.cons_append]

/-- Add one item to pack `k`. -/
theorem Packs.addTo (h : Packs items packs) {k : ℕ} (hk : k < packs.length) (x : ι) :
    Packs (items ++ [x]) (packs.modify k (· ++ [x])) := by
  refine ⟨?_,?_⟩
  · intro q hq
    rcases mem_modify hk hq with hq | rfl
    · exact h.nonempty q hq
    · simp
  · have hsplit : packs.take k ++ packs[k] :: packs.drop (k + 1) = packs := by
      rw [List.cons_getElem_drop_succ,List.take_append_drop]
    have hmove : ([x] ++ (packs.drop (k + 1)).flatten).Perm
        ((packs.drop (k + 1)).flatten ++ [x]) := List.perm_append_comm
    have hadd : (packs.modify k (· ++ [x])).flatten.Perm (packs.flatten ++ [x]) := by
      conv_rhs => rw [← hsplit]
      rw [List.modify_eq_take_cons_drop hk]
      simp only [List.flatten_append,List.flatten_cons,List.append_assoc]
      exact (hmove.append_left _).append_left _
    exact hadd.trans (h.perm.append_right [x])

theorem Fits.snoc (h : Fits weight capacity packs) {p : List ι} (hp : load weight p ≤ capacity) :
    Fits weight capacity (packs ++ [p]) := by
  intro q hq
  rcases List.mem_append.mp hq with hq | hq
  · exact h q hq
  · rw [List.mem_singleton.mp hq]
    exact hp

theorem Fits.cons (h : Fits weight capacity packs) {p : List ι} (hp : load weight p ≤ capacity) :
    Fits weight capacity (p :: packs) := by
  intro q hq
  rcases List.mem_cons.mp hq with rfl | hq
  · exact hp
  · exact h q hq

theorem Fits.addTo (h : Fits weight capacity packs) {k : ℕ} (hk : k < packs.length) {x : ι}
    (hroom : load weight packs[k] + weight x ≤ capacity) :
    Fits weight capacity (packs.modify k (· ++ [x])) := by
  intro q hq
  rcases mem_modify hk hq with hq | rfl
  · exact h q hq
  · rw [load_append,load_singleton]
    exact hroom

/-- Packings of a rearranged list are the same packings. -/
theorem Packs.congr (h : Packs items packs) {items' : List ι} (hperm : items.Perm items') :
    Packs items' packs := ⟨h.nonempty,h.perm.trans hperm⟩

/-- Taking a duplicate-free selection out of a duplicate-free list. -/
theorem perm_append_filter_not [DecidableEq ι] {p : List ι} (hitems : items.Nodup) (hp : p.Nodup)
    (hsub : ∀ x ∈ p, x ∈ items) : (p ++ items.filter fun x => x ∉ p).Perm items := by
  have hfilter : (items.filter fun x => decide (x ∈ p)).Perm p := by
    rw [List.perm_ext_iff_of_nodup (hitems.filter _) hp]
    intro x
    simp only [List.mem_filter,decide_eq_true_eq,and_iff_right_iff_imp]
    exact hsub x
  have hsplit := List.filter_append_perm (fun x => decide (x ∈ p)) items
  simp only [← decide_not] at hsplit
  exact (hfilter.symm.append_right _).trans hsplit

/-- No two packs fit into one. -/
def Unmergeable (weight : ι → ℕ) (capacity : ℕ) (packs : List (List ι)) : Prop :=
  packs.Pairwise fun p q => capacity < load weight p + load weight q

theorem Unmergeable.nil : Unmergeable weight capacity ([] : List (List ι)) := List.Pairwise.nil

/-- A pack is opened only when its first item fits nowhere. -/
theorem Unmergeable.snoc (h : Unmergeable weight capacity packs) {q : List ι}
    (hfull : ∀ p ∈ packs, capacity < load weight p + load weight q) :
    Unmergeable weight capacity (packs ++ [q]) := by
  refine List.pairwise_append.mpr ⟨h,List.pairwise_singleton _ _,fun p hp r hr => ?_⟩
  rw [List.mem_singleton.mp hr]
  exact hfull p hp

/-- Packs only get heavier. -/
theorem Unmergeable.addTo (h : Unmergeable weight capacity packs) (k : ℕ) (x : ι) :
    Unmergeable weight capacity (packs.modify k (· ++ [x])) := by
  induction packs generalizing k with
  | nil => simpa using h
  | cons p packs ih =>
    obtain ⟨hp,hrest⟩ := List.pairwise_cons.mp h
    cases k with
    | zero =>
      rw [List.modify_zero_cons]
      refine List.pairwise_cons.mpr ⟨fun q hq => ?_,hrest⟩
      have hlt := hp q hq
      rw [load_append]
      omega
    | succ k =>
      rw [List.modify_succ_cons]
      refine List.pairwise_cons.mpr ⟨fun q hq => ?_,ih hrest k⟩
      by_cases hk : k < packs.length
      · rcases mem_modify hk hq with hq | rfl
        · exact hp q hq
        · have hlt := hp packs[k] (List.getElem_mem hk)
          rw [load_append]
          omega
      · rw [List.modify_eq_self (by omega)] at hq
        exact hp q hq

theorem count_two_more {n total a b : ℕ} (hpair : capacity < a + b)
    (hrest : (n - 1) * capacity ≤ 2 * total) : (n + 1) * capacity < 2 * (a + (b + total)) := by
  have hcount : (n + 1) * capacity ≤ (n - 1) * capacity + 2 * capacity := by
    rw [← Nat.add_mul]
    exact Nat.mul_le_mul_right capacity (by omega)
  omega

theorem Unmergeable.count_le {packs : List (List ι)} (h : Unmergeable weight capacity packs) :
    (packs.length - 1) * capacity ≤ 2 * (packs.map (load weight)).sum := by
  match packs with
  | [] => simp
  | [p] => simp
  | p :: q :: rest =>
    obtain ⟨hp,hq⟩ := List.pairwise_cons.mp h
    have hrest := Unmergeable.count_le (List.pairwise_cons.mp hq).2
    exact (count_two_more (hp q List.mem_cons_self) hrest).le

/-- All packs but one are on average half full. -/
theorem Unmergeable.count_lt (h : Unmergeable weight capacity packs) (htwo : 2 ≤ packs.length) :
    (packs.length - 1) * capacity < 2 * (packs.map (load weight)).sum := by
  match packs with
  | p :: q :: rest =>
    obtain ⟨hp,hq⟩ := List.pairwise_cons.mp h
    exact count_two_more (hp q List.mem_cons_self) (Unmergeable.count_le (List.pairwise_cons.mp hq).2)

theorem sum_load_flatten (weight : ι → ℕ) (packs : List (List ι)) :
    (packs.map (load weight)).sum = load weight packs.flatten := by
  induction packs with
  | nil => rfl
  | cons p packs ih => rw [List.map_cons,List.sum_cons,List.flatten_cons,load_append,ih]

/-- The packs weigh as much as the items. -/
theorem Packs.sum_load (h : Packs items packs) (weight : ι → ℕ) :
    (packs.map (load weight)).sum = load weight items := by
  rw [sum_load_flatten]
  exact (h.perm.map weight).sum_eq

end BinPacking
end DockyardRL
