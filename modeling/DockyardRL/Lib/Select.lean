import Mathlib.Data.List.Basic
import Mathlib.Data.List.Perm.Basic
import Mathlib.Tactic.Common

/-! Taking the first matching elements out of a list, and doing so by position.
`pick` is the specification; `popAll_pickIdx` shows that collecting positions
left to right and erasing them right to left computes it. -/
namespace DockyardRL
namespace Select

variable {α β : Type*}

/-- The first `k` elements satisfying `p`, and everything else in order. -/
def pick (p : α → Bool) : ℕ → List α → List α × List α
  | _, [] => ([], [])
  | 0, l => ([], l)
  | k + 1, x :: l =>
    if p x then (x :: (pick p k l).1, (pick p k l).2)
    else ((pick p (k + 1) l).1, x :: (pick p (k + 1) l).2)

@[simp] theorem pick_nil (p : α → Bool) (k : ℕ) : pick p k [] = ([], []) := by
  cases k <;> rfl

@[simp] theorem pick_zero (p : α → Bool) (l : List α) : pick p 0 l = ([], l) := by
  cases l <;> rfl

theorem pick_cons_pos {p : α → Bool} {x : α} (k : ℕ) (l : List α) (hx : p x = true) :
    pick p (k + 1) (x :: l) = (x :: (pick p k l).1, (pick p k l).2) := by
  simp [pick, hx]

theorem pick_cons_neg {p : α → Bool} {x : α} (k : ℕ) (l : List α) (hx : p x = false) :
    pick p (k + 1) (x :: l) = ((pick p (k + 1) l).1, x :: (pick p (k + 1) l).2) := by
  simp [pick, hx]

theorem pick_fst (p : α → Bool) (k : ℕ) (l : List α) : (pick p k l).1 = (l.filter p).take k := by
  induction l generalizing k with
  | nil => simp
  | cons x l ih =>
    cases k with
    | zero => simp
    | succ k => cases hx : p x <;> simp [pick, hx, ih]

theorem pick_perm (p : α → Bool) (k : ℕ) (l : List α) :
    ((pick p k l).1 ++ (pick p k l).2).Perm l := by
  induction l generalizing k with
  | nil => simp
  | cons x l ih =>
    cases k with
    | zero => simp
    | succ k =>
      cases hx : p x with
      | true => simpa [pick, hx] using ih k
      | false =>
        rw [pick_cons_neg k l hx]
        exact List.perm_middle.trans ((ih (k + 1)).cons x)

theorem pick_rest_sublist (p : α → Bool) (k : ℕ) (l : List α) : (pick p k l).2.Sublist l := by
  induction l generalizing k with
  | nil => simp
  | cons x l ih =>
    cases k with
    | zero => simp
    | succ k =>
      cases hx : p x with
      | true => rw [pick_cons_pos k l hx]; exact (ih k).cons x
      | false => rw [pick_cons_neg k l hx]; exact (ih (k + 1)).cons_cons x

theorem length_pick (p : α → Bool) {k : ℕ} {l : List α} (hk : k ≤ (l.filter p).length) :
    (pick p k l).1.length = k := by
  rw [pick_fst, List.length_take]
  omega

theorem pick_of_forall {p : α → Bool} {k : ℕ} {l : List α} (h : ∀ x ∈ l.take k, p x = true) :
    pick p k l = (l.take k,l.drop k) := by
  induction l generalizing k with
  | nil => simp
  | cons x l ih =>
    cases k with
    | zero => simp
    | succ k =>
      have hx : p x = true := h x (by simp)
      have htail := ih (k := k) fun y hy => h y (by simp [hy])
      rw [pick_cons_pos k l hx,htail,List.take_succ_cons,List.drop_succ_cons]

/-- When nothing behind the first `k` elements matches, a full pick takes exactly these. -/
theorem pick_eq_take {p : α → Bool} {k : ℕ} {l : List α} (hk : k ≤ (l.filter p).length)
    (hrest : ∀ x ∈ l.drop k, p x = false) : pick p k l = (l.take k,l.drop k) := by
  have hdrop : (l.drop k).filter p = [] := List.filter_eq_nil_iff.mpr fun x hx => by
    simp [hrest x hx]
  have hfilter : l.filter p = (l.take k).filter p := by
    conv_lhs => rw [← List.take_append_drop k l]
    rw [List.filter_append,hdrop,List.append_nil]
  have hlen : ((l.take k).filter p).length = (l.take k).length := by
    have h₁ := List.length_filter_le p (l.take k)
    have h₂ := List.length_take_le k l
    rw [hfilter] at hk
    omega
  exact pick_of_forall fun x hx => List.length_filter_eq_length_iff.mp hlen x hx

/-- The positions, counted from `i`, of the elements satisfying `p`. -/
def matchIdx (p : α → Bool) (i : ℕ) (l : List α) : List ℕ :=
  ((l.zipIdx i).filter fun x => p x.1).map Prod.snd

@[simp] theorem matchIdx_nil (p : α → Bool) (i : ℕ) : matchIdx p i [] = [] := rfl

theorem matchIdx_cons (p : α → Bool) (i : ℕ) (x : α) (l : List α) :
    matchIdx p i (x :: l) = if p x then i :: matchIdx p (i + 1) l else matchIdx p (i + 1) l := by
  cases hx : p x <;> simp [matchIdx, hx]

@[simp] theorem length_matchIdx (p : α → Bool) (i : ℕ) (l : List α) :
    (matchIdx p i l).length = (l.filter p).length := by
  induction l generalizing i with
  | nil => rfl
  | cons x l ih => cases hx : p x <;> simp [matchIdx_cons, hx, ih]

theorem matchIdx_succ (p : α → Bool) (i : ℕ) (l : List α) :
    matchIdx p (i + 1) l = (matchIdx p i l).map (· + 1) := by
  induction l generalizing i with
  | nil => rfl
  | cons x l ih => cases hx : p x <;> simp [matchIdx_cons, hx, ih]

theorem mem_matchIdx {p : α → Bool} {i j : ℕ} {l : List α} (h : j ∈ matchIdx p i l) :
    i ≤ j ∧ j < i + l.length := by
  induction l generalizing i with
  | nil => simp at h
  | cons x l ih =>
    rw [matchIdx_cons] at h
    have htail : ∀ hj : j ∈ matchIdx p (i + 1) l, i ≤ j ∧ j < i + (x :: l).length := by
      intro hj
      have := ih hj
      simp only [List.length_cons]
      omega
    cases hx : p x with
    | false => exact htail (by simpa [hx] using h)
    | true =>
      rcases List.mem_cons.mp (by simpa [hx] using h) with rfl | hj
      · simp
      · exact htail hj

theorem matchIdx_sorted (p : α → Bool) (i : ℕ) (l : List α) :
    (matchIdx p i l).Pairwise (· < ·) := by
  induction l generalizing i with
  | nil => simp
  | cons x l ih =>
    rw [matchIdx_cons]
    cases hx : p x with
    | false => simpa using ih (i + 1)
    | true =>
      simp only [if_true, List.pairwise_cons]
      exact ⟨fun j hj => by have := (mem_matchIdx hj).1; omega, ih (i + 1)⟩

/-- Filtering positions by a second column is matching on both columns at once. -/
theorem matchIdx_filter (p : α → Bool) (q : ℕ → Bool) (r : α → Bool) (l : List α)
    (hq : ∀ j (hj : j < l.length), q j = r l[j]) :
    (matchIdx p 0 l).filter q = matchIdx (fun x => p x && r x) 0 l := by
  suffices h : ∀ i, (∀ j (hj : j < l.length), q (i + j) = r l[j]) →
      (matchIdx p i l).filter q = matchIdx (fun x => p x && r x) i l from
    h 0 (by simpa using hq)
  clear hq
  induction l with
  | nil => simp
  | cons x l ih =>
    intro i hi
    have h0 : q i = r x := hi 0 (by simp)
    have htail := ih (i + 1) fun j hj => by
      have := hi (j + 1) (by simpa using hj)
      simpa [Nat.add_assoc, Nat.add_comm 1] using this
    cases hx : p x <;> cases hr : r x <;> simp [matchIdx_cons, hx, hr, h0, htail]

def popAll (is : List ℕ) (l : List α) : List α := is.reverse.foldl (fun l i => l.eraseIdx i) l

theorem popAll_cons (i : ℕ) (is : List ℕ) (l : List α) :
    popAll (i :: is) l = (popAll is l).eraseIdx i := by
  simp [popAll]

theorem popAll_succ (is : List ℕ) (x : α) (l : List α) :
    popAll (is.map (· + 1)) (x :: l) = x :: popAll is l := by
  induction is with
  | nil => rfl
  | cons i is ih => simp [popAll_cons, ih]

theorem popAll_map (f : α → β) (is : List ℕ) (l : List α) :
    popAll is (l.map f) = (popAll is l).map f := by
  induction is with
  | nil => rfl
  | cons i is ih => rw [popAll_cons, popAll_cons, ih, List.eraseIdx_map]

/-- Reading the first `k` matching positions gives the picked elements. -/
theorem filterMap_matchIdx (p : α → Bool) (k : ℕ) (l : List α) :
    ((matchIdx p 0 l).take k).filterMap (l[·]?) = (pick p k l).1 := by
  induction l generalizing k with
  | nil => simp
  | cons x l ih =>
    cases k with
    | zero => simp
    | succ k =>
      have hstep (n : ℕ) : (((matchIdx p 0 l).map (· + 1)).take n).filterMap ((x :: l)[·]?) =
          (pick p n l).1 := by
        rw [← List.map_take, List.filterMap_map, ← ih n]
        rfl
      rw [matchIdx_cons, matchIdx_succ]
      cases hx : p x with
      | true => simpa [pick_cons_pos k l hx] using hstep k
      | false => simpa [pick_cons_neg k l hx] using hstep (k + 1)

/-- Erasing the first `k` matching positions leaves the rest of the pick. -/
theorem popAll_matchIdx (p : α → Bool) (k : ℕ) (l : List α) :
    popAll ((matchIdx p 0 l).take k) l = (pick p k l).2 := by
  induction l generalizing k with
  | nil => simp [popAll]
  | cons x l ih =>
    cases k with
    | zero => simp [popAll]
    | succ k =>
      rw [matchIdx_cons, matchIdx_succ]
      cases hx : p x with
      | true =>
        rw [pick_cons_pos k l hx, if_pos rfl, List.take_succ_cons, popAll_cons, ← List.map_take,
          popAll_succ, ih k]
        rfl
      | false =>
        rw [pick_cons_neg k l hx, if_neg (by simp), ← List.map_take, popAll_succ, ih (k + 1)]

end Select
end DockyardRL
