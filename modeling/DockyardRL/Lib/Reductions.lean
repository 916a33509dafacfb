import Mathlib.Data.List.ReduceOption
import Mathlib.Order.MinMax
import Mathlib.Order.OrderDual
import Mathlib.Algebra.Order.BigOperators.Group.List
import Mathlib.Algebra.BigOperators.Ring.List
import Mathlib.Algebra.Order.Field.Basic
import Mathlib.Tactic.FieldSimp
import Mathlib.Tactic.Ring
import Mathlib.Algebra.BigOperators.Group.List.Basic
import Mathlib.Algebra.Field.Basic
import Mathlib.Tactic.Common
import Mathlib.Order.Lattice.Nat
import Mathlib.Order.WithBot
import Mathlib.Tactic.Linarith

/-! Mean and variance of lists: the mean of the squares less the square of the mean is the mean
squared deviation, and vanishes exactly for lists whose elements are all equal.

Softmax over an exponential that is only known by its laws: shifts of the logits, and the shortest
front of a list of weights that reaches a mass. -/
namespace DockyardRL
namespace Variance

variable {K : Type*}

def AllEqual (l : List K) : Prop := ∀ x ∈ l, ∀ y ∈ l, x = y

instance [DecidableEq K] (l : List K) : Decidable (AllEqual l) :=
  inferInstanceAs (Decidable (∀ x ∈ l, ∀ y ∈ l, x = y))

theorem allEqual_of_length_le_one {l : List K} (h : l.length ≤ 1) : AllEqual l := by
  match l,h with
  | [],_ => simp [AllEqual]
  | [x],_ => simp [AllEqual]

theorem allEqual_of_sublist {l m : List K} (h : l.Sublist m) (hm : AllEqual m) : AllEqual l :=
  fun x hx y hy => hm x (h.subset hx) y (h.subset hy)

variable [Field K]

def mean (l : List K) : K := l.sum / l.length

def variance (l : List K) : K := mean (l.map (· ^ 2)) - mean l ^ 2

theorem sum_deviations_sq (l : List K) (c : K) :
    (l.map fun x => (x - c) ^ 2).sum = (l.map (· ^ 2)).sum - 2 * c * l.sum + l.length * c ^ 2 := by
  induction l with
  | nil => simp
  | cons x l ih =>
    rw [List.map_cons,List.sum_cons,ih,List.map_cons,List.sum_cons,List.sum_cons,List.length_cons,
      Nat.cast_succ]
    ring

theorem sum_of_const {l : List K} {c : K} (h : ∀ x ∈ l, x = c) : l.sum = l.length * c := by
  rw [List.eq_replicate_of_mem h,List.sum_replicate,List.length_replicate,nsmul_eq_mul]

variable [LinearOrder K] [IsStrictOrderedRing K]

theorem variance_eq {l : List K} (hl : l ≠ []) :
    variance l = mean (l.map fun x => (x - mean l) ^ 2) := by
  have hn : (l.length : K) ≠ 0 := by simpa using hl
  rw [variance,mean,mean,mean,sum_deviations_sq,List.length_map,List.length_map]
  field_simp
  ring

theorem variance_nonneg {l : List K} (hl : l ≠ []) : 0 ≤ variance l := by
  rw [variance_eq hl]
  refine div_nonneg (List.sum_nonneg fun y hy => ?_) (Nat.cast_nonneg _)
  obtain ⟨x,-,rfl⟩ := List.mem_map.mp hy
  exact sq_nonneg _

theorem variance_eq_zero_iff {l : List K} (hl : l ≠ []) : variance l = 0 ↔ AllEqual l := by
  have hn : (l.length : K) ≠ 0 := by simpa using hl
  constructor
  · intro hzero
    rw [variance_eq hl,mean,List.length_map,div_eq_zero_iff,or_iff_left hn] at hzero
    have hall : ∀ x ∈ l, x = mean l := by
      intro x hx
      have hterm := List.all_zero_of_le_zero_le_of_sum_eq_zero (l := l.map fun x => (x - mean l) ^ 2)
        (fun y hy => by
          obtain ⟨z,-,rfl⟩ := List.mem_map.mp hy
          exact sq_nonneg _) hzero (List.mem_map_of_mem hx)
      exact sub_eq_zero.mp (pow_eq_zero_iff two_ne_zero |>.mp hterm)
    exact fun x hx y hy => (hall x hx).trans (hall y hy).symm
  · intro hequal
    obtain ⟨c,rest,rfl⟩ := List.exists_cons_of_ne_nil hl
    have hall : ∀ x ∈ c :: rest, x = c := fun x hx => hequal x hx c List.mem_cons_self
    have hsquares : ∀ y ∈ (c :: rest).map (· ^ 2), y = c ^ 2 := by
      intro y hy
      obtain ⟨x,hx,rfl⟩ := List.mem_map.mp hy
      rw [hall x hx]
    rw [variance,mean,mean,sum_of_const hall,sum_of_const hsquares,List.length_map,
      mul_div_cancel_left₀ _ hn,mul_div_cancel_left₀ _ hn,sub_self]

end Variance

namespace Softmax

variable {K : Type*} [Field K] [LinearOrder K]

/-- A positive, increasing function that turns sums into products, and its inverse. -/
structure Exponential (K : Type*) [Field K] [LinearOrder K] where
  exp : K → K
  log : K → K
  exp_pos : ∀ x, 0 < exp x
  exp_strictMono : StrictMono exp
  exp_add : ∀ x y, exp (x + y) = exp x * exp y
  log_exp : ∀ x, log (exp x) = x
  exp_log : ∀ y, 0 < y → exp (log y) = y

namespace Exponential

variable (e : Exponential K)

def expBot : WithBot K → K
  | ⊥ => 0
  | (x : K) => e.exp x

@[simp] theorem expBot_bot : e.expBot ⊥ = 0 := rfl

@[simp] theorem expBot_coe (x : K) : e.expBot x = e.exp x := rfl

theorem log_mul (a : K) {y : K} (hy : 0 < y) : e.log (e.exp a * y) = a + e.log y := by
  conv_lhs => rw [← e.exp_log y hy,← e.exp_add,e.log_exp]

theorem exp_sub_log (x : K) {y : K} (hy : 0 < y) : e.exp (x - e.log y) = e.exp x / y := by
  have hsplit := e.exp_add (x - e.log y) (e.log y)
  rw [sub_add_cancel,e.exp_log y hy] at hsplit
  rw [hsplit,mul_div_cancel_right₀ _ hy.ne']

def total (row : List K) : K := (row.map e.exp).sum

/-- A shift of all logits is a factor of the sum. -/
theorem total_shift (m : K) (row : List K) :
    e.total (row.map fun x => x - m) = e.exp (-m) * e.total row := by
  rw [total,total,List.map_map,← List.sum_map_mul_left]
  refine congrArg List.sum (List.map_congr_left fun x _ => ?_)
  rw [Function.comp_apply,← e.exp_add,neg_add_eq_sub]

theorem total_pos [IsStrictOrderedRing K] {row : List K} (h : row ≠ []) : 0 < e.total row := by
  refine List.sum_pos _ (fun x hx => ?_) (by simpa using h)
  obtain ⟨y,_,rfl⟩ := List.mem_map.mp hx
  exact e.exp_pos y

end Exponential

noncomputable def reach (w : List K) (p : K) : ℕ := sInf {n | p ≤ (w.take n).sum}

theorem reach_le_length {w : List K} {p : K} (hp : p ≤ w.sum) : reach w p ≤ w.length :=
  Nat.sInf_le (by simpa using hp)

variable [IsStrictOrderedRing K]

theorem sum_take_mono {w : List K} (hw : ∀ x ∈ w, 0 ≤ x) {i j : ℕ} (hij : i ≤ j) :
    (w.take i).sum ≤ (w.take j).sum := by
  obtain ⟨k,rfl⟩ := Nat.exists_eq_add_of_le hij
  rw [List.take_add,List.sum_append]
  refine le_add_of_nonneg_right (List.sum_nonneg fun x hx => hw x ?_)
  exact List.mem_of_mem_drop (List.mem_of_mem_take hx)

/-- An element is in the front when what comes before it does not reach the mass. -/
theorem lt_reach_iff {w : List K} (hw : ∀ x ∈ w, 0 ≤ x) {p : K} (hp : p ≤ w.sum) {j : ℕ} :
    j < reach w p ↔ (w.take j).sum < p := by
  have hset : ∃ n, n ∈ {n | p ≤ (w.take n).sum} := ⟨w.length,by simpa using hp⟩
  constructor
  · exact fun h => not_le.mp (Nat.notMem_of_lt_sInf h)
  · intro h
    refine not_le.mp fun hle => absurd (Nat.sInf_mem hset) ?_
    exact not_le.mpr ((sum_take_mono hw hle).trans_lt h)

/-- Positive weights reach their sum only all together. -/
theorem reach_sum {w : List K} (hw : ∀ x ∈ w, 0 < x) : reach w w.sum = w.length := by
  refine le_antisymm (reach_le_length le_rfl) (not_lt.mp fun hlt => ?_)
  have hsplit := List.sum_take_add_sum_drop w (reach w w.sum)
  have hrest : 0 < (w.drop (reach w w.sum)).sum :=
    List.sum_pos _ (fun x hx => hw x (List.mem_of_mem_drop hx)) (by simpa using hlt)
  have hnot : ¬ reach w w.sum < reach w w.sum := lt_irrefl _
  rw [lt_reach_iff (fun x hx => (hw x hx).le) le_rfl] at hnot
  linarith

end Softmax
end DockyardRL
