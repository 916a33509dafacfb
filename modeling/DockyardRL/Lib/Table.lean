import Mathlib.Data.List.Basic
import Mathlib.Tactic.Common
import Mathlib.Algebra.Order.Monoid.Defs
import Mathlib.Order.Bounds.Basic

/-! Tables filled in order, each entry from the entries before it.

Paths of scored steps. A score on the nodes that no step improves on bounds every path, and
following back the steps that attain it gives a path that is best. -/
namespace DockyardRL
namespace Table

variable {β : Type*} {f : List β → β} {n k : ℕ}

def tabulate (f : List β → β) : ℕ → List β
  | 0 => []
  | n + 1 =>
    let earlier := tabulate f n
    earlier ++ [f earlier]

@[simp] theorem length_tabulate : (tabulate f n).length = n := by
  induction n with
  | zero => rfl
  | succ n ih => simp [tabulate,ih]

/-- An entry is what its rule makes of the entries before it. -/
theorem getElem?_tabulate (h : k < n) : (tabulate f n)[k]? = some (f (tabulate f k)) := by
  induction n with
  | zero => exact absurd h (Nat.not_lt_zero k)
  | succ n ih =>
    show (tabulate f n ++ [f (tabulate f n)])[k]? = _
    by_cases hk : k < n
    · rw [List.getElem?_append_left (by rwa [length_tabulate])]
      exact ih hk
    · have heq : k = n := by omega
      subst heq
      simp

end Table

namespace BestPath

variable {V M α : Type*} [AddCommMonoid α] {step : V → M → α → V → Prop}

/-- The moves of a path between two nodes, with their total score. -/
inductive Path (step : V → M → α → V → Prop) : V → V → List M → α → Prop
  | nil (v : V) : Path step v v [] 0
  | cons {u v z : V} {move : M} {moves : List M} {score total : α} :
    step u move score v → Path step v z moves total → Path step u z (move :: moves) (score + total)

def follow (back : V → Option (M × V)) : ℕ → V → List M → List M
  | 0, _, moves => moves
  | fuel + 1, v, moves =>
    match back v with
    | none => moves
    | some (move,u) => follow back fuel u (move :: moves)

/-- From every node of a region but the root, `back` takes back a step that attains the score of
the node, and it gets nearer to the root. -/
structure Attains (step : V → M → α → V → Prop) (best : V → α) (back : V → Option (M × V))
    (root : V) (region : V → Prop) (height : V → ℕ) : Prop where
  back_root : back root = none
  best_root : best root = 0
  attained : ∀ v, region v → v ≠ root → ∃ move u score, back v = some (move,u) ∧
    step u move score v ∧ best v = best u + score ∧ region u ∧ height u < height v

variable {best : V → α} {back : V → Option (M × V)} {root u v z : V}
  {region : V → Prop} {height : V → ℕ} {moves : List M} {total : α}

theorem Attains.follow_path (h : Attains step best back root region height) {fuel : ℕ}
    (hv : region v) (hfuel : height v ≤ fuel) (hmoves : Path step v z moves total) :
    Path step root z (follow back fuel v moves) (best v + total) := by
  induction fuel generalizing v moves total with
  | zero =>
    by_cases hroot : v = root
    · rw [hroot,h.best_root,zero_add]
      exact hroot ▸ hmoves
    · obtain ⟨_,_,_,-,-,-,-,hlt⟩ := h.attained v hv hroot
      omega
  | succ fuel ih =>
    rw [follow]
    by_cases hroot : v = root
    · rw [hroot,h.back_root,h.best_root,zero_add]
      exact hroot ▸ hmoves
    · obtain ⟨move,u,score,hback,hstep,hbest,hu,hlt⟩ := h.attained v hv hroot
      rw [hback,hbest,add_assoc]
      exact ih hu (by omega) (Path.cons hstep hmoves)

section Bound

variable [PartialOrder α] [IsOrderedAddMonoid α]

theorem Path.le (hbest : ∀ u move score v, step u move score v → best u + score ≤ best v)
    (h : Path step u v moves total) : best u + total ≤ best v := by
  induction h with
  | nil v => rw [add_zero]
  | cons hstep _ ih =>
    rw [← add_assoc]
    exact (add_le_add (hbest _ _ _ _ hstep) le_rfl).trans ih

/-- Following the steps back gives the best path, and its score is that of the node. -/
theorem Attains.greatest (h : Attains step best back root region height)
    (hbest : ∀ u move score v, step u move score v → best u + score ≤ best v) {fuel : ℕ}
    (hv : region v) (hfuel : height v ≤ fuel) :
    Path step root v (follow back fuel v []) (best v) ∧
      IsGreatest {total | ∃ moves, Path step root v moves total} (best v) := by
  have hpath := h.follow_path hv hfuel (Path.nil v)
  rw [add_zero] at hpath
  refine ⟨hpath,⟨_,hpath⟩,?_⟩
  rintro total ⟨moves,hmoves⟩
  have hle := hmoves.le hbest
  rwa [h.best_root,zero_add] at hle

end Bound

end BestPath
end DockyardRL
