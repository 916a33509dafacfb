import Mathlib.Logic.Function.Basic
import Mathlib.Data.List.Count
import Mathlib.Data.List.Nodup

/-! Lists that are held by reference. Items are appended to them one after another, and who holds the
same list sees them all. -/
namespace DockyardRL
namespace SharedLists

variable {ρ α : Type*} [DecidableEq ρ]

/-- Every item goes to the end of the list behind its reference. -/
def appendEach (heap : ρ → List α) (refs : List ρ) (items : List α) : ρ → List α :=
  (refs.zip items).foldl
    (fun heap entry => Function.update heap entry.1 (heap entry.1 ++ [entry.2])) heap

@[simp] theorem appendEach_nil (heap : ρ → List α) (items : List α) :
    appendEach heap [] items = heap := rfl

@[simp] theorem appendEach_cons (heap : ρ → List α) (r : ρ) (refs : List ρ) (x : α) (items : List α) :
    appendEach heap (r :: refs) (x :: items) =
      appendEach (Function.update heap r (heap r ++ [x])) refs items := rfl

theorem appendEach_of_notMem {r : ρ} {refs : List ρ} (h : r ∉ refs) (heap : ρ → List α)
    (items : List α) : appendEach heap refs items r = heap r := by
  induction refs generalizing heap items with
  | nil => rfl
  | cons s refs ih =>
    rw [List.mem_cons,not_or] at h
    obtain ⟨hne,hrest⟩ := h
    cases items with
    | nil => rfl
    | cons x items => rw [appendEach_cons,ih hrest,Function.update_of_ne hne]

/-- Through different references every list gets its own item. -/
theorem appendEach_at {refs : List ρ} (hrefs : refs.Nodup) (heap : ρ → List α) {items : List α}
    {p : ℕ} {r : ρ} {x : α} (hr : refs[p]? = some r) (hx : items[p]? = some x) :
    appendEach heap refs items r = heap r ++ [x] := by
  induction refs generalizing heap items p with
  | nil => cases hr
  | cons s refs ih =>
    obtain ⟨hs,hrefs⟩ := List.nodup_cons.mp hrefs
    cases items with
    | nil => cases hx
    | cons y items =>
      rw [appendEach_cons]
      cases p with
      | zero =>
        obtain rfl := Option.some.inj hr
        obtain rfl := Option.some.inj hx
        rw [appendEach_of_notMem hs,Function.update_self]
      | succ p =>
        have hne : r ≠ s := fun heq => hs (heq ▸ List.mem_of_getElem? hr)
        rw [ih hrefs _ hr hx,Function.update_of_ne hne]

/-- Every list grows as often as its reference occurs. -/
theorem length_appendEach (heap : ρ → List α) {refs : List ρ} {items : List α}
    (h : refs.length = items.length) (r : ρ) :
    (appendEach heap refs items r).length = (heap r).length + refs.count r := by
  induction refs generalizing heap items with
  | nil => rfl
  | cons s refs ih =>
    cases items with
    | nil => cases h
    | cons x items =>
      rw [appendEach_cons,ih _ (Nat.succ.inj h),List.count_cons]
      by_cases hs : s = r
      · subst hs
        rw [Function.update_self,List.length_append,if_pos (beq_self_eq_true s)]
        show _ + 1 + _ = _ + (_ + 1)
        omega
      · rw [Function.update_of_ne (Ne.symm hs),if_neg (by simpa using hs),Nat.add_zero]

end SharedLists
end DockyardRL
