import Mathlib.Data.List.Basic
import Mathlib.Tactic.Common
import Mathlib.Data.List.Range
import Mathlib.Logic.Relation
import Mathlib.Data.List.Count
import Mathlib.Data.Int.Order.Basic
import Mathlib.Tactic.Ring

/-! Labelled transition systems with a partial step function. `Reach` collects the states of the
runs whose steps all meet a side condition; an invariant is proved once for the initial states and
once for a step.

Numbered batches of numbered items are drawn from a source one after the other. Every item is kept
or lost, and closing a batch moves a cursor to the source's live position. The cursor covers what is
kept exactly when nothing before it was lost.

Sequential numbering in slots of a fixed size: item `i` goes to slot `first + i / n`, so that a slot
is filled before the next one opens. -/
namespace DockyardRL
namespace Transition

/-- A system is its initial states and the successor of a state under an event. -/
structure Machine (σ ε : Type*) where
  init : σ → Prop
  step : σ → ε → Option σ

variable {σ ε : Type*} {m : Machine σ ε} {ok ok' : σ → ε → Prop}

/-- States reached by runs in which every taken step satisfies `ok`. -/
inductive Reach (m : Machine σ ε) (ok : σ → ε → Prop) : σ → Prop
  | start {s} : m.init s → Reach m ok s
  | next {s e t} : Reach m ok s → ok s e → m.step s e = some t → Reach m ok t

/-- The condition every step meets. -/
def anyStep : σ → ε → Prop := fun _ _ => True

namespace Reach

theorem mono (h : ∀ s e, ok s e → ok' s e) {s : σ} (hs : Reach m ok s) : Reach m ok' s := by
  induction hs with
  | start hi => exact .start hi
  | next _ hok hstep ih => exact .next ih (h _ _ hok) hstep

/-- The induction rule: initial states satisfy `P`, and an allowed step keeps it. -/
theorem invariant {P : σ → Prop} (hinit : ∀ s, m.init s → P s)
    (hstep : ∀ s e t, P s → ok s e → m.step s e = some t → P t)
    {s : σ} (hs : Reach m ok s) : P s := by
  induction hs with
  | start hi => exact hinit _ hi
  | next _ hok hst ih => exact hstep _ _ _ ih hok hst

/-- The same rule when every reached state is already known to satisfy `Q`. -/
theorem invariant_of {P Q : σ → Prop} (hQ : ∀ s, Reach m ok s → Q s)
    (hinit : ∀ s, m.init s → P s)
    (hstep : ∀ s e t, Q s → P s → ok s e → m.step s e = some t → P t)
    {s : σ} (hs : Reach m ok s) : P s := by
  induction hs with
  | start hi => exact hinit _ hi
  | next hr hok hst ih => exact hstep _ _ _ (hQ _ hr) ih hok hst

end Reach

/-- Take the events of a schedule one after the other, each within `guard`. -/
def run (m : Machine σ ε) (guard : σ → ε → Bool) : σ → List ε → Option σ
  | s, [] => some s
  | s, e :: es => if guard s e then (m.step s e).bind fun t => run m guard t es else none

theorem reach_of_run {guard : σ → ε → Bool} (hguard : ∀ s e, guard s e = true → ok s e)
    {s t : σ} {es : List ε} (hs : Reach m ok s) (hrun : run m guard s es = some t) :
    Reach m ok t := by
  induction es generalizing s with
  | nil =>
    have hst : s = t := Option.some.inj hrun
    exact hst ▸ hs
  | cons e es ih =>
    rw [run] at hrun
    split_ifs at hrun with he
    obtain ⟨u,hu,hrest⟩ := Option.bind_eq_some_iff.mp hrun
    exact ih (hs.next (hguard s e he) hu) hrest

end Transition

/-- `position` is the next item of the batch drawn last while that batch is in hand. -/
structure Intake where
  drawn : ℕ
  position : Option ℕ
  kept : List (ℕ × ℕ)
  lost : List (ℕ × ℕ)
  cursor : ℕ

namespace Intake

/-- Items `start ≤ g < stop` of batch `k`. -/
def items (k start stop : ℕ) : List (ℕ × ℕ) := (List.range' start (stop - start)).map (k,·)

@[simp] theorem mem_items {k start stop : ℕ} {y : ℕ × ℕ} :
    y ∈ items k start stop ↔ y.1 = k ∧ start ≤ y.2 ∧ y.2 < stop := by
  rcases y with ⟨i,g⟩
  simp only [items,List.mem_map,List.mem_range'_1,Prod.mk.injEq]
  constructor
  · rintro ⟨a,ha,rfl,rfl⟩
    exact ⟨rfl,ha.1,by omega⟩
  · rintro ⟨rfl,h₁,h₂⟩
    exact ⟨g,⟨h₁,by omega⟩,rfl,rfl⟩

@[simp] theorem items_self (k n : ℕ) : items k n n = [] := by
  simp [items]

variable (size : ℕ → ℕ)

/-- The moves over a source whose batch `k` has `size k` items. -/
inductive Move : Intake → Intake → Prop
  | draw {s} (h : s.position = none) :
      Move s { s with drawn := s.drawn + 1, position := some 0 }
  | discard {s} (h : s.position = none) :
      Move s { s with drawn := s.drawn + 1, lost := s.lost ++ items s.drawn 0 (size s.drawn) }
  | keep {s g} (h : s.position = some g) (hg : g < size (s.drawn - 1)) :
      Move s { s with position := some (g + 1), kept := s.kept ++ [(s.drawn - 1,g)] }
  | lose {s g} (h : s.position = some g) (hg : g < size (s.drawn - 1)) :
      Move s { s with position := some (g + 1), lost := s.lost ++ [(s.drawn - 1,g)] }
  | drop {s g} (h : s.position = some g) :
      Move s { s with
        position := none
        lost := s.lost ++ items (s.drawn - 1) g (size (s.drawn - 1)) }
  | close {s g} (h : s.position = some g) :
      Move s { s with
        position := none
        lost := s.lost ++ items (s.drawn - 1) g (size (s.drawn - 1))
        cursor := s.drawn }

/-- Every drawn item is kept, lost or still to come, and never two of these. -/
structure Sound (s : Intake) : Prop where
  cursor_le : s.cursor ≤ s.drawn
  inHand : ∀ p, s.position = some p → s.cursor < s.drawn
  covered : ∀ k < s.drawn, ∀ g < size k, (k,g) ∈ s.kept ∨ (k,g) ∈ s.lost ∨
    ∃ p, s.position = some p ∧ k = s.drawn - 1 ∧ p ≤ g
  known : ∀ y, y ∈ s.kept ∨ y ∈ s.lost → y.1 < s.drawn ∧ y.2 < size y.1 ∧
    ∀ p, s.position = some p → y.1 = s.drawn - 1 → y.2 < p
  disjoint : ∀ y ∈ s.kept, y ∉ s.lost

variable {size} {s t : Intake}

theorem Sound.empty : Sound size ⟨0,none,[],[],0⟩ := by
  constructor <;> simp

theorem Sound.fresh (h : Sound size s) {y : ℕ × ℕ} (hy : y ∈ s.kept ∨ y ∈ s.lost) :
    y.1 ≠ s.drawn := by
  have hlt := (h.known y hy).1
  omega

theorem Sound.draw (h : Sound size s) (hp : s.position = none) :
    Sound size { s with drawn := s.drawn + 1, position := some 0 } := by
  have hcursor := h.cursor_le
  refine ⟨by simp only; omega,fun _ _ => by simp only; omega,?_,?_,h.disjoint⟩
  · intro k hk g hg
    simp only at hk ⊢
    by_cases hlast : k = s.drawn
    · exact .inr (.inr ⟨0,rfl,by omega,by omega⟩)
    · rcases h.covered k (by omega) g hg with hy | hy | ⟨p,hpos,-⟩
      · exact .inl hy
      · exact .inr (.inl hy)
      · rw [hp] at hpos; cases hpos
  · intro y hy
    have hknown := h.known y hy
    have hne := h.fresh hy
    simp only
    exact ⟨by omega,hknown.2.1,fun p _ hlast => absurd hlast (by omega)⟩

theorem Sound.discard (h : Sound size s) (hp : s.position = none) :
    Sound size { s with
      drawn := s.drawn + 1, lost := s.lost ++ items s.drawn 0 (size s.drawn) } := by
  have hcursor := h.cursor_le
  refine ⟨by simp only; omega,by simp [hp],?_,?_,?_⟩
  · intro k hk g hg
    simp only at hk ⊢
    by_cases hlast : k = s.drawn
    · refine .inr (.inl ?_)
      rw [List.mem_append,mem_items]
      exact .inr ⟨hlast,by omega,hlast ▸ hg⟩
    · rcases h.covered k (by omega) g hg with hy | hy | ⟨p,hpos,-⟩
      · exact .inl hy
      · exact .inr (.inl (List.mem_append_left _ hy))
      · rw [hp] at hpos; cases hpos
  · intro y hy
    simp only [List.mem_append,mem_items] at hy
    rcases hy with hy | hy | ⟨hlast,-,hlt⟩
    · have hknown := h.known y (.inl hy)
      exact ⟨by simp only; omega,hknown.2.1,by simp [hp]⟩
    · have hknown := h.known y (.inr hy)
      exact ⟨by simp only; omega,hknown.2.1,by simp [hp]⟩
    · exact ⟨by simp only; omega,hlast ▸ hlt,by simp [hp]⟩
  · intro y hy hlost
    simp only [List.mem_append,mem_items] at hlost
    rcases hlost with hlost | ⟨hlast,-⟩
    · exact h.disjoint y hy hlost
    · exact h.fresh (.inl hy) hlast

theorem Sound.next_unsettled (h : Sound size s) {g : ℕ} (hp : s.position = some g) {y : ℕ × ℕ}
    (hy : y ∈ s.kept ∨ y ∈ s.lost) (hlast : y.1 = s.drawn - 1) : y.2 < g :=
  (h.known y hy).2.2 g hp hlast

theorem Sound.settle (h : Sound size s) {g : ℕ} (hp : s.position = some g)
    (hg : g < size (s.drawn - 1)) {kept lost : List (ℕ × ℕ)}
    (hmem : ∀ y, y ∈ kept ∨ y ∈ lost ↔ (y ∈ s.kept ∨ y ∈ s.lost) ∨ y = (s.drawn - 1,g))
    (hdisjoint : ∀ y ∈ kept, y ∉ lost) :
    Sound size { s with position := some (g + 1), kept := kept, lost := lost } := by
  have hdrawn := h.inHand g hp
  refine ⟨h.cursor_le,fun _ _ => hdrawn,?_,?_,hdisjoint⟩
  · intro k hk i hi
    have hin := (hmem (k,i)).mpr
    rcases h.covered k hk i hi with hy | hy | ⟨p,hpos,hlast,hle⟩
    · exact or_assoc.mp (.inl (hin (.inl (.inl hy))))
    · exact or_assoc.mp (.inl (hin (.inl (.inr hy))))
    · obtain rfl := Option.some.inj (hp.symm.trans hpos)
      by_cases heq : i = g
      · exact or_assoc.mp (.inl (hin (.inr (by rw [heq,hlast]))))
      · exact .inr (.inr ⟨g + 1,rfl,hlast,by omega⟩)
  · intro y hy
    simp only [Option.some.injEq]
    rcases (hmem y).mp hy with hold | rfl
    · have hknown := h.known y hold
      exact ⟨hknown.1,hknown.2.1,fun p hpe hlast => by have := hknown.2.2 g hp hlast; omega⟩
    · exact ⟨by simp only; omega,hg,fun p hpe _ => by simp only; omega⟩

theorem Sound.keep (h : Sound size s) {g : ℕ} (hp : s.position = some g)
    (hg : g < size (s.drawn - 1)) :
    Sound size { s with position := some (g + 1), kept := s.kept ++ [(s.drawn - 1,g)] } := by
  refine h.settle hp hg ?_ ?_
  · intro y
    rw [List.mem_append,List.mem_singleton]
    tauto
  · intro y hy hlost
    rcases List.mem_append.mp hy with hy | hy
    · exact h.disjoint y hy hlost
    · rw [List.mem_singleton.mp hy] at hlost
      have hlt := h.next_unsettled hp (.inr hlost) rfl
      exact absurd hlt (by simp)

theorem Sound.lose (h : Sound size s) {g : ℕ} (hp : s.position = some g)
    (hg : g < size (s.drawn - 1)) :
    Sound size { s with position := some (g + 1), lost := s.lost ++ [(s.drawn - 1,g)] } := by
  refine h.settle hp hg ?_ ?_
  · intro y
    rw [List.mem_append,List.mem_singleton]
    tauto
  · intro y hy hlost
    rcases List.mem_append.mp hlost with hlost | hlost
    · exact h.disjoint y hy hlost
    · rw [List.mem_singleton.mp hlost] at hy
      have hlt := h.next_unsettled hp (.inl hy) rfl
      exact absurd hlt (by simp)

theorem Sound.drop (h : Sound size s) {g cursor : ℕ} (hp : s.position = some g)
    (hc : cursor ≤ s.drawn) :
    Sound size { s with
      position := none
      lost := s.lost ++ items (s.drawn - 1) g (size (s.drawn - 1))
      cursor := cursor } := by
  have hdrawn := h.inHand g hp
  refine ⟨hc,by simp,?_,?_,?_⟩
  · intro k hk i hi
    simp only [List.mem_append,mem_items]
    rcases h.covered k hk i hi with hy | hy | ⟨p,hpos,hlast,hle⟩
    · exact .inl hy
    · exact .inr (.inl (.inl hy))
    · obtain rfl := Option.some.inj (hp.symm.trans hpos)
      exact .inr (.inl (.inr ⟨hlast,hle,hlast ▸ hi⟩))
  · intro y hy
    simp only [List.mem_append,mem_items] at hy
    rcases hy with hy | hy | ⟨hlast,-,hlt⟩
    · have hknown := h.known y (.inl hy)
      exact ⟨hknown.1,hknown.2.1,by simp⟩
    · have hknown := h.known y (.inr hy)
      exact ⟨hknown.1,hknown.2.1,by simp⟩
    · exact ⟨by simp only; omega,hlast ▸ hlt,by simp⟩
  · intro y hy hlost
    simp only [List.mem_append,mem_items] at hlost
    rcases hlost with hlost | ⟨hlast,hle,-⟩
    · exact h.disjoint y hy hlost
    · have hlt := h.next_unsettled hp (.inl hy) hlast
      omega

theorem Sound.move (h : Sound size s) (hm : Move size s t) : Sound size t := by
  cases hm with
  | draw hp => exact h.draw hp
  | discard hp => exact h.discard hp
  | keep hp hg => exact h.keep hp hg
  | lose hp hg => exact h.lose hp hg
  | drop hp => exact h.drop hp h.cursor_le
  | close hp => exact h.drop hp le_rfl

theorem Sound.moves (h : Sound size s) (hm : Relation.ReflTransGen (Move size) s t) :
    Sound size t := by
  induction hm with
  | refl => exact h
  | tail _ hlast ih => exact ih.move hlast

/-- Everything before the cursor is kept if and only if nothing lost lies before it. -/
theorem Sound.covered_iff (h : Sound size s) :
    (∀ k < s.cursor, ∀ g < size k, (k,g) ∈ s.kept) ↔ ∀ y ∈ s.lost, s.cursor ≤ y.1 := by
  constructor
  · intro hkept y hy
    by_contra hlt
    have hknown := h.known y (.inr hy)
    exact h.disjoint y (hkept y.1 (by omega) y.2 hknown.2.1) hy
  · intro hlost k hk g hg
    have hcursor := h.cursor_le
    rcases h.covered k (by omega) g hg with hy | hy | ⟨p,hpos,hlast,-⟩
    · exact hy
    · have hle := hlost _ hy
      simp only at hle
      omega
    · have hdrawn := h.inHand p hpos
      omega

end Intake

namespace Slots

/-- The slots of the first `len` items. -/
def slots (first : ℤ) (n len : ℕ) : List ℤ := (List.range len).map fun i => first + (i / n : ℕ)

theorem slots_succ (first : ℤ) (n len : ℕ) :
    slots first n (len + 1) = slots first n len ++ [first + (len / n : ℕ)] := by
  simp [slots,List.range_succ]

theorem getElem_slots (first : ℤ) (n : ℕ) {len i : ℕ} (h : i < (slots first n len).length) :
    (slots first n len)[i] = first + (i / n : ℕ) := by
  simp [slots]

theorem slots_sorted (first : ℤ) (n len : ℕ) : (slots first n len).Pairwise (· ≤ ·) := by
  unfold slots
  rw [List.pairwise_map]
  refine List.pairwise_lt_range.imp fun {i j} hij => ?_
  have : i / n ≤ j / n := Nat.div_le_div_right hij.le
  omega

/-- Item number `n * k + r` with `r < n` lands in slot `first + k`. -/
theorem slot_of {n r : ℕ} (first : ℤ) (k : ℕ) (hr : r < n) :
    first + ((n * k + r) / n : ℕ) = first + k := by
  have hn : 0 < n := by omega
  rw [Nat.mul_add_div hn,Nat.div_eq_of_lt hr]
  simp

/-- A slot below the one being filled holds exactly `n` items, later slots none. -/
theorem count_slots {n r : ℕ} (first : ℤ) (k : ℕ) (hr : r ≤ n) (hn : 0 < n) (T : ℤ) :
    (slots first n (n * k + r)).count T =
      if first ≤ T ∧ T < first + k then n else if T = first + k then r else 0 := by
  induction k generalizing r T with
  | zero =>
    simp only [Nat.mul_zero,Nat.zero_add]
    induction r with
    | zero => simp [slots]
    | succ r ih =>
      have hslot := slot_of first 0 (show r < n by omega)
      rw [Nat.mul_zero,Nat.zero_add] at hslot
      rw [slots_succ,List.count_append,ih (by omega),hslot,List.count_singleton]
      simp only [Nat.cast_zero,add_zero,beq_iff_eq]
      split_ifs <;> omega
  | succ k ih =>
    induction r with
    | zero =>
      rw [show n * (k + 1) + 0 = n * k + n by ring,ih le_rfl T]
      push_cast
      split_ifs <;> omega
    | succ r ihr =>
      have hslot := slot_of first (k + 1) (show r < n by omega)
      rw [← Nat.add_assoc,slots_succ,List.count_append,ihr (by omega),hslot,List.count_singleton]
      simp only [beq_iff_eq]
      push_cast
      split_ifs <;> omega

/-- Dropping whole slots leaves the items of the later ones. -/
theorem le_of_mem_drop {n : ℕ} {first : ℤ} {len m : ℕ} (hn : 0 < n) {T : ℤ}
    (h : T ∈ (slots first n len).drop (n * m)) : first + m ≤ T := by
  obtain ⟨i,hi,rfl⟩ := List.mem_iff_getElem.mp h
  rw [List.getElem_drop,getElem_slots]
  have : m ≤ (n * m + i) / n := (Nat.le_div_iff_mul_le hn).mpr (by rw [Nat.mul_comm]; omega)
  omega

end Slots
end DockyardRL
