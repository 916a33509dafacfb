import Mathlib.Order.Lattice
import Mathlib.Data.Prod.Basic
import Mathlib.Data.Nat.Cast.Defs
import Mathlib.Tactic.Common

/-! Half-open spans laid end to end along an axis. A place of the list may have no span,
and the place of the span that covers a point is the point's label. -/
namespace DockyardRL
namespace Tiling

section
variable {ι : Type*} [LinearOrder ι]

/-- The spans of the list, in order and none of them empty, lie end to end from `a` to `b`. -/
def Tiles : ι → List (Option (ι × ι)) → ι → Prop
  | a, [], b => a = b
  | a, none :: spans, b => Tiles a spans b
  | a, some (s,e) :: spans, b => s = a ∧ a < e ∧ Tiles e spans b

/-- The span in place `i` of the list contains the point. -/
def Covers (spans : List (Option (ι × ι))) (i : ℕ) (x : ι) : Prop :=
  ∃ s e, spans[i]? = some (some (s,e)) ∧ s ≤ x ∧ x < e

variable {a b c x y : ι} {spans more : List (Option (ι × ι))}

@[simp] theorem tiles_nil : Tiles a [] b ↔ a = b := Iff.rfl

@[simp] theorem tiles_none : Tiles a (none :: spans) b ↔ Tiles a spans b := Iff.rfl

@[simp] theorem tiles_some {s e : ι} :
    Tiles a (some (s,e) :: spans) b ↔ s = a ∧ a < e ∧ Tiles e spans b := Iff.rfl

theorem covers_succ {span : Option (ι × ι)} {i : ℕ} :
    Covers (span :: spans) (i + 1) x ↔ Covers spans i x := by
  simp [Covers]

theorem covers_head {s e : ι} : Covers (some (s,e) :: spans) 0 x ↔ s ≤ x ∧ x < e := by
  simp [Covers]

theorem not_covers_none : ¬ Covers (none :: spans) 0 x := by
  simp [Covers]

theorem tiles_le (h : Tiles a spans b) : a ≤ b := by
  induction spans generalizing a with
  | nil => exact le_of_eq h
  | cons span spans ih =>
    cases span with
    | none => exact ih h
    | some span => exact (le_of_lt h.2.1).trans (ih h.2.2)

theorem tiles_append : Tiles a (spans ++ more) c ↔ ∃ b, Tiles a spans b ∧ Tiles b more c := by
  induction spans generalizing a with
  | nil => simp
  | cons span spans ih =>
    cases span with
    | none => exact ih
    | some span =>
      obtain ⟨s,e⟩ := span
      simp [ih,and_assoc]

theorem covers_bounds (h : Tiles a spans b) {i : ℕ} (hx : Covers spans i x) : a ≤ x ∧ x < b := by
  induction spans generalizing a i with
  | nil => simp [Covers] at hx
  | cons span spans ih =>
    cases span with
    | none =>
      cases i with
      | zero => exact absurd hx not_covers_none
      | succ i => exact ih h (covers_succ.mp hx)
    | some span =>
      have hlt : a < span.2 := h.2.1
      cases i with
      | zero =>
        have hin := covers_head.mp hx
        exact ⟨h.1 ▸ hin.1,hin.2.trans_le (tiles_le h.2.2)⟩
      | succ i =>
        have hin := ih h.2.2 (covers_succ.mp hx)
        exact ⟨hlt.le.trans hin.1,hin.2⟩

/-- Every point of the axis is covered. -/
theorem exists_covers (h : Tiles a spans b) (hax : a ≤ x) (hxb : x < b) :
    ∃ i, Covers spans i x := by
  induction spans generalizing a with
  | nil => exact absurd (hax.trans_lt hxb) (by simp [tiles_nil.mp h])
  | cons span spans ih =>
    cases span with
    | none =>
      obtain ⟨i,hi⟩ := ih h hax
      exact ⟨i + 1,covers_succ.mpr hi⟩
    | some span =>
      by_cases hx : x < span.2
      · exact ⟨0,covers_head.mpr ⟨h.1.le.trans hax,hx⟩⟩
      · obtain ⟨i,hi⟩ := ih h.2.2 (not_lt.mp hx)
        exact ⟨i + 1,covers_succ.mpr hi⟩

/-- Later points are covered in later places. -/
theorem covers_mono (h : Tiles a spans b) {i j : ℕ} (hx : Covers spans i x) (hy : Covers spans j y)
    (hxy : x ≤ y) : i ≤ j := by
  induction spans generalizing a i j with
  | nil => simp [Covers] at hx
  | cons span spans ih =>
    cases i with
    | zero => exact Nat.zero_le j
    | succ i =>
      have hx' := covers_succ.mp hx
      cases span with
      | none =>
        cases j with
        | zero => exact absurd hy not_covers_none
        | succ j => exact Nat.succ_le_succ (ih h hx' (covers_succ.mp hy))
      | some span =>
        cases j with
        | zero =>
          have hbefore : y < span.2 := (covers_head.mp hy).2
          have hafter : span.2 ≤ x := (covers_bounds h.2.2 hx').1
          exact absurd (hafter.trans hxy) (not_le.mpr hbefore)
        | succ j => exact Nat.succ_le_succ (ih h.2.2 hx' (covers_succ.mp hy))

theorem covers_unique (h : Tiles a spans b) {i j : ℕ} (hi : Covers spans i x)
    (hj : Covers spans j x) : i = j :=
  Nat.le_antisymm (covers_mono h hi hj le_rfl) (covers_mono h hj hi le_rfl)

/-- Tiles are carried to tiles by a map that is strictly increasing on the tiled part. -/
theorem tiles_map {κ : Type*} [LinearOrder κ] {g : ι → κ}
    (hg : ∀ x y, a ≤ x → x < y → y ≤ b → g x < g y) (h : Tiles a spans b) :
    Tiles (g a) (spans.map (Option.map (Prod.map g g))) (g b) := by
  induction spans generalizing a with
  | nil => exact congrArg g h
  | cons span spans ih =>
    cases span with
    | none => exact ih hg h
    | some span =>
      have hstep : a < span.2 := h.2.1
      have hend : span.2 ≤ b := tiles_le h.2.2
      exact ⟨congrArg g h.1,hg a span.2 le_rfl hstep hend,
        ih (fun x y hx => hg x y (hstep.le.trans hx)) h.2.2⟩

/-- Write each place of the list, from `k` on, over the points of its span. -/
def paint (labels : ι → ℤ) (k : ℕ) : List (Option (ι × ι)) → ι → ℤ
  | [] => labels
  | none :: spans => paint labels (k + 1) spans
  | some (s,e) :: spans => paint (fun x => if s ≤ x ∧ x < e then k else labels x) (k + 1) spans

theorem paint_of_not_covers {labels : ι → ℤ} {k : ℕ} (h : ∀ i, ¬ Covers spans i x) :
    paint labels k spans x = labels x := by
  induction spans generalizing labels k with
  | nil => rfl
  | cons span spans ih =>
    have htail : ∀ i, ¬ Covers spans i x := fun i hi => h (i + 1) (covers_succ.mpr hi)
    cases span with
    | none => exact ih htail
    | some span =>
      have hout : ¬ (span.1 ≤ x ∧ x < span.2) := fun hin => h 0 (covers_head.mpr hin)
      exact (ih htail).trans (if_neg hout)

/-- A point of the tiled part is labelled with the place that covers it. -/
theorem paint_of_covers {labels : ι → ℤ} {k i : ℕ} (h : Tiles a spans b) (hx : Covers spans i x) :
    paint labels k spans x = (k + i : ℕ) := by
  induction spans generalizing a labels k i with
  | nil => simp [Covers] at hx
  | cons span spans ih =>
    cases i with
    | zero =>
      cases span with
      | none => exact absurd hx not_covers_none
      | some span =>
        have hlast : ∀ i, ¬ Covers spans i x := fun i hi =>
          absurd (covers_unique h hx (covers_succ.mpr hi)) (Nat.succ_ne_zero i).symm
        exact (paint_of_not_covers hlast).trans (if_pos (covers_head.mp hx))
    | succ i =>
      have hplace : k + (i + 1) = k + 1 + i := by omega
      rw [hplace]
      cases span with
      | none => exact ih h (covers_succ.mp hx)
      | some span => exact ih h.2.2 (covers_succ.mp hx)

end

section
variable {κ : Type*} {a b : κ} {ranges : List (κ × κ)}

/-- Where the first `k` ranges end. -/
def boundary (a : κ) : List (κ × κ) → ℕ → κ
  | [], _ => a
  | _, 0 => a
  | range :: ranges, k + 1 => boundary range.2 ranges k

theorem boundary_zero : boundary a ranges 0 = a := by
  cases ranges <;> rfl

variable [LinearOrder κ]

theorem boundary_length (h : Tiles a (ranges.map some) b) : boundary a ranges ranges.length = b := by
  induction ranges generalizing a with
  | nil => exact h
  | cons range ranges ih => exact ih h.2.2

/-- Range `k` reaches from boundary `k` to the next. -/
theorem getElem?_eq_boundary (h : Tiles a (ranges.map some) b) {k : ℕ} (hk : k < ranges.length) :
    ranges[k]? = some (boundary a ranges k,boundary a ranges (k + 1)) := by
  induction ranges generalizing a k with
  | nil => exact absurd hk (Nat.not_lt_zero k)
  | cons range ranges ih =>
    cases k with
    | zero =>
      have hend : boundary a (range :: ranges) 1 = range.2 := boundary_zero
      rw [hend]
      exact congrArg some (Prod.ext h.1 rfl)
    | succ k => exact ih h.2.2 (Nat.lt_of_succ_lt_succ hk)

/-- Consecutive ranges reach from the first start to the last end. -/
theorem tiles_ends (h : Tiles a (ranges.map some) b) {first last : κ × κ}
    (hfirst : ranges.head? = some first) (hlast : ranges.getLast? = some last) :
    first.1 = a ∧ last.2 = b ∧ a < b := by
  obtain ⟨front,rfl⟩ := List.getLast?_eq_some_iff.mp hlast
  rw [List.map_append] at h
  obtain ⟨c,hfront,hend⟩ := tiles_append.mp h
  have hstart : first.1 = a := by
    cases front with
    | nil =>
      cases hfirst
      exact hend.1.trans hfront.symm
    | cons range front =>
      cases hfirst
      exact hfront.1
  have hlt : c < last.2 := hend.2.1
  have hb : last.2 = b := hend.2.2
  exact ⟨hstart,hb,(tiles_le hfront).trans_lt (hb ▸ hlt)⟩

theorem boundary_lt_succ (h : Tiles a (ranges.map some) b) {k : ℕ} (hk : k < ranges.length) :
    boundary a ranges k < boundary a ranges (k + 1) := by
  induction ranges generalizing a k with
  | nil => exact absurd hk (Nat.not_lt_zero k)
  | cons range ranges ih =>
    cases k with
    | zero =>
      have hend : boundary a (range :: ranges) 1 = range.2 := boundary_zero
      exact hend ▸ h.2.1
    | succ k => exact ih h.2.2 (Nat.lt_of_succ_lt_succ hk)

theorem boundary_strictMono (h : Tiles a (ranges.map some) b) {j k : ℕ} (hjk : j < k)
    (hk : k ≤ ranges.length) : boundary a ranges j < boundary a ranges k := by
  induction k with
  | zero => exact absurd hjk (Nat.not_lt_zero j)
  | succ k ih =>
    have hstep := boundary_lt_succ h (Nat.lt_of_succ_le hk)
    rcases Nat.lt_succ_iff_lt_or_eq.mp hjk with hlt | rfl
    · exact (ih hlt (Nat.le_of_succ_le hk)).trans hstep
    · exact hstep

end
end Tiling
end DockyardRL
