import Mathlib.Data.List.Basic
import Mathlib.Tactic.Common

/-! Rows padded on the right up to a width. -/
namespace DockyardRL
namespace Padding

variable {α : Type*}

/-- `row` followed by as many pads as it lacks. -/
def padTo (width : ℕ) (pad : α) (row : List α) : List α :=
  row ++ List.replicate (width - row.length) pad

@[simp] theorem length_padTo (width : ℕ) (pad : α) (row : List α) :
    (padTo width pad row).length = max row.length width := by
  rw [padTo,List.length_append,List.length_replicate]
  omega

theorem padTo_of_le {width : ℕ} {row : List α} (pad : α) (h : width ≤ row.length) :
    padTo width pad row = row := by
  rw [padTo,Nat.sub_eq_zero_of_le h,List.replicate_zero,List.append_nil]

/-- Padding twice is padding once. -/
theorem padTo_padTo {v w : ℕ} (pad : α) (row : List α) (h : v ≤ w) :
    padTo w pad (padTo v pad row) = padTo w pad row := by
  rw [padTo,length_padTo,padTo,padTo,List.append_assoc,List.replicate_append_replicate]
  congr 2
  omega

theorem take_padTo {n : ℕ} (width : ℕ) (pad : α) {row : List α} (h : n ≤ row.length) :
    (padTo width pad row).take n = row.take n := by
  rw [padTo,List.take_append_of_le_length h]

/-- Filler and pads look alike where there is no filler, or where the filler is the pad. -/
theorem padTo_nil_eq_iff {width n : ℕ} {pad filler : α} (h : n ≤ width) :
    padTo width pad [] = padTo width pad (List.replicate n filler) ↔ n = 0 ∨ pad = filler := by
  simp only [padTo,List.nil_append,List.length_nil,List.length_replicate]
  constructor
  · intro heq
    by_cases hn : n = 0
    · exact .inl hn
    · refine .inr (List.eq_of_mem_replicate (n := width) ?_).symm
      rw [← Nat.sub_zero width,heq]
      exact List.mem_append_left _ (List.mem_replicate.mpr ⟨hn,rfl⟩)
  · rintro (rfl | rfl)
    · rfl
    · rw [List.replicate_append_replicate]
      congr 1
      omega

/-- Behind the row there is nothing but pads. -/
theorem getElem?_padTo {width p : ℕ} {pad value : α} {row : List α}
    (h : (padTo width pad row)[p]? = some value) : row[p]? = some value ∨ value = pad := by
  by_cases hp : p < row.length
  · rw [padTo,List.getElem?_append_left hp] at h
    exact .inl h
  · rw [padTo,List.getElem?_append_right (by omega)] at h
    exact .inr (List.eq_of_mem_replicate (List.mem_of_getElem? h))

/-- A row cut short and padded again comes back when only pads were cut. -/
theorem padTo_take_eq_iff {width n : ℕ} {pad : α} {row : List α} (h : row.length ≤ width) :
    padTo width pad (row.take n) = row ↔
      row.length = width ∧ row.drop n = List.replicate (width - n) pad := by
  constructor
  · intro heq
    have hlen := congrArg List.length heq
    rw [length_padTo,List.length_take] at hlen
    have hwidth : row.length = width := by omega
    refine ⟨hwidth,?_⟩
    have hsplit : row.take n ++ List.replicate (width - (row.take n).length) pad =
        row.take n ++ row.drop n := by
      rw [List.take_append_drop]
      exact heq
    rw [← List.append_cancel_left hsplit,List.length_take]
    congr 1
    omega
  · rintro ⟨hwidth,hdrop⟩
    calc padTo width pad (row.take n)
        = row.take n ++ List.replicate (width - n) pad := by
          rw [padTo,List.length_take]
          congr 2
          omega
      _ = row := by rw [← hdrop,List.take_append_drop]

def longest (lengths : List ℕ) : ℕ := lengths.foldr max 0

theorem le_longest {lengths : List ℕ} {m : ℕ} (h : m ∈ lengths) : m ≤ longest lengths := by
  induction lengths with
  | nil => cases h
  | cons n lengths ih =>
    rcases List.mem_cons.mp h with rfl | hm
    · exact Nat.le_max_left m _
    · exact Nat.le_trans (ih hm) (Nat.le_max_right n _)

/-- The largest of some lengths is among them. -/
theorem longest_mem (lengths : List ℕ) : longest lengths = 0 ∨ longest lengths ∈ lengths := by
  induction lengths with
  | nil => exact .inl rfl
  | cons n lengths ih =>
    rcases Nat.le_total (longest lengths) n with hle | hle
    · have hmax : longest (n :: lengths) = n := Nat.max_eq_left hle
      rw [hmax]
      exact .inr List.mem_cons_self
    · have hmax : longest (n :: lengths) = longest lengths := Nat.max_eq_right hle
      rw [hmax]
      exact ih.imp_right (List.mem_cons_of_mem n)

/-- The largest of some lengths, where there is one. -/
theorem max?_eq_longest {lengths : List ℕ} (h : lengths ≠ []) :
    lengths.max? = some (longest lengths) := by
  refine List.max?_eq_some_iff.mpr ⟨?_,fun m hm => le_longest hm⟩
  rcases longest_mem lengths with hzero | hmem
  · obtain ⟨m,hm⟩ := List.exists_mem_of_ne_nil lengths h
    have hle := le_longest hm
    have heq : longest lengths = m := by omega
    rwa [heq]
  · exact hmem

end Padding
end DockyardRL
