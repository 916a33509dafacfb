import DockyardRL.Lib.SortByKey
import Mathlib.Algebra.BigOperators.Group.List.Basic
import Mathlib.Algebra.BigOperators.Intervals
import Mathlib.Algebra.BigOperators.Ring.Finset

/-! Sparse matrices as lists of entries. What a matrix has at an index is the sum of its entries there,
and products depend on nothing else. -/
namespace DockyardRL

/-- A matrix in coordinate format. -/
structure Coo (K : Type) where
  rows : ℕ
  cols : ℕ
  entries : List ((ℕ × ℕ) × K)
  inside : ∀ e ∈ entries, e.1.1 < rows ∧ e.1.2 < cols

namespace Coo

open SortByKey

variable {K : Type} [CommSemiring K]

def sumAt (entries : List ((ℕ × ℕ) × K)) (ij : ℕ × ℕ) : K :=
  (entries.map fun e => if e.1 = ij then e.2 else 0).sum

def value (m : Coo K) (i j : ℕ) : K := sumAt m.entries (i,j)

def addAt (ij : ℕ × ℕ) (x : K) : List ((ℕ × ℕ) × K) → List ((ℕ × ℕ) × K)
  | [] => [(ij,x)]
  | e :: entries => if e.1 = ij then (ij,e.2 + x) :: entries else e :: addAt ij x entries

def coalesceEntries (entries : List ((ℕ × ℕ) × K)) : List ((ℕ × ℕ) × K) :=
  sortByKey (fun e => toLex e.1) (entries.foldl (fun acc e => addAt e.1 e.2 acc) [])

@[simp] theorem sumAt_nil (ij : ℕ × ℕ) : sumAt ([] : List ((ℕ × ℕ) × K)) ij = 0 := rfl

@[simp] theorem sumAt_cons (e : (ℕ × ℕ) × K) (entries : List ((ℕ × ℕ) × K)) (ij : ℕ × ℕ) :
    sumAt (e :: entries) ij = (if e.1 = ij then e.2 else 0) + sumAt entries ij := rfl

theorem sumAt_addAt (ij kl : ℕ × ℕ) (x : K) (entries : List ((ℕ × ℕ) × K)) :
    sumAt (addAt ij x entries) kl = sumAt entries kl + if ij = kl then x else 0 := by
  induction entries with
  | nil => simp [addAt]
  | cons e entries ih =>
    rw [addAt]
    by_cases he : e.1 = ij
    · rw [if_pos he,sumAt_cons,sumAt_cons,he]
      split_ifs <;> simp [add_right_comm]
    · rw [if_neg he,sumAt_cons,sumAt_cons,ih,add_assoc]

theorem sumAt_foldl (entries acc : List ((ℕ × ℕ) × K)) (kl : ℕ × ℕ) :
    sumAt (entries.foldl (fun acc e => addAt e.1 e.2 acc) acc) kl = sumAt acc kl + sumAt entries kl := by
  induction entries generalizing acc with
  | nil => simp
  | cons e entries ih => rw [List.foldl_cons,ih,sumAt_addAt,sumAt_cons,add_assoc]

theorem sumAt_coalesce (entries : List ((ℕ × ℕ) × K)) (ij : ℕ × ℕ) :
    sumAt (coalesceEntries entries) ij = sumAt entries ij := by
  have hperm := sortByKey_perm (fun e : (ℕ × ℕ) × K => toLex e.1)
    (entries.foldl (fun acc e => addAt e.1 e.2 acc) [])
  rw [sumAt,coalesceEntries,(hperm.map _).sum_eq,← sumAt,sumAt_foldl,sumAt_nil,zero_add]

theorem mem_addAt {ij : ℕ × ℕ} {x : K} {entries : List ((ℕ × ℕ) × K)} {e : (ℕ × ℕ) × K}
    (h : e ∈ addAt ij x entries) : e.1 = ij ∨ e ∈ entries := by
  induction entries with
  | nil =>
    obtain rfl := List.mem_singleton.mp h
    exact .inl rfl
  | cons e' entries ih =>
    rw [addAt] at h
    split_ifs at h
    · rcases List.mem_cons.mp h with rfl | hmem
      · exact .inl rfl
      · exact .inr (List.mem_cons_of_mem _ hmem)
    · rcases List.mem_cons.mp h with rfl | hmem
      · exact .inr List.mem_cons_self
      · exact (ih hmem).imp_right (List.mem_cons_of_mem _)

theorem index_of_mem_coalesce {entries : List ((ℕ × ℕ) × K)} {e : (ℕ × ℕ) × K}
    (h : e ∈ coalesceEntries entries) : ∃ e' ∈ entries, e'.1 = e.1 := by
  have hfold : ∀ (entries acc : List ((ℕ × ℕ) × K)),
      e ∈ entries.foldl (fun acc e => addAt e.1 e.2 acc) acc →
        e ∈ acc ∨ ∃ e' ∈ entries, e'.1 = e.1 := by
    intro entries
    induction entries with
    | nil => exact fun acc hmem => .inl hmem
    | cons e' entries ih =>
      intro acc hmem
      rcases ih _ hmem with hacc | ⟨e'',hmem',heq⟩
      · rcases mem_addAt hacc with heq | hacc
        · exact .inr ⟨e',List.mem_cons_self,heq.symm⟩
        · exact .inl hacc
      · exact .inr ⟨e'',List.mem_cons_of_mem _ hmem',heq⟩
  exact (hfold entries [] ((sortByKey_perm _ _).mem_iff.mp h)).resolve_left List.not_mem_nil

/-- `torch.sparse_coo_tensor(…).coalesce()`. -/
def coalesced (rows cols : ℕ) (entries : List ((ℕ × ℕ) × K))
    (inside : ∀ e ∈ entries, e.1.1 < rows ∧ e.1.2 < cols) : Coo K where
  rows := rows
  cols := cols
  entries := coalesceEntries entries
  inside e he := by
    obtain ⟨e',hmem,heq⟩ := index_of_mem_coalesce he
    exact heq ▸ inside e' hmem

/-- `torch.sparse.mm(m.t(), x)` for one column. -/
def transposeMul (m : Coo K) (x : List K) : List K :=
  (List.range m.cols).map fun j =>
    (m.entries.map fun e => if e.1.2 = j then e.2 * x.getD e.1.1 0 else 0).sum

theorem sum_map_sum {ι : Type} (l : List ι) (s : Finset ℕ) (f : ι → ℕ → K) :
    (l.map fun e => ∑ i ∈ s, f e i).sum = ∑ i ∈ s, (l.map fun e => f e i).sum := by
  induction l with
  | nil => simp
  | cons e l ih => simp [ih,Finset.sum_add_distrib]

/-- The product is the dense one. -/
theorem transposeMul_eq (m : Coo K) (x : List K) : m.transposeMul x =
    (List.range m.cols).map fun j => ∑ i ∈ Finset.range m.rows, x.getD i 0 * m.value i j := by
  refine List.map_congr_left fun j _ => ?_
  have hentry : ∀ e ∈ m.entries, (if e.1.2 = j then e.2 * x.getD e.1.1 0 else 0) =
      ∑ i ∈ Finset.range m.rows, x.getD i 0 * if e.1 = (i,j) then e.2 else 0 := by
    rintro ⟨⟨i,k⟩,v⟩ he
    obtain ⟨hi,-⟩ := m.inside _ he
    rw [Finset.sum_eq_single_of_mem i (Finset.mem_range.mpr hi)]
    · by_cases hk : k = j <;> simp [hk,mul_comm]
    · intro i' _ hne
      rw [if_neg fun heq => hne (Prod.mk.inj heq).1.symm,mul_zero]
  rw [List.map_congr_left hentry,sum_map_sum]
  refine Finset.sum_congr rfl fun i _ => ?_
  rw [value,sumAt,← List.sum_map_mul_left]

/-- Rows from `start` on, up to `stop`. -/
def sliceRows (m : Coo K) (start stop : ℕ) : Coo K :=
  coalesced (stop - start) m.cols
    ((m.entries.filter fun e => start ≤ e.1.1 ∧ e.1.1 < stop).map fun e =>
      ((e.1.1 - start,e.1.2),e.2)) (by
    intro e he
    obtain ⟨e',he',rfl⟩ := List.mem_map.mp he
    obtain ⟨hmem,hrange⟩ := List.mem_filter.mp he'
    have hbounds := of_decide_eq_true hrange
    exact ⟨by dsimp only; omega,(m.inside e' hmem).2⟩)

theorem value_sliceRows (m : Coo K) {start stop i : ℕ} (hi : i < stop - start) (j : ℕ) :
    (m.sliceRows start stop).value i j = m.value (start + i) j := by
  have hvalue : (m.sliceRows start stop).value i j =
      sumAt ((m.entries.filter fun e => start ≤ e.1.1 ∧ e.1.1 < stop).map fun e =>
        ((e.1.1 - start,e.1.2),e.2)) (i,j) := sumAt_coalesce _ _
  rw [hvalue,value]
  generalize m.entries = entries
  induction entries with
  | nil => rfl
  | cons e entries ih =>
    obtain ⟨⟨row,col⟩,v⟩ := e
    rw [List.filter_cons,sumAt_cons,← ih]
    by_cases hrow : start ≤ row ∧ row < stop
    · rw [if_pos (decide_eq_true hrow),List.map_cons,sumAt_cons]
      have hiff : (row - start,col) = (i,j) ↔ (row,col) = (start + i,j) := by
        rw [Prod.mk.injEq,Prod.mk.injEq]
        omega
      rw [if_congr hiff rfl rfl]
    · have hne : (row,col) ≠ (start + i,j) := by
        rw [Ne,Prod.mk.injEq]
        omega
      rw [if_neg (by simpa using hrow),if_neg hne,zero_add]

/-- The columns that have a place among `count` new ones. -/
def mapCols (m : Coo K) (count : ℕ) (place : ℕ → Option ℕ)
    (hplace : ∀ j k, place j = some k → k < count) : Coo K :=
  coalesced m.rows count
    (m.entries.filterMap fun e => (place e.1.2).map fun k => ((e.1.1,k),e.2)) (by
    intro e he
    obtain ⟨e',hmem,hmap⟩ := List.mem_filterMap.mp he
    obtain ⟨k,hk,rfl⟩ := Option.map_eq_some_iff.mp hmap
    exact ⟨(m.inside e' hmem).1,hplace _ _ hk⟩)

/-- A new column is the one that has its place. -/
theorem value_mapCols (m : Coo K) {count : ℕ} {place : ℕ → Option ℕ}
    (hplace : ∀ j k, place j = some k → k < count) {i j k : ℕ}
    (hk : ∀ j', place j' = some k ↔ j' = j) : (m.mapCols count place hplace).value i k = m.value i j := by
  have hvalue : (m.mapCols count place hplace).value i k =
      sumAt (m.entries.filterMap fun e => (place e.1.2).map fun k => ((e.1.1,k),e.2)) (i,k) :=
    sumAt_coalesce _ _
  rw [hvalue,value]
  generalize m.entries = entries
  induction entries with
  | nil => rfl
  | cons e entries ih =>
    obtain ⟨⟨row,col⟩,v⟩ := e
    rw [sumAt_cons,← ih,List.filterMap_cons]
    have hcol := hk col
    cases hplaced : place col with
    | none =>
      have hne : col ≠ j := fun heq => by
        rw [hcol.mpr heq] at hplaced
        cases hplaced
      simp [hne]
    | some k' =>
      rw [hplaced,Option.some_inj] at hcol
      simp [hcol]

end Coo
end DockyardRL
