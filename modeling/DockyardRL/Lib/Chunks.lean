import Mathlib.Algebra.BigOperators.Group.List.Basic
import Mathlib.Algebra.Ring.Nat
import Mathlib.Tactic.Common
import Mathlib.Data.Fintype.Prod
import Mathlib.Data.List.FinRange
import Mathlib.Data.List.GetD

/-! A list cut into consecutive chunks of one length, of which the last may be shorter.

A stream cut into pieces: a piece is closed as soon as its elements weigh more than a target, and
the last piece may be lighter. Where it is cut depends on the weights alone. -/
namespace DockyardRL
namespace Chunks

variable {α β γ : Type*}

/-- The number of steps of a range from zero to `n` by `m`. -/
def rangeSteps (n m : ℕ) : ℕ := (n + m - 1) / m

/-- `[l[i : i + m] for i in range(0, len(l), m)]`. -/
def chunks (m : ℕ) (l : List α) : List (List α) :=
  (List.range (rangeSteps l.length m)).map fun i => (l.drop (i * m)).take m

variable {m : ℕ}

theorem rangeSteps_zero (hm : 0 < m) : rangeSteps 0 m = 0 := Nat.div_eq_of_lt (by omega)

theorem le_rangeSteps_mul (hm : 0 < m) (n : ℕ) : n ≤ rangeSteps n m * m := by
  have hdiv := Nat.div_add_mod (n + m - 1) m
  have hmod := Nat.mod_lt (n + m - 1) hm
  rw [rangeSteps,Nat.mul_comm]
  omega

theorem rangeSteps_bounds {n : ℕ} (hn : 0 < n) (hm : 0 < m) :
    0 < rangeSteps n m ∧ (rangeSteps n m - 1) * m < n ∧ n ≤ rangeSteps n m * m := by
  have hend := le_rangeSteps_mul hm n
  have hpos : 0 < rangeSteps n m := Nat.div_pos (by omega) hm
  have hle : rangeSteps n m * m ≤ n + m - 1 := Nat.div_mul_le_self _ _
  obtain ⟨c,hc⟩ := Nat.exists_eq_succ_of_ne_zero hpos.ne'
  rw [hc,Nat.succ_mul] at hle
  refine ⟨hpos,?_,hend⟩
  rw [hc,Nat.succ_sub_one]
  omega

theorem rangeSteps_add (hm : 0 < m) (n : ℕ) : rangeSteps (n + m) m = rangeSteps n m + 1 := by
  rw [rangeSteps,show n + m + m - 1 = n + m - 1 + m by omega,Nat.add_div_right _ hm]
  rfl

theorem rangeSteps_of_le {n : ℕ} (hn : 0 < n) (hle : n ≤ m) : rangeSteps n m = 1 := by
  rw [rangeSteps,show n + m - 1 = n - 1 + m by omega,Nat.add_div_right _ (by omega),
    Nat.div_eq_of_lt (by omega)]

/-- The number of chunks: the full ones and a shorter one for what is left. -/
theorem rangeSteps_eq (hm : 0 < m) (n : ℕ) :
    rangeSteps n m = n / m + if m ∣ n then 0 else 1 := by
  induction n using Nat.strong_induction_on with
  | _ n ih =>
    rcases Nat.lt_or_ge n m with hlt | hge
    · rw [Nat.div_eq_of_lt hlt]
      rcases Nat.eq_zero_or_pos n with rfl | hpos
      · simp [rangeSteps_zero hm]
      · rw [rangeSteps_of_le hpos hlt.le,if_neg (Nat.not_dvd_of_pos_of_lt hpos hlt)]
    · obtain ⟨k,rfl⟩ := Nat.exists_eq_add_of_le' hge
      rw [rangeSteps_add hm,ih k (by omega),Nat.add_div_right _ hm]
      simp only [Nat.dvd_add_self_right]
      omega

theorem chunks_nil (hm : 0 < m) : chunks m ([] : List α) = [] := by
  simp [chunks,rangeSteps_zero hm]

theorem chunks_of_le {l : List α} (hne : l ≠ []) (hle : l.length ≤ m) : chunks m l = [l] := by
  simp [chunks,rangeSteps_of_le (List.length_pos_of_ne_nil hne) hle,List.take_of_length_le hle]

theorem chunks_append (hm : 0 < m) {first : List α} (hfirst : first.length = m) (rest : List α) :
    chunks m (first ++ rest) = first :: chunks m rest := by
  have hdrop : ∀ i, (first ++ rest).drop ((i + 1) * m) = rest.drop (i * m) := by
    intro i
    rw [Nat.succ_mul,Nat.add_comm,← List.drop_drop,List.drop_left' hfirst]
  rw [chunks,List.length_append,hfirst,Nat.add_comm,rangeSteps_add hm,List.range_succ_eq_map,
    List.map_cons,List.map_map]
  refine congrArg₂ List.cons ?_ (List.map_congr_left fun i _ => ?_)
  · rw [Nat.zero_mul,List.drop_zero,List.take_left' hfirst]
  · simp only [Function.comp_apply,Nat.succ_eq_add_one,hdrop]

theorem chunk_induction (hm : 0 < m) {motive : List α → Prop} (nil : motive [])
    (short : ∀ l, l ≠ [] → l.length < m → motive l)
    (full : ∀ first rest, first.length = m → motive rest → motive (first ++ rest))
    (l : List α) : motive l := by
  induction hn : l.length using Nat.strong_induction_on generalizing l with
  | _ n ih =>
    subst hn
    rcases Nat.lt_or_ge l.length m with hlt | hge
    · rcases eq_or_ne l [] with rfl | hne
      · exact nil
      · exact short l hne hlt
    · rw [← List.take_append_drop m l]
      refine full _ _ (by rw [List.length_take,Nat.min_eq_left hge]) ?_
      exact ih _ (by rw [List.length_drop]; omega) _ rfl

/-- Nothing is lost, repeated or moved. -/
theorem flatten_chunks (hm : 0 < m) (l : List α) : (chunks m l).flatten = l := by
  induction l using chunk_induction hm with
  | nil => rw [chunks_nil hm]; rfl
  | short l hne hlt => rw [chunks_of_le hne hlt.le]; simp
  | full first rest hfirst ih => rw [chunks_append hm hfirst,List.flatten_cons,ih]

theorem length_chunks (m : ℕ) (l : List α) : (chunks m l).length = rangeSteps l.length m := by
  simp [chunks]

/-- What is done to every chunk is done to every element, at the number of its chunk. -/
theorem flatten_mapIdx_chunks (hm : 0 < m) (f : ℕ → α → β) (l : List α) :
    ((chunks m l).mapIdx fun j chunk => chunk.map (f j)).flatten = l.mapIdx fun i => f (i / m) := by
  induction l using chunk_induction hm generalizing f with
  | nil => rw [chunks_nil hm]; rfl
  | short l hne hlt =>
    rw [chunks_of_le hne hlt.le]
    refine List.ext_getElem (by simp) fun i hi _ => ?_
    have hi : i < l.length := by simpa using hi
    simp [Nat.div_eq_of_lt (hi.trans hlt)]
  | full first rest hfirst ih =>
    rw [chunks_append hm hfirst,List.mapIdx_cons,List.flatten_cons,ih,List.mapIdx_append,hfirst]
    congr 1
    · refine List.ext_getElem (by simp) fun i hi _ => ?_
      have hi : i < first.length := by simpa using hi
      simp [Nat.div_eq_of_lt (hfirst ▸ hi)]
    · simp only [Nat.add_div_right _ hm]

/-- Every chunk of an exact multiple is full. -/
theorem length_of_mem_chunks (hm : 0 < m) {l chunk : List α} (hdvd : m ∣ l.length)
    (h : chunk ∈ chunks m l) : chunk.length = m := by
  induction l using chunk_induction hm with
  | nil =>
    rw [chunks_nil hm] at h
    cases h
  | short l hne hlt =>
    exact absurd (Nat.le_of_dvd (List.length_pos_of_ne_nil hne) hdvd) (Nat.not_le.mpr hlt)
  | full first rest hfirst ih =>
    rw [chunks_append hm hfirst,List.mem_cons] at h
    rw [List.length_append,hfirst,Nat.dvd_add_right (dvd_refl m)] at hdvd
    rcases h with rfl | h
    · exact hfirst
    · exact ih hdvd h

/-- A chunk is full or what is left. -/
theorem length_mem_chunks (hm : 0 < m) {l chunk : List α} (h : chunk ∈ chunks m l) :
    (chunk.length = m ∧ m ≤ l.length) ∨ chunk.length = l.length % m := by
  induction l using chunk_induction hm with
  | nil =>
    rw [chunks_nil hm] at h
    cases h
  | short l hne hlt =>
    rw [chunks_of_le hne hlt.le,List.mem_singleton] at h
    exact .inr (by rw [h,Nat.mod_eq_of_lt hlt])
  | full first rest hfirst ih =>
    rw [chunks_append hm hfirst,List.mem_cons] at h
    rw [List.length_append,hfirst,Nat.add_mod_left]
    rcases h with rfl | h
    · exact .inl ⟨hfirst,Nat.le_add_right _ _⟩
    · exact (ih h).imp (fun h => ⟨h.1,Nat.le_add_right _ _⟩) id

theorem exists_full_chunk (hm : 0 < m) {l : List α} (h : m ≤ l.length) :
    ∃ chunk ∈ chunks m l, chunk.length = m := by
  have hfirst : (l.take m).length = m := by rw [List.length_take,Nat.min_eq_left h]
  have hcut := chunks_append hm hfirst (l.drop m)
  rw [List.take_append_drop] at hcut
  exact ⟨l.take m,hcut ▸ List.mem_cons_self,hfirst⟩

theorem exists_rest_chunk (hm : 0 < m) {l : List α} (h : l.length % m ≠ 0) :
    ∃ chunk ∈ chunks m l, chunk.length = l.length % m := by
  induction l using chunk_induction hm with
  | nil => simp at h
  | short l hne hlt =>
    rw [chunks_of_le hne hlt.le]
    exact ⟨l,List.mem_singleton_self l,(Nat.mod_eq_of_lt hlt).symm⟩
  | full first rest hfirst ih =>
    rw [List.length_append,hfirst,Nat.add_mod_left] at h ⊢
    obtain ⟨chunk,hchunk,hlength⟩ := ih h
    rw [chunks_append hm hfirst]
    exact ⟨chunk,List.mem_cons_of_mem _ hchunk,hlength⟩

theorem length_chunks_of_dvd (hm : 0 < m) {l : List α} (hdvd : m ∣ l.length) :
    (chunks m l).length = l.length / m := by
  rw [length_chunks,rangeSteps_eq hm,if_pos hdvd,Nat.add_zero]

theorem length_flatMap_const {k : ℕ} {f : α → List β} (hf : ∀ x, (f x).length = k) (l : List α) :
    (l.flatMap f).length = l.length * k := by
  induction l with
  | nil => simp
  | cons x l ih => rw [List.flatMap_cons,List.length_append,hf,ih,List.length_cons,Nat.succ_mul,
      Nat.add_comm]

/-- Chunks of a list of blocks of one length are the blocks of the chunks. -/
theorem chunks_flatMap (hm : 0 < m) {k : ℕ} (hk : 0 < k) {f : α → List β}
    (hf : ∀ x, (f x).length = k) (l : List α) :
    chunks (m * k) (l.flatMap f) = (chunks m l).map (List.flatMap f) := by
  have hlength := length_flatMap_const hf
  induction l using chunk_induction hm with
  | nil => rw [chunks_nil hm,List.flatMap_nil,chunks_nil (Nat.mul_pos hm hk)]; rfl
  | short l hne hlt =>
    rw [chunks_of_le hne hlt.le,chunks_of_le]
    · rfl
    · refine List.ne_nil_of_length_pos ?_
      rw [hlength]
      exact Nat.mul_pos (List.length_pos_of_ne_nil hne) hk
    · rw [hlength]
      exact Nat.mul_le_mul_right k hlt.le
  | full first rest hfirst ih =>
    have hblock : (first.flatMap f).length = m * k := by rw [hlength,hfirst]
    rw [List.flatMap_append,chunks_append (Nat.mul_pos hm hk) hblock,ih,chunks_append hm hfirst]
    rfl

section Whole

/-- What is left of a list whose full chunks are kept, with a default for a shorter last one. -/
def whole (m : ℕ) (l : List α) : List α := l.take (l.length / m * m)

/-- The full chunks are the first ones. -/
theorem take_chunks (hm : 0 < m) (l : List α) :
    ((chunks m l).take (l.length / m)).flatten = whole m l := by
  unfold whole
  induction l using chunk_induction hm with
  | nil => simp
  | short l hne hlt => simp [Nat.div_eq_of_lt hlt]
  | full first rest hfirst ih =>
    have hdiv : (first ++ rest).length / m = rest.length / m + 1 := by
      rw [List.length_append,hfirst,Nat.add_comm,Nat.add_div_right _ hm]
    rw [hdiv,chunks_append hm hfirst,List.take_succ_cons,List.flatten_cons,ih,Nat.succ_mul,
      List.take_append,hfirst,Nat.add_sub_cancel,List.take_of_length_le (l := first) (by omega)]

theorem length_whole (l : List α) : (whole m l).length = l.length / m * m := by
  rw [whole,List.length_take,Nat.min_eq_left (Nat.div_mul_le_self _ _)]

theorem whole_eq {l : List α} (h : m ∣ l.length) : whole m l = l := by
  rw [whole,Nat.div_mul_cancel h,List.take_length]

end Whole

/-- Of a numbered list only the first elements count. -/
theorem sum_zipIdx_lt [AddCommMonoid γ] (f : α → γ) (l : List α) (k : ℕ) :
    ((l.zipIdx).map fun x => if x.2 < k then f x.1 else 0).sum = ((l.take k).map f).sum := by
  suffices h : ∀ a, ((l.zipIdx a).map fun x => if x.2 < a + k then f x.1 else 0).sum =
      ((l.take k).map f).sum by simpa using h 0
  induction l generalizing k with
  | nil => simp
  | cons x l ih =>
    intro a
    rw [List.zipIdx_cons,List.map_cons,List.sum_cons]
    cases k with
    | zero =>
      have hnone : ∀ b, ((l.zipIdx b).map fun y => if y.2 < b then f y.1 else 0).sum = 0 := by
        simpa using ih 0
      have hle : ((l.zipIdx (a + 1)).map fun y => if y.2 < a then f y.1 else 0).sum = 0 := by
        refine List.sum_eq_zero fun y hy => ?_
        obtain ⟨p,hp,rfl⟩ := List.mem_map.mp hy
        have := List.le_snd_of_mem_zipIdx hp
        exact if_neg (by omega)
      simpa using hle
    | succ k =>
      have htail := ih k (a + 1)
      rw [List.take_succ_cons,List.map_cons,List.sum_cons,← htail,if_pos (by simp)]
      simp only [Nat.add_assoc,Nat.add_comm 1 k]

end Chunks

namespace Cut

variable {α β : Type*}

/-- The pieces of a stream when the elements of `piece` have been taken since the last cut. -/
def cutFrom (size : α → ℕ) (target : ℕ) : List α → List α → List (List α)
  | piece, [] => if piece.isEmpty then [] else [piece]
  | piece, x :: rest =>
    if target < ((piece ++ [x]).map size).sum then (piece ++ [x]) :: cutFrom size target [] rest
    else cutFrom size target (piece ++ [x]) rest

variable (size : α → ℕ) (target : ℕ)

/-- Nothing is lost, repeated or moved. -/
theorem flatten_cutFrom (piece rest : List α) :
    (cutFrom size target piece rest).flatten = piece ++ rest := by
  induction rest generalizing piece with
  | nil => cases piece <;> simp [cutFrom]
  | cons x rest ih =>
    rw [cutFrom]
    split_ifs
    · rw [List.flatten_cons,ih,List.append_assoc]
      rfl
    · rw [ih,List.append_assoc]
      rfl

/-- Pieces of another stream with the same weights. -/
theorem cutFrom_map (f : β → α) (piece rest : List β) :
    cutFrom size target (piece.map f) (rest.map f) =
      (cutFrom (size ∘ f) target piece rest).map (List.map f) := by
  induction rest generalizing piece with
  | nil => cases piece <;> simp [cutFrom]
  | cons x rest ih =>
    have hpiece : piece.map f ++ [f x] = (piece ++ [x]).map f := by simp
    have hrest := ih []
    rw [List.map_nil] at hrest
    rw [List.map_cons,cutFrom,cutFrom,hpiece,List.map_map]
    split_ifs
    · rw [List.map_cons,hrest]
    · exact ih _

end Cut

end DockyardRL
