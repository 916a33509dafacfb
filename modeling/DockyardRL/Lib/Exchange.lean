import DockyardRL.Lib.Gather
import Mathlib.Algebra.BigOperators.Group.List.Basic
import Mathlib.Algebra.Order.Group.Nat
import Mathlib.Algebra.Ring.Nat
import Mathlib.Data.List.Nodup

/-! Segments laid out one after the other: a list cut at given lengths, the exchange of segments
between ranks, and the reordering of the segments of a matrix from rows to columns.

The exchange of segments whose senders say where in the receiver's output they are written. The
output is the segments in the order of the senders exactly when every sender knows its place. -/
namespace DockyardRL
namespace Exchange

open Gather Stripes

variable {α : Type*}

/-- Segment `j` of a list that is cut at the given lengths. -/
def part (splits : List ℕ) (l : List α) (j : ℕ) : List α :=
  (l.drop (splits.take j).sum).take (splits.getD j 0)

/-- `all_to_all_single`: segment `j` of rank `r` goes to rank `j`, which receives its segments in the
order of the ranks. The splits have to fit the data and each other. -/
def allToAllSingle (n : ℕ) (outputSplits inputSplits : ℕ → List ℕ) (inputs : ℕ → List α) :
    Option (ℕ → List α) :=
  if (∀ r < n, (inputSplits r).length = n ∧ (inputs r).length = (inputSplits r).sum) ∧
      ∀ j < n, outputSplits j = (List.range n).map fun r => (inputSplits r).getD j 0 then
    some fun j => (List.range n).flatMap fun r => part (inputSplits r) (inputs r) j
  else none

/-- The splits that `all_to_all_single` takes when it is given none. -/
def equalSplits (n : ℕ) (inputs : ℕ → List α) (r : ℕ) : List ℕ :=
  List.replicate n ((inputs r).length / n)

theorem take_range_map (g : ℕ → α) {n j : ℕ} (hj : j ≤ n) :
    ((List.range n).map g).take j = (List.range j).map g := by
  rw [← List.map_take,List.take_range,Nat.min_eq_left hj]

theorem getD_range_map (g : ℕ → α) (d : α) {n j : ℕ} (hj : j < n) :
    ((List.range n).map g).getD j d = g j := by
  simp [hj]

theorem length_flatMap_range (f : ℕ → List α) (n : ℕ) :
    ((List.range n).flatMap f).length = ((List.range n).map fun i => (f i).length).sum :=
  List.length_flatMap

theorem range_split {n j : ℕ} (hj : j < n) :
    List.range n = List.range j ++ j :: List.range' (j + 1) (n - j - 1) := by
  have happend := @List.range'_append_1 0 j (n - j)
  rw [Nat.zero_add,Nat.add_sub_cancel' (Nat.le_of_lt hj)] at happend
  obtain ⟨d,hd⟩ := Nat.exists_eq_succ_of_ne_zero (Nat.sub_ne_zero_of_lt hj)
  rw [List.range_eq_range',List.range_eq_range',← happend,hd,List.range'_succ]
  rfl

/-- Each segment is cut out again. -/
theorem part_segments (f : ℕ → List α) {n j : ℕ} (hj : j < n) :
    part ((List.range n).map fun i => (f i).length) ((List.range n).flatMap f) j = f j := by
  rw [part,take_range_map _ (Nat.le_of_lt hj),getD_range_map _ 0 hj,← length_flatMap_range,
    range_split hj,List.flatMap_append,List.drop_left,List.flatMap_cons,List.take_left]

/-- What the exchange of segments leaves on each rank. -/
theorem allToAllSingle_segments {n : ℕ} {outputSplits inputSplits : ℕ → List ℕ}
    {inputs : ℕ → List α} (h : ℕ → ℕ → List α)
    (hinputs : ∀ r < n, inputs r = (List.range n).flatMap (h r))
    (hin : ∀ r < n, inputSplits r = (List.range n).map fun d => (h r d).length)
    (hout : ∀ d < n, outputSplits d = (List.range n).map fun r => (h r d).length) :
    ∃ out, allToAllSingle n outputSplits inputSplits inputs = some out ∧
      ∀ d < n, out d = (List.range n).flatMap fun r => h r d := by
  have hfit : ∀ r < n, (inputSplits r).length = n ∧ (inputs r).length = (inputSplits r).sum := by
    intro r hr
    refine ⟨?_,?_⟩
    · rw [hin r hr,List.length_map,List.length_range]
    · rw [hinputs r hr,hin r hr,length_flatMap_range]
  have hagree : ∀ d < n,
      outputSplits d = (List.range n).map fun r => (inputSplits r).getD d 0 := by
    intro d hd
    rw [hout d hd]
    refine List.map_congr_left fun r hr => ?_
    rw [hin r (List.mem_range.mp hr),getD_range_map _ 0 hd]
  refine ⟨_,if_pos ⟨hfit,hagree⟩,fun d hd => ?_⟩
  refine List.flatMap_congr fun r hr => ?_
  rw [hinputs r (List.mem_range.mp hr),hin r (List.mem_range.mp hr),part_segments _ hd]

/-- `l.reshape(n, -1)`. -/
def reshape (n : ℕ) (l : List α) : List (List α) :=
  (List.range n).map fun i => (l.drop (i * (l.length / n))).take (l.length / n)

/-- `m.t()`. -/
def transpose (m : List (List ℕ)) : List (List ℕ) :=
  (List.range (m.headD []).length).map fun j => m.map (·.getD j 0)

/-- `l.cumsum(0)`. -/
def cumsum (l : List ℕ) : List ℕ := (List.range l.length).map fun i => (l.take (i + 1)).sum

/-- `l.cumsum(0) - l`. -/
def starts (l : List ℕ) : List ℕ := List.zipWith (· - ·) (cumsum l) l

/-- `arange(len(lens)).repeat_interleave(lens)`. -/
def repeatInterleave (lens : List ℕ) : List ℕ :=
  (List.range lens.length).flatMap fun s => List.replicate (lens.getD s 0) s

variable {n w : ℕ}

theorem length_starts (l : List ℕ) : (starts l).length = l.length := by
  simp [starts,cumsum]

theorem getD_starts {l : List ℕ} {i : ℕ} (hi : i < l.length) :
    (starts l).getD i 0 = (l.take i).sum := by
  have hlen : i < (starts l).length := by rwa [length_starts]
  rw [List.getD_eq_getElem _ _ hlen]
  simp only [starts,cumsum,List.getElem_zipWith,List.getElem_map,List.getElem_range]
  rw [List.take_succ_eq_append_getElem hi,List.sum_append,List.sum_singleton,Nat.add_sub_cancel]

/-- A range of products, row by row. -/
theorem range_mul_flatMap (f : ℕ → List α) :
    ((List.range n).flatMap fun i => (List.range w).flatMap fun j => f (i * w + j)) =
      (List.range (n * w)).flatMap f := by
  have hrows := blocks_eq 0 w n
  rw [← List.range_eq_range'] at hrows
  rw [← hrows,List.flatMap_assoc]
  refine List.flatMap_congr fun i _ => ?_
  rw [Nat.zero_add,List.range'_eq_map_range,List.flatMap_map]

theorem reshape_eq (hn : 0 < n) {l : List ℕ} (hl : l.length = n * w) :
    reshape n l = (List.range n).map fun i => (List.range w).map fun j => l.getD (i * w + j) 0 := by
  rw [reshape,hl,Nat.mul_div_cancel_left _ hn]
  refine List.map_congr_left fun i hi => ?_
  have hle : i * w + w ≤ l.length := by
    rw [hl,← Nat.succ_mul]
    exact Nat.mul_le_mul_right w (List.mem_range.mp hi)
  refine List.ext_getElem (by simp; omega) fun j hj _ => ?_
  rw [List.length_take] at hj
  have hlt : i * w + j < l.length := by omega
  simp [List.getElem_take,List.getElem_drop,hlt]

theorem transpose_reshape (hn : 0 < n) {l : List ℕ} (hl : l.length = n * w) :
    transpose (reshape n l) =
      (List.range w).map fun j => (List.range n).map fun i => l.getD (i * w + j) 0 := by
  have hwidth : ((reshape n l).headD []).length = w := by
    obtain ⟨m,rfl⟩ := Nat.exists_eq_succ_of_ne_zero hn.ne'
    rw [reshape_eq hn hl,List.range_succ_eq_map,List.map_cons,List.headD_cons,List.length_map,
      List.length_range]
  rw [transpose,hwidth,reshape_eq hn hl]
  refine List.map_congr_left fun j hj => ?_
  rw [List.map_map]
  refine List.map_congr_left fun i _ => ?_
  exact getD_range_map _ 0 (List.mem_range.mp hj)

theorem length_repeatInterleave_take (lens : List ℕ) {k : ℕ} (hk : k ≤ lens.length) :
    ((List.range k).flatMap fun s => List.replicate (lens.getD s 0) s).length =
      (lens.take k).sum := by
  induction k with
  | zero => simp
  | succ k ih =>
    rw [List.range_succ,List.flatMap_append,List.length_append,ih (by omega),List.flatMap_singleton,
      List.length_replicate,List.take_succ_eq_append_getElem hk,List.sum_append,List.sum_singleton,
      List.getD_eq_getElem _ _ hk]

/-- The indices that a segment number at every position gives, as one run for each segment. -/
theorem positions_eq_runs (begins lens : List ℕ) :
    ((List.range (repeatInterleave lens).length).map fun i =>
      begins.getD ((repeatInterleave lens).getD i 0) 0 + i -
        (starts lens).getD ((repeatInterleave lens).getD i 0) 0) =
      (List.range lens.length).flatMap fun s =>
        List.range' (begins.getD s 0) (lens.getD s 0) := by
  have hfront : ∀ k ≤ lens.length,
      ((List.range ((List.range k).flatMap fun s => List.replicate (lens.getD s 0) s).length).map
        fun i => begins.getD (((List.range k).flatMap fun s =>
            List.replicate (lens.getD s 0) s).getD i 0) 0 + i -
          (starts lens).getD (((List.range k).flatMap fun s =>
            List.replicate (lens.getD s 0) s).getD i 0) 0) =
        (List.range k).flatMap fun s => List.range' (begins.getD s 0) (lens.getD s 0) := by
    intro k hk
    induction k with
    | zero => rfl
    | succ k ih =>
      have hlen := length_repeatInterleave_take lens (Nat.le_of_succ_le hk)
      have hbehind := ih (by omega)
      generalize hids : ((List.range k).flatMap fun s => List.replicate (lens.getD s 0) s) = ids at *
      rw [List.range_succ,List.flatMap_append,List.flatMap_append,List.flatMap_singleton,
        List.flatMap_singleton,hids,List.length_append,List.length_replicate,List.range_add,
        List.map_append,List.map_map,← hbehind,List.range'_eq_map_range]
      congr 1
      · refine List.map_congr_left fun i hi => ?_
        rw [List.getD_append _ _ _ _ (List.mem_range.mp hi)]
      · refine List.map_congr_left fun i hi => ?_
        have hi := List.mem_range.mp hi
        have hid : (ids ++ List.replicate (lens.getD k 0) k).getD (ids.length + i) 0 = k := by
          rw [List.getD_append_right _ _ _ _ (Nat.le_add_right _ _),Nat.add_sub_cancel_left,
            List.getD_eq_getElem _ _ (by rwa [List.length_replicate]),List.getElem_replicate]
        show begins.getD ((ids ++ List.replicate (lens.getD k 0) k).getD (ids.length + i) 0) 0 +
          (ids.length + i) - (starts lens).getD
            ((ids ++ List.replicate (lens.getD k 0) k).getD (ids.length + i) 0) 0 =
          begins.getD k 0 + i
        rw [hid,getD_starts hk,hlen]
        omega
  exact hfront lens.length le_rfl

def columnRuns (n w : ℕ) (lens : List ℕ) : List ℕ :=
  (List.range w).flatMap fun j => (List.range n).flatMap fun i =>
    List.range' ((starts lens).getD (i * w + j) 0) (lens.getD (i * w + j) 0)

theorem index_lt {i j : ℕ} (hi : i < n) (hj : j < w) : i * w + j < n * w := by
  have hle : (i + 1) * w ≤ n * w := Nat.mul_le_mul_right w hi
  rw [Nat.succ_mul] at hle
  omega

/-- Reading the runs lays out the segments column by column. -/
theorem gather_columnRuns (f : ℕ → List α) :
    gather ((List.range (n * w)).flatMap f)
      (columnRuns n w ((List.range (n * w)).map fun p => (f p).length)) =
        (List.range w).flatMap fun j => (List.range n).flatMap fun i => f (i * w + j) := by
  rw [columnRuns,gather,List.filterMap_flatMap]
  refine List.flatMap_congr fun j hj => ?_
  rw [List.filterMap_flatMap]
  refine List.flatMap_congr fun i hi => ?_
  have hp := index_lt (List.mem_range.mp hi) (List.mem_range.mp hj)
  have hbegin : (starts ((List.range (n * w)).map fun p => (f p).length)).getD (i * w + j) 0 =
      (((List.range (n * w)).map fun p => (f p).length).take (i * w + j)).sum :=
    getD_starts (by rwa [List.length_map,List.length_range])
  have hpart := part_segments f hp
  rw [part] at hpart
  rw [hbegin]
  refine Eq.trans (drop_take_eq_gather _ ?_).symm hpart
  rw [getD_range_map _ 0 hp,take_range_map _ (Nat.le_of_lt hp),← length_flatMap_range,
    range_split hp,List.flatMap_append,List.flatMap_cons]
  simp only [List.length_append]
  omega

/-- The runs of all segments are all positions. -/
theorem columnRuns_perm {lens : List ℕ} (hlens : lens.length = n * w) :
    (columnRuns n w lens).Perm (List.range lens.sum) := by
  have hrows : ((List.range (n * w)).flatMap fun p =>
      List.range' ((starts lens).getD p 0) (lens.getD p 0)) = List.range lens.sum := by
    have hfront : ∀ k ≤ lens.length, ((List.range k).flatMap fun p =>
        List.range' ((starts lens).getD p 0) (lens.getD p 0)) = List.range (lens.take k).sum := by
      intro k hk
      induction k with
      | zero => simp
      | succ k ih =>
        rw [List.range_succ,List.flatMap_append,ih (by omega),List.flatMap_singleton,
          getD_starts hk,List.take_succ_eq_append_getElem hk,List.sum_append,List.sum_singleton,
          List.getD_eq_getElem _ _ hk,List.range_add,List.range'_eq_map_range]
    rw [← hlens,hfront lens.length le_rfl,List.take_length]
  rw [← hrows,← range_mul_flatMap,columnRuns]
  rw [← Multiset.coe_eq_coe]
  simp only [← Multiset.coe_bind]
  exact Multiset.bind_bind _ _

section Rows

variable {k : ℕ} {rows : List (List α)}

theorem length_flatten_rows (h : ∀ row ∈ rows, row.length = k) :
    rows.flatten.length = rows.length * k := by
  induction rows with
  | nil => exact (Nat.zero_mul k).symm
  | cons row rows ih =>
    rw [List.flatten_cons,List.length_append,ih fun r hr => h r (List.mem_cons_of_mem row hr),
      h row List.mem_cons_self,List.length_cons,Nat.succ_mul,Nat.add_comm]

theorem getD_flatten_rows (h : ∀ row ∈ rows, row.length = k) (d : α) {t j : ℕ} (hj : j < k) :
    rows.flatten.getD (t * k + j) d = (rows.getD t []).getD j d := by
  induction rows generalizing t with
  | nil => rfl
  | cons row rows ih =>
    have hrow := h row List.mem_cons_self
    cases t with
    | zero =>
      rw [Nat.zero_mul,Nat.zero_add,List.flatten_cons,List.getD_append _ _ _ _ (by omega)]
      rfl
    | succ t =>
      have hindex : (t + 1) * k + j = row.length + (t * k + j) := by
        rw [Nat.succ_mul,hrow]
        omega
      rw [hindex,List.flatten_cons,List.getD_append_right _ _ _ _ (Nat.le_add_right _ _),
        Nat.add_sub_cancel_left,ih fun r hr => h r (List.mem_cons_of_mem row hr)]
      rfl

/-- The entries of a row among the entries of all rows. -/
theorem filter_div {T t : ℕ} (ht : t < T) :
    ((List.range (T * k)).filter fun s => s / k = t) = (List.range k).map fun j => t * k + j := by
  have hblock : ∀ i, ((List.range k).map fun j => i * k + j).filter (fun s => s / k = t) =
      if i = t then (List.range k).map fun j => i * k + j else [] := by
    intro i
    have hdiv : ∀ s ∈ (List.range k).map fun j => i * k + j, s / k = i := by
      intro s hs
      obtain ⟨j,hj,rfl⟩ := List.mem_map.mp hs
      have hj := List.mem_range.mp hj
      rw [Nat.add_comm,Nat.add_mul_div_right _ _ (by omega),Nat.div_eq_of_lt hj,Nat.zero_add]
    split_ifs with hi
    · exact List.filter_eq_self.mpr fun s hs => by rw [hdiv s hs,hi]; exact decide_eq_true rfl
    · exact List.filter_eq_nil_iff.mpr fun s hs => by rw [hdiv s hs]; simpa using hi
  have hrange : List.range (T * k) =
      (List.range T).flatMap fun i => (List.range k).map fun j => i * k + j := by
    have hrows := @range_mul_flatMap ℕ T k fun s => [s]
    rw [List.flatMap_singleton'] at hrows
    rw [← hrows]
    refine List.flatMap_congr fun i _ => ?_
    rw [List.map_eq_flatMap]
  have hempty : ∀ l : List ℕ, t ∉ l → (l.flatMap fun i =>
      ((List.range k).map fun j => i * k + j).filter fun s => s / k = t) = [] := by
    intro l hl
    refine List.flatMap_eq_nil_iff.mpr fun i hi => ?_
    rw [hblock,if_neg fun h => hl (by rwa [← h])]
  rw [hrange,List.filter_flatMap,range_split ht,List.flatMap_append,List.flatMap_cons,
    hempty _ (by simp),hempty _ (by simp),hblock,if_pos rfl,List.nil_append,List.append_nil]

end Rows

end Exchange

namespace Ragged

open Exchange Gather

variable {α : Type*} {n : ℕ}

/-- `jax.lax.ragged_all_to_all`: device `r` writes `sendSizes[j]` rows of its operand, from
`inputOffsets[j]` on, to the output of device `j` at its `outputOffsets[j]`. -/
def raggedAllToAll (n : ℕ) (operand output : ℕ → List α)
    (inputOffsets sendSizes outputOffsets : ℕ → List ℕ) (j : ℕ) : List α :=
  (List.range n).foldl (fun out r =>
    let rows := ((operand r).drop ((inputOffsets r).getD j 0)).take ((sendSizes r).getD j 0)
    scatter out (List.range' ((outputOffsets r).getD j 0) rows.length) rows) (output j)

/-- The positions of the output of device `j` that are written. -/
def written (n : ℕ) (sendSizes outputOffsets : ℕ → List ℕ) (j : ℕ) : List ℕ :=
  (List.range n).flatMap fun r =>
    List.range' ((outputOffsets r).getD j 0) ((sendSizes r).getD j 0)

/-- What is sent from the segments of the operands. -/
theorem raggedAllToAll_segments {operand : ℕ → List α} (output : ℕ → List α)
    {inputOffsets sendSizes : ℕ → List ℕ} (outputOffsets : ℕ → List ℕ) (seg : ℕ → ℕ → List α)
    (hoperand : ∀ r < n, operand r = (List.range n).flatMap (seg r))
    (hsizes : ∀ r < n, sendSizes r = (List.range n).map fun j => (seg r j).length)
    (hoffsets : ∀ r < n, inputOffsets r = starts (sendSizes r)) {j : ℕ} (hj : j < n) :
    raggedAllToAll n operand output inputOffsets sendSizes outputOffsets j =
      (List.range n).foldl (fun out r =>
        scatter out (List.range' ((outputOffsets r).getD j 0) (seg r j).length) (seg r j))
          (output j) := by
  have hrows : ∀ r < n, ((operand r).drop ((inputOffsets r).getD j 0)).take
      ((sendSizes r).getD j 0) = seg r j := by
    intro r hr
    have hpart := part_segments (seg r) hj
    rw [hoperand r hr,hoffsets r hr,hsizes r hr,getD_starts (by simpa using hj)]
    exact hpart
  exact List.foldl_ext _ _ _ fun out r hr => by
    dsimp only
    rw [hrows r (List.mem_range.mp hr)]

theorem scatter_range' (front back : List α) {rows : List α} (hrows : rows.length ≤ back.length) :
    scatter (front ++ back) (List.range' front.length rows.length) rows =
      front ++ rows ++ back.drop rows.length := by
  induction rows generalizing front back with
  | nil => simp [scatter]
  | cons row rows ih =>
    cases back with
    | nil => simp at hrows
    | cons x back =>
      have hset : (front ++ x :: back).set front.length row = (front ++ [row]) ++ back := by simp
      have hrest := ih (front ++ [row]) back (by simpa using hrows)
      rw [List.length_append,List.length_singleton] at hrest
      rw [List.length_cons,List.range'_succ,scatter_cons,hset,hrest]
      simp

/-- Segments that are all written behind those of the devices before. -/
theorem foldl_scatter_eq {offset : ℕ → ℕ} {seg : ℕ → List α} {out : List α}
    (hout : out.length = ((List.range n).map fun r => (seg r).length).sum)
    (hplace : ∀ r < n, 0 < (seg r).length →
      offset r = ((List.range r).map fun i => (seg i).length).sum) :
    (List.range n).foldl (fun out r =>
      scatter out (List.range' (offset r) (seg r).length) (seg r)) out =
        (List.range n).flatMap seg := by
  have hfront : ∀ k ≤ n, (List.range k).foldl (fun out r =>
      scatter out (List.range' (offset r) (seg r).length) (seg r)) out =
        (List.range k).flatMap seg ++ out.drop ((List.range k).flatMap seg).length := by
    intro k hk
    induction k with
    | zero => simp
    | succ k ih =>
      have hlength : ((List.range (k + 1)).flatMap seg).length ≤ out.length := by
        rw [hout,length_flatMap_range]
        have hsplit : List.range n = List.range (k + 1) ++ List.range' (k + 1) (n - (k + 1)) := by
          rw [List.range_eq_range',List.range_eq_range']
          have happend := @List.range'_append_1 0 (k + 1) (n - (k + 1))
          rw [Nat.zero_add,Nat.add_sub_cancel' hk] at happend
          exact happend.symm
        rw [hsplit,List.map_append,List.sum_append]
        exact Nat.le_add_right _ _
      rw [List.range_succ,List.flatMap_append,List.length_append,List.flatMap_singleton] at hlength
      rw [List.range_succ,List.foldl_append,ih (by omega),List.foldl_cons,List.foldl_nil,
        List.flatMap_append,List.flatMap_singleton]
      rcases Nat.eq_zero_or_pos (seg k).length with hzero | hpos
      · rw [List.length_eq_zero_iff.mp hzero]
        simp [scatter]
      · rw [hplace k hk hpos,← length_flatMap_range,scatter_range' _ _ (by
          rw [List.length_drop]
          omega),List.drop_drop,List.length_append]
  have hall := hfront n le_rfl
  rw [hall,length_flatMap_range,← hout,List.drop_length,List.append_nil]

/-- They are all the positions. -/
theorem flatMap_range'_eq (offset size : ℕ → ℕ)
    (hplace : ∀ r < n, 0 < size r → offset r = ((List.range r).map size).sum) :
    ((List.range n).flatMap fun r => List.range' (offset r) (size r)) =
      List.range ((List.range n).map size).sum := by
  have hfront : ∀ k ≤ n, ((List.range k).flatMap fun r => List.range' (offset r) (size r)) =
      List.range ((List.range k).map size).sum := by
    intro k hk
    induction k with
    | zero => rfl
    | succ k ih =>
      rw [List.range_succ,List.flatMap_append,ih (by omega),List.flatMap_singleton,List.map_append,
        List.map_singleton,List.sum_append,List.sum_singleton,List.range_add]
      rcases Nat.eq_zero_or_pos (size k) with hzero | hpos
      · rw [hzero]
        rfl
      · rw [hplace k hk hpos,List.range'_eq_map_range]
  exact hfront n le_rfl

theorem length_foldl_scatter (offset : ℕ → ℕ) (seg : ℕ → List α) (l : List ℕ)
    (out : List α) : (l.foldl (fun out r =>
      scatter out (List.range' (offset r) (seg r).length) (seg r)) out).length = out.length := by
  induction l using List.reverseRecOn with
  | nil => rfl
  | append_singleton l i ih =>
    rw [List.foldl_append,List.foldl_cons,List.foldl_nil,length_scatter,ih]

/-- When no position is written twice or never, a segment is found where it was written. -/
theorem getElem?_foldl_scatter {offset : ℕ → ℕ} {seg : ℕ → List α} {out : List α}
    (hperm : ((List.range n).flatMap fun r => List.range' (offset r) (seg r).length).Perm
      (List.range out.length)) {r : ℕ} (hr : r < n) {a : ℕ} (ha : a < (seg r).length) :
    ((List.range n).foldl (fun out r =>
      scatter out (List.range' (offset r) (seg r).length) (seg r)) out)[offset r + a]? =
        (seg r)[a]? := by
  have hnodup := hperm.nodup_iff.mpr List.nodup_range
  rw [List.nodup_flatMap] at hnodup
  have hwithin : ∀ i ∈ List.range n, Within (List.range' (offset i) (seg i).length) out.length :=
    fun i hi p hp => List.mem_range.mp (hperm.mem_iff.mp (List.mem_flatMap.mpr ⟨i,hi,hp⟩))
  have hdisjoint : ∀ i ∈ List.range n, ∀ k ∈ List.range n, i ≠ k →
      ∀ p ∈ List.range' (offset i) (seg i).length,
        p ∉ List.range' (offset k) (seg k).length := by
    intro i hi k hk hne p hp hp'
    have hsymm : Std.Symm (Function.onFun List.Disjoint fun r =>
        List.range' (offset r) (seg r).length) := ⟨fun _ _ h => List.Disjoint.symm h⟩
    exact hnodup.2.forall hi hk hne hp hp'
  have hread := gather_foldl_scatter List.nodup_range (fun i _ => List.nodup_range') hwithin
    (fun i _ => List.length_range') hdisjoint (List.mem_range.mpr hr)
  have hat := congrArg (·[a]?) hread
  rw [getElem?_gather (by rw [length_foldl_scatter]; exact hwithin r (List.mem_range.mpr hr)),
    List.getElem?_range' ha] at hat
  simpa using hat

/-- The segments of lengths that fit a list are the list. -/
theorem flatMap_part {lens : List ℕ} {l : List α} (h : lens.sum = l.length) :
    (List.range lens.length).flatMap (part lens l) = l := by
  have hfront : ∀ k ≤ lens.length,
      (List.range k).flatMap (part lens l) = l.take (lens.take k).sum := by
    intro k hk
    induction k with
    | zero => simp
    | succ k ih =>
      rw [List.range_succ,List.flatMap_append,ih (by omega),List.flatMap_singleton,part,
        List.take_succ_eq_append_getElem hk,List.sum_append,List.sum_singleton,
        List.getD_eq_getElem _ _ hk,List.take_add]
  rw [hfront lens.length le_rfl,List.take_length,h,List.take_length]

theorem length_part {lens : List ℕ} {l : List α} (h : lens.sum = l.length) {j : ℕ}
    (hj : j < lens.length) : (part lens l j).length = lens.getD j 0 := by
  have hle : (lens.take (j + 1)).sum ≤ lens.sum := by
    conv_rhs => rw [← List.take_append_drop (j + 1) lens,List.sum_append]
    exact Nat.le_add_right _ _
  rw [List.take_succ_eq_append_getElem hj,List.sum_append,List.sum_singleton] at hle
  rw [part,List.length_take,List.length_drop,List.getD_eq_getElem _ _ hj]
  omega

/-- A position belongs to a segment. -/
theorem exists_segment {seg : ℕ → List α} {q : ℕ} {x : α}
    (h : ((List.range n).flatMap seg)[q]? = some x) : ∃ i < n, x ∈ seg i ∧
      ((List.range i).map fun k => (seg k).length).sum ≤ q ∧
      q < ((List.range i).map fun k => (seg k).length).sum + (seg i).length := by
  induction n with
  | zero => simp at h
  | succ n ih =>
    rw [List.range_succ,List.flatMap_append,List.flatMap_singleton] at h
    rcases Nat.lt_or_ge q ((List.range n).flatMap seg).length with hlt | hge
    · rw [List.getElem?_append_left hlt] at h
      obtain ⟨i,hi,hin⟩ := ih h
      exact ⟨i,Nat.lt_succ_of_lt hi,hin⟩
    · rw [List.getElem?_append_right hge] at h
      obtain ⟨hlt,-⟩ := List.getElem?_eq_some_iff.mp h
      rw [length_flatMap_range] at hlt hge
      exact ⟨n,Nat.lt_succ_self n,List.mem_of_getElem? h,hge,by omega⟩

/-- What is found at a position that is written once was written there by one device. -/
theorem exists_writer {offset : ℕ → ℕ} {seg : ℕ → List α} {out : List α}
    (hperm : ((List.range n).flatMap fun r => List.range' (offset r) (seg r).length).Perm
      (List.range out.length)) {p : ℕ} (hp : p < out.length) :
    ∃ r < n, offset r ≤ p ∧ p < offset r + (seg r).length ∧ ∃ x ∈ seg r,
      ((List.range n).foldl (fun out r =>
        scatter out (List.range' (offset r) (seg r).length) (seg r)) out)[p]? = some x := by
  obtain ⟨r,hr,hmem⟩ := List.mem_flatMap.mp (hperm.mem_iff.mpr (List.mem_range.mpr hp))
  obtain ⟨hge,hlt⟩ := List.mem_range'_1.mp hmem
  have ha : p - offset r < (seg r).length := by omega
  have hread := getElem?_foldl_scatter hperm (List.mem_range.mp hr) ha
  rw [Nat.add_sub_cancel' hge,List.getElem?_eq_getElem ha] at hread
  exact ⟨r,List.mem_range.mp hr,hge,hlt,_,List.getElem_mem ha,hread⟩

end Ragged
end DockyardRL
