import Mathlib.Algebra.Order.Group.Nat
import Mathlib.Algebra.Ring.Nat
import Mathlib.Data.List.Forall2
import Mathlib.Data.List.SplitLengths
import Mathlib.Order.Monotone.Basic
import Mathlib.Tactic.Common
import Mathlib.Data.List.GetD
import Mathlib.Data.Prod.Basic

/-! Pieces laid out one after the other, with their cumulative lengths: cutting them out again and
writing them back one by one. The layout may be scaled down by a common divisor of the lengths.

Matrices as lists of rows: blocks that are cut out, blocks that are written, and tilings of a matrix
by the products of consecutive spans. -/
namespace DockyardRL
namespace Packed

variable {α β κ : Type*}

/-- `tensor[start:stop] = values`. -/
def setSlice (tensor : List β) (start stop : ℕ) (values : List β) : List β :=
  tensor.take start ++ values ++ tensor.drop stop

def spans (cumulative : List ℕ) : List (ℕ × ℕ) := cumulative.zip cumulative.tail

def cumulative (lens : List ℕ) : List ℕ := lens.scanl (· + ·) 0

def spanList : ℕ → List ℕ → List (ℕ × ℕ)
  | _, [] => []
  | a, len :: lens => (a,a + len) :: spanList (a + len) lens

theorem spans_scanl (a : ℕ) (lens : List ℕ) : spans (lens.scanl (· + ·) a) = spanList a lens := by
  induction lens generalizing a with
  | nil => rfl
  | cons len lens ih =>
    have hrest := ih (a + len)
    rw [spanList,← hrest]
    cases lens with
    | nil => rfl
    | cons next lens => simp [spans,List.scanl_cons]

theorem spans_cumulative (lens : List ℕ) : spans (cumulative lens) = spanList 0 lens :=
  spans_scanl 0 lens

def slice (c : ℕ) (tensor : List β) (span : ℕ × ℕ) : List β :=
  (tensor.drop (span.1 / c)).take (span.2 / c - span.1 / c)

variable {c : ℕ} {len : α → ℕ} {pieces : List α}

/-- Each piece is cut out, in all of several layouts at once. -/
theorem forall₂_slices (hc : 0 < c) {f : κ → α → List β}
    (hlen : ∀ q ∈ pieces, ∀ k, (f k q).length * c = len q) {a : ℕ} {front : κ → List β}
    (hfront : ∀ k, (front k).length * c = a) :
    List.Forall₂ (fun span q => q ∈ pieces ∧ span.2 = span.1 + len q ∧
      ∀ k, slice c (front k ++ pieces.flatMap (f k)) span = f k q) (spanList a (pieces.map len))
        pieces := by
  induction pieces generalizing a front with
  | nil => exact .nil
  | cons q pieces ih =>
    have hq := hlen q List.mem_cons_self
    refine .cons ⟨List.mem_cons_self,rfl,fun k => ?_⟩ ?_
    · have hstart : a / c = (front k).length := by
        rw [← hfront k,Nat.mul_div_cancel _ hc]
      have hstop : (a + len q) / c = (front k).length + (f k q).length := by
        rw [← hfront k,← hq k,← Nat.add_mul,Nat.mul_div_cancel _ hc]
      rw [slice,hstart,hstop,Nat.add_sub_cancel_left,List.drop_left,List.flatMap_cons,
        List.take_left]
    · have hnext : ∀ k, (front k ++ f k q).length * c = a + len q := by
        intro k
        rw [List.length_append,Nat.add_mul,hfront,hq]
      have hrest := ih (fun other hother => hlen other (List.mem_cons_of_mem q hother)) hnext
      refine hrest.imp fun span other hother =>
        ⟨List.mem_cons_of_mem q hother.1,hother.2.1,fun k => ?_⟩
      rw [List.flatMap_cons,← List.append_assoc]
      exact hother.2.2 k

theorem length_flatMap_mul {out : α → List β} (hlen : ∀ q ∈ pieces, (out q).length * c = len q) :
    (pieces.flatMap out).length * c = (pieces.map len).sum := by
  induction pieces with
  | nil => exact Nat.zero_mul c
  | cons q pieces ih =>
    rw [List.flatMap_cons,List.length_append,Nat.add_mul,hlen q List.mem_cons_self,
      ih fun p hp => hlen p (List.mem_cons_of_mem q hp),List.map_cons,List.sum_cons]

/-- Writing the pieces one by one leaves them one after the other. -/
theorem foldl_setSlice (hc : 0 < c) {values : ℕ × ℕ → List β} {out : α → List β} {a : ℕ}
    (hvalues : List.Forall₂ (fun span q => values span = out q) (spanList a (pieces.map len)) pieces)
    (hlen : ∀ q ∈ pieces, (out q).length * c = len q) {front rest : List β}
    (hfront : front.length * c = a) (hrest : rest.length * c = (pieces.map len).sum) :
    (spanList a (pieces.map len)).foldl
      (fun tensor span => setSlice tensor (span.1 / c) (span.2 / c) (values span)) (front ++ rest) =
        front ++ pieces.flatMap out := by
  induction pieces generalizing a front rest with
  | nil =>
    have hnil : rest.length = 0 := by
      rcases Nat.mul_eq_zero.mp hrest with h | h
      · exact h
      · exact absurd h hc.ne'
    rw [List.length_eq_zero_iff.mp hnil]
    rfl
  | cons q pieces ih =>
    obtain ⟨hq,hbehind⟩ := List.forall₂_cons.mp hvalues
    have hlenq := hlen q List.mem_cons_self
    have hstart : a / c = front.length := by rw [← hfront,Nat.mul_div_cancel _ hc]
    have hstop : (a + len q) / c = front.length + (out q).length := by
      rw [← hfront,← hlenq,← Nat.add_mul,Nat.mul_div_cancel _ hc]
    have hset : setSlice (front ++ rest) (a / c) ((a + len q) / c) (values (a,a + len q)) =
        (front ++ out q) ++ rest.drop (out q).length := by
      rw [setSlice,hq,hstart,hstop,List.take_left,List.drop_append,List.drop_eq_nil_of_le (by omega),
        Nat.add_sub_cancel_left,List.nil_append]
    have hnext : (front ++ out q).length * c = a + len q := by
      rw [List.length_append,Nat.add_mul,hfront,hlenq]
    have hleft : (rest.drop (out q).length).length * c = (pieces.map len).sum := by
      rw [List.map_cons,List.sum_cons,← hlenq] at hrest
      rw [List.length_drop,Nat.sub_mul,hrest,Nat.add_sub_cancel_left]
    rw [List.map_cons,spanList,List.foldl_cons,hset,
      ih hbehind (fun other hother => hlen other (List.mem_cons_of_mem q hother)) hnext hleft,
      List.flatMap_cons,List.append_assoc]

/-- A layout that is written in steps of one length. -/
theorem foldl_setSlice_range (values init : List β) (hlength : init.length = values.length)
    (c m : ℕ) :
    (List.range m).foldl (fun out i => setSlice out (i * c) (min (i * c + c) values.length)
        ((values.drop (i * c)).take (min (i * c + c) values.length - i * c))) init =
      values.take (m * c) ++ init.drop (m * c) := by
  induction m with
  | zero => simp
  | succ m ih =>
    have hvalues : (values.drop (m * c)).take (min (m * c + c) values.length - m * c) =
        (values.drop (m * c)).take c := by
      rcases Nat.le_total (m * c + c) values.length with hle | hge
      · rw [Nat.min_eq_left hle,Nat.add_sub_cancel_left]
      · rw [Nat.min_eq_right hge,List.take_of_length_le (by simp),
          List.take_of_length_le (by rw [List.length_drop]; omega)]
    have hrest : (values.take (m * c) ++ init.drop (m * c)).drop (min (m * c + c) values.length) =
        init.drop (m * c + c) := by
      rcases Nat.le_total (m * c + c) values.length with hle | hge
      · have hfront : (values.take (m * c)).length = m * c := by
          rw [List.length_take,Nat.min_eq_left (by omega)]
        rw [Nat.min_eq_left hle,← List.drop_drop,List.drop_left' hfront,List.drop_drop]
      · rw [Nat.min_eq_right hge,List.drop_of_length_le (by simp; omega),
          List.drop_of_length_le (by omega)]
    have hfront : (values.take (m * c) ++ init.drop (m * c)).take (m * c) = values.take (m * c) := by
      rcases Nat.le_total (m * c) values.length with hle | hge
      · exact List.take_left' (by rw [List.length_take,Nat.min_eq_left hle])
      · rw [List.drop_of_length_le (by omega),List.append_nil,List.take_take,Nat.min_self]
    rw [List.range_succ,List.foldl_append,ih,List.foldl_cons,List.foldl_nil,setSlice,hvalues,hrest,
      hfront,← List.take_add,Nat.succ_mul]

def start (lens : List ℕ) (j : ℕ) : ℕ := (lens.take j).sum

/-- A position lies in a piece. -/
def InPiece (lens : List ℕ) (j q : ℕ) : Prop := start lens j ≤ q ∧ q < start lens (j + 1)

instance (lens : List ℕ) (j q : ℕ) : Decidable (InPiece lens j q) :=
  inferInstanceAs (Decidable (_ ∧ _))

@[simp] theorem start_zero (lens : List ℕ) : start lens 0 = 0 := rfl

@[simp] theorem start_cons_succ (len : ℕ) (lens : List ℕ) (j : ℕ) :
    start (len :: lens) (j + 1) = len + start lens j := by
  rw [start,List.take_succ_cons,List.sum_cons,start]

theorem start_length (lens : List ℕ) : start lens lens.length = lens.sum := by
  rw [start,List.take_length]

theorem start_succ (lens : List ℕ) (j : ℕ) : start lens (j + 1) = start lens j + lens.getD j 0 := by
  induction lens generalizing j with
  | nil => simp [start]
  | cons len lens ih =>
    cases j with
    | zero => simp
    | succ j => rw [start_cons_succ,start_cons_succ,ih,List.getD_cons_succ,Nat.add_assoc]

theorem start_mono (lens : List ℕ) : Monotone (start lens) :=
  monotone_nat_of_le_succ fun j => by rw [start_succ]; exact Nat.le_add_right _ _

theorem start_le_sum (lens : List ℕ) (j : ℕ) : start lens j ≤ lens.sum := by
  rcases Nat.le_total j lens.length with hle | hge
  · rw [← start_length]
    exact start_mono lens hle
  · rw [start,List.take_of_length_le hge]

theorem inPiece_start {lens : List ℕ} {j : ℕ} (h : 0 < lens.getD j 0) :
    InPiece lens j (start lens j) :=
  ⟨le_rfl,by rw [start_succ]; exact Nat.lt_add_of_pos_right h⟩

theorem InPiece.pos {lens : List ℕ} {j q : ℕ} (h : InPiece lens j q) : 0 < lens.getD j 0 := by
  have hspan := Nat.lt_of_le_of_lt h.1 h.2
  rw [start_succ] at hspan
  exact Nat.pos_of_lt_add_right hspan

theorem InPiece.lt_sum {lens : List ℕ} {j q : ℕ} (h : InPiece lens j q) : q < lens.sum :=
  Nat.lt_of_lt_of_le h.2 (start_le_sum lens (j + 1))

/-- A position lies in one piece. -/
theorem InPiece.eq {lens : List ℕ} {i j q : ℕ} (hi : InPiece lens i q) (hj : InPiece lens j q) :
    i = j := by
  rcases Nat.lt_trichotomy i j with hlt | heq | hgt
  · have hbefore := start_mono lens (Nat.succ_le_of_lt hlt)
    exact absurd (Nat.lt_of_lt_of_le hi.2 hbefore) (Nat.not_lt_of_le hj.1)
  · exact heq
  · have hbefore := start_mono lens (Nat.succ_le_of_lt hgt)
    exact absurd (Nat.lt_of_lt_of_le hj.2 hbefore) (Nat.not_lt_of_le hi.1)

theorem exists_inPiece {lens : List ℕ} {q : ℕ} (h : q < lens.sum) : ∃ j, InPiece lens j q := by
  have hbelow : ∀ n, q < start lens n → ∃ j, InPiece lens j q := by
    intro n
    induction n with
    | zero => exact fun hzero => absurd hzero (Nat.not_lt_zero q)
    | succ n ih =>
      intro hnext
      by_cases hn : q < start lens n
      · exact ih hn
      · exact ⟨n,Nat.le_of_not_lt hn,hnext⟩
  exact hbelow lens.length (by rwa [start_length])

/-- What stands at a position of a piece. -/
theorem getElem?_flatten {parts : List (List β)} {j q : ℕ}
    (h : InPiece (parts.map List.length) j q) :
    parts.flatten[q]? = (parts[j]?).bind fun part => part[q - start (parts.map List.length) j]? := by
  induction parts generalizing j q with
  | nil => exact absurd h.lt_sum (Nat.not_lt_zero q)
  | cons part parts ih =>
    obtain ⟨hfrom,hto⟩ := h
    rw [List.map_cons] at hfrom hto ⊢
    rw [List.flatten_cons]
    cases j with
    | zero =>
      rw [start_cons_succ,start_zero,Nat.add_zero] at hto
      rw [List.getElem?_append_left hto]
      rfl
    | succ j =>
      rw [start_cons_succ] at hfrom hto
      have hq : part.length ≤ q := by omega
      have hrest : InPiece (parts.map List.length) j (q - part.length) := by
        constructor <;> omega
      rw [List.getElem?_append_right hq,ih hrest,start_cons_succ,List.getElem?_cons_succ,
        Nat.sub_add_eq]

theorem splitLengths_map (f : α → β) (lens : List ℕ) (l : List α) :
    lens.splitLengths (l.map f) = (lens.splitLengths l).map (List.map f) := by
  induction lens generalizing l with
  | nil => rfl
  | cons len lens ih =>
    rw [List.splitLengths_cons,List.splitLengths_cons,List.map_cons,← List.map_drop,ih,List.map_take]

/-- Pieces in front of anything else are cut out by their lengths. -/
theorem splitLengths_flatten (parts : List (List β)) (rest : List β) (lens : List ℕ) :
    (parts.map List.length ++ lens).splitLengths (parts.flatten ++ rest) =
      parts ++ lens.splitLengths rest := by
  induction parts with
  | nil => rfl
  | cons part parts ih =>
    rw [List.map_cons,List.cons_append,List.splitLengths_cons,List.flatten_cons,List.append_assoc,
      List.take_left,List.drop_left,ih,List.cons_append]

end Packed

namespace Blocks

open Packed

variable {α β : Type*}

/-- `l[s[0]:s[1]]`. -/
def cut (s : ℕ × ℕ) (l : List β) : List β := (l.drop s.1).take (s.2 - s.1)

/-- `m[rows, cols]`. -/
def block (rows cols : ℕ × ℕ) (m : List (List α)) : List (List α) := (cut rows m).map (cut cols)

def cell (m : List (List α)) (r v : ℕ) : Option α := m[r]?.bind fun row => row[v]?

/-- A matrix of a shape. -/
def HasShape (height width : ℕ) (m : List (List α)) : Prop :=
  m.length = height ∧ ∀ row ∈ m, row.length = width

instance (height width : ℕ) (m : List (List α)) : Decidable (HasShape height width m) :=
  inferInstanceAs (Decidable (_ ∧ _))

/-- `m[rows, cols] = values`, for values of the shape of the block. -/
def setBlock (rows cols : ℕ × ℕ) (values m : List (List α)) : List (List α) :=
  m.mapIdx fun r row =>
    if rows.1 ≤ r ∧ r < rows.2 then
      row.mapIdx fun v x =>
        if cols.1 ≤ v ∧ v < cols.2 then (cell values (r - rows.1) (v - cols.1)).getD x else x
    else row

theorem getElem?_cut (s : ℕ × ℕ) (l : List β) (i : ℕ) :
    (cut s l)[i]? = if i < s.2 - s.1 then l[s.1 + i]? else none := by
  rw [cut,List.getElem?_take]
  split_ifs
  · rw [List.getElem?_drop]
  · rfl

theorem length_cut {s : ℕ × ℕ} {l : List β} (h : s.2 ≤ l.length) : (cut s l).length = s.2 - s.1 := by
  rw [cut,List.length_take,List.length_drop]
  omega

theorem cell_block (rows cols : ℕ × ℕ) (m : List (List α)) (r v : ℕ) :
    cell (block rows cols m) r v =
      if r < rows.2 - rows.1 ∧ v < cols.2 - cols.1 then cell m (rows.1 + r) (cols.1 + v) else none := by
  rw [cell,block,List.getElem?_map,getElem?_cut]
  by_cases hr : r < rows.2 - rows.1
  · rw [if_pos hr,cell]
    cases m[rows.1 + r]? with
    | none => simp
    | some row =>
      show (cut cols row)[v]? = _
      rw [getElem?_cut]
      simp only [hr,true_and]
      rfl
  · rw [if_neg hr,if_neg fun h => hr h.1]
    rfl

theorem hasShape_block {height width : ℕ} {m : List (List α)} (hm : HasShape height width m)
    {rows cols : ℕ × ℕ} (hrows : rows.2 ≤ height) (hcols : cols.2 ≤ width) :
    HasShape (rows.2 - rows.1) (cols.2 - cols.1) (block rows cols m) := by
  refine ⟨?_,fun row hrow => ?_⟩
  · rw [block,List.length_map,length_cut (by rwa [hm.1])]
  · obtain ⟨source,hsource,rfl⟩ := List.mem_map.mp hrow
    have hmem := List.mem_of_mem_drop (List.mem_of_mem_take hsource)
    exact length_cut (by rwa [hm.2 source hmem])

theorem cell_setBlock (rows cols : ℕ × ℕ) (values m : List (List α)) (r v : ℕ) :
    cell (setBlock rows cols values m) r v = (cell m r v).map fun x =>
      if (rows.1 ≤ r ∧ r < rows.2) ∧ cols.1 ≤ v ∧ v < cols.2 then
        (cell values (r - rows.1) (v - cols.1)).getD x
      else x := by
  rw [cell,setBlock,List.getElem?_mapIdx]
  unfold cell
  cases m[r]? with
  | none => rfl
  | some row =>
    rw [Option.map_some,Option.bind_some,Option.bind_some]
    by_cases hr : rows.1 ≤ r ∧ r < rows.2
    · rw [if_pos hr,List.getElem?_mapIdx]
      refine Option.map_congr fun x _ => ?_
      simp only [hr,true_and]
    · rw [if_neg hr]
      simp only [hr,false_and,if_false,Option.map_id']

theorem hasShape_setBlock {height width : ℕ} {m : List (List α)} (hm : HasShape height width m)
    (rows cols : ℕ × ℕ) (values : List (List α)) :
    HasShape height width (setBlock rows cols values m) := by
  refine ⟨by rw [setBlock,List.length_mapIdx,hm.1],fun row hrow => ?_⟩
  obtain ⟨i,hi,rfl⟩ := List.mem_mapIdx.mp hrow
  have hlen := hm.2 _ (List.getElem_mem hi)
  split_ifs
  · rw [List.length_mapIdx,hlen]
  · exact hlen

/-- Matrices of one shape with the same cells. -/
theorem eq_of_cells {height width : ℕ} {m m' : List (List α)} (hm : HasShape height width m)
    (hm' : HasShape height width m') (h : ∀ r < height, ∀ v < width, cell m r v = cell m' r v) :
    m = m' := by
  refine List.ext_getElem (by rw [hm.1,hm'.1]) fun r hr hr' => ?_
  have hrow := hm.2 _ (List.getElem_mem hr)
  have hrow' := hm'.2 _ (List.getElem_mem hr')
  refine List.ext_getElem (by rw [hrow,hrow']) fun v hv hv' => ?_
  have hcell := h r (by rwa [← hm.1]) v (by rwa [← hrow])
  rw [cell,cell,List.getElem?_eq_getElem hr,List.getElem?_eq_getElem hr',Option.bind_some,
    Option.bind_some,List.getElem?_eq_getElem hv,List.getElem?_eq_getElem hv'] at hcell
  exact Option.some.inj hcell

theorem cell_isSome {height width : ℕ} {m : List (List α)} (hm : HasShape height width m) {r v : ℕ}
    (hr : r < height) (hv : v < width) : ∃ x, cell m r v = some x := by
  have hr' : r < m.length := by rwa [hm.1]
  have hv' : v < m[r].length := by rwa [hm.2 _ (List.getElem_mem hr')]
  exact ⟨m[r][v],by rw [cell,List.getElem?_eq_getElem hr',Option.bind_some,
    List.getElem?_eq_getElem hv']⟩

theorem cut_cut {s t : ℕ × ℕ} (l : List β) (h : s.2 ≤ t.2 - t.1) :
    cut s (cut t l) = cut (t.1 + s.1,t.1 + s.2) l := by
  refine List.ext_getElem? fun i => ?_
  rw [getElem?_cut,getElem?_cut,getElem?_cut]
  split_ifs <;> first | rfl | omega | rw [Nat.add_assoc]

theorem cut_map (s : ℕ × ℕ) (f : α → β) (l : List α) : cut s (l.map f) = (cut s l).map f := by
  rw [cut,cut,List.map_take,List.map_drop]

/-- A block of a block. -/
theorem block_block {rows cols rows' cols' : ℕ × ℕ} (m : List (List α))
    (hrows : rows.2 ≤ rows'.2 - rows'.1) (hcols : cols.2 ≤ cols'.2 - cols'.1) :
    block rows cols (block rows' cols' m) =
      block (rows'.1 + rows.1,rows'.1 + rows.2) (cols'.1 + cols.1,cols'.1 + cols.2) m := by
  rw [block,block,cut_map,List.map_map,cut_cut m hrows,block]
  exact List.map_congr_left fun row _ => cut_cut row hcols

/-- Consecutive pieces are cut out by where they start. -/
theorem cut_start {parts : List (List β)} {part : List β} {j : ℕ} (h : parts[j]? = some part)
    (rest : List β) :
    cut (start (parts.map List.length) j,start (parts.map List.length) (j + 1))
      (parts.flatten ++ rest) = part := by
  induction parts generalizing j with
  | nil => cases h
  | cons first parts ih =>
    rw [List.map_cons,List.flatten_cons,List.append_assoc]
    cases j with
    | zero =>
      obtain rfl := Option.some.inj h
      rw [start_cons_succ,start_zero,start_zero,cut,List.drop_zero,Nat.sub_zero,Nat.add_zero,
        List.take_left]
    | succ j =>
      have hrest := ih h
      rw [cut] at hrest
      rw [start_cons_succ,start_cons_succ,cut,← List.drop_drop,List.drop_left,Nat.add_sub_add_left]
      exact hrest

/-- A block of full width. -/
theorem block_width {height width : ℕ} {m : List (List α)} (hm : HasShape height width m)
    (rows : ℕ × ℕ) : block rows (0,width) m = cut rows m := by
  have hrow : ∀ row ∈ cut rows m, cut (0,width) row = id row := by
    intro row hrow
    have hlen := hm.2 row (List.mem_of_mem_drop (List.mem_of_mem_take hrow))
    rw [cut,List.drop_zero,Nat.sub_zero,List.take_of_length_le (Nat.le_of_eq hlen)]
    rfl
  rw [block,List.map_congr_left hrow,List.map_id]

/-- A position is in a span. -/
def Within (t : ℕ) (span : ℕ × ℕ) : Prop := span.1 ≤ t ∧ t < span.2

instance (t : ℕ) (span : ℕ × ℕ) : Decidable (Within t span) := inferInstanceAs (Decidable (_ ∧ _))

def grid (heights widths : List ℕ) : List ((ℕ × ℕ) × (ℕ × ℕ)) :=
  (spanList 0 heights).flatMap fun rows => (spanList 0 widths).map fun cols => (rows,cols)

theorem countP_spanList {a t : ℕ} {lens : List ℕ} :
    (spanList a lens).countP (fun span => decide (Within t span)) =
      if a ≤ t ∧ t < a + lens.sum then 1 else 0 := by
  induction lens generalizing a with
  | nil =>
    rw [if_neg (by simp)]
    rfl
  | cons len lens ih =>
    rw [spanList,List.countP_cons,ih,List.sum_cons]
    have hhere : decide (Within t (a,a + len)) = true ↔ a ≤ t ∧ t < a + len := decide_eq_true_iff
    simp only [hhere]
    split_ifs <;> omega

theorem le_of_mem_spanList {a : ℕ} {lens : List ℕ} {span : ℕ × ℕ} (h : span ∈ spanList a lens) :
    a ≤ span.1 ∧ span.1 ≤ span.2 ∧ span.2 ≤ a + lens.sum := by
  induction lens generalizing a with
  | nil => cases h
  | cons len lens ih =>
    rw [List.sum_cons]
    rcases List.mem_cons.mp h with rfl | hmem
    · exact ⟨le_rfl,Nat.le_add_right _ _,by omega⟩
    · have hbounds := ih hmem
      omega

theorem countP_grid {heights widths : List ℕ} {t v : ℕ} (ht : t < heights.sum) (hv : v < widths.sum) :
    (grid heights widths).countP (fun part => decide (Within t part.1 ∧ Within v part.2)) = 1 := by
  have hrows := @countP_spanList 0 t heights
  have hcols := @countP_spanList 0 v widths
  rw [Nat.zero_add,if_pos ⟨Nat.zero_le t,ht⟩] at hrows
  rw [Nat.zero_add,if_pos ⟨Nat.zero_le v,hv⟩] at hcols
  have hall : ∀ spans : List (ℕ × ℕ), (spans.flatMap fun rows =>
      (spanList 0 widths).map fun cols => (rows,cols)).countP
        (fun part => decide (Within t part.1 ∧ Within v part.2)) =
          spans.countP fun span => decide (Within t span) := by
    intro spans
    induction spans with
    | nil => rfl
    | cons span spans ih =>
      rw [List.flatMap_cons,List.countP_append,ih,List.countP_cons,List.countP_map,Nat.add_comm]
      congr 1
      by_cases hspan : Within t span
      · rw [if_pos (by simpa using hspan),← hcols]
        exact List.countP_congr fun cols _ => by simp [hspan]
      · rw [if_neg (by simpa using hspan)]
        exact List.countP_eq_zero.mpr fun cols _ => by simp [hspan]
  rw [grid,hall,hrows]

/-- Rectangles that hold every cell of a matrix once. -/
structure Tiling (height width : ℕ) (tiles : List ((ℕ × ℕ) × (ℕ × ℕ))) : Prop where
  inside : ∀ tile ∈ tiles, tile.1.2 ≤ height ∧ tile.2.1 ≤ tile.2.2 ∧ tile.2.2 ≤ width
  once : ∀ t < height, ∀ v < width,
    tiles.countP (fun tile => decide (Within t tile.1 ∧ Within v tile.2)) = 1

/-- A grid is a tiling, in any order of its parts. -/
theorem tiling_of_perm_grid {heights widths : List ℕ} {tiles : List ((ℕ × ℕ) × (ℕ × ℕ))}
    (h : tiles.Perm (grid heights widths)) : Tiling heights.sum widths.sum tiles := by
  refine ⟨fun tile htile => ?_,fun t ht v hv => ?_⟩
  · obtain ⟨rows,hrows,hpart⟩ := List.mem_flatMap.mp (h.subset htile)
    obtain ⟨cols,hcols,rfl⟩ := List.mem_map.mp hpart
    have hrowBounds := le_of_mem_spanList hrows
    have hcolBounds := le_of_mem_spanList hcols
    dsimp only
    omega
  · rw [h.countP_eq,countP_grid ht hv]

end Blocks
end DockyardRL
