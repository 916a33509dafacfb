import DockyardRL.Lib.SortByKey
import DockyardRL.Lib.Gather
import Mathlib.Data.List.Count
import Mathlib.Data.List.Perm.Subperm

/-! The greatest entries of a row, with their positions. How those of equal entries are chosen is
left open; what is selected from selections of parts is a selection of the whole.

What is selected, in any order, of a row of which some entries are masked by a value below all
others. -/
namespace DockyardRL
namespace TopK

section

open SortByKey

def positionsOf {α : Type} (row : List α) (P : α → Prop) [DecidablePred P] : List ℕ :=
  (row.zipIdx.filter fun e => P e.1).map Prod.snd

section Positions

variable {α : Type} {row : List α} {P : α → Prop} [DecidablePred P]

theorem length_positionsOf : (positionsOf row P).length = row.countP fun x => P x := by
  have hfst : row.zipIdx.map Prod.fst = row := List.zipIdx_map_fst 0 row
  rw [positionsOf,List.length_map,← List.countP_eq_length_filter]
  conv_rhs => rw [← hfst,List.countP_map]
  rfl

theorem nodup_positionsOf : (positionsOf row P).Nodup := by
  refine List.Nodup.sublist ((List.filter_sublist).map Prod.snd) ?_
  rw [List.zipIdx_map_snd]
  exact List.nodup_range'

theorem mem_positionsOf {i : ℕ} : i ∈ positionsOf row P ↔ ∃ x, row[i]? = some x ∧ P x := by
  simp only [positionsOf,List.mem_map,List.mem_filter,List.mem_zipIdx_iff_getElem?,Prod.exists,
    decide_eq_true_iff]
  constructor
  · rintro ⟨x,j,⟨hget,hP⟩,rfl⟩
    exact ⟨x,hget,hP⟩
  · rintro ⟨x,hget,hP⟩
    exact ⟨x,i,⟨hget,hP⟩,rfl⟩

end Positions

variable {K : Type} [LinearOrder K]

/-- The `n` greatest entries of a row in any order, each with its position. -/
structure Chosen (row : List K) (n : ℕ) (sel : List (K × ℕ)) : Prop where
  length_eq : sel.length = n
  nodup : (sel.map Prod.snd).Nodup
  get : ∀ p ∈ sel, row[p.2]? = some p.1
  greatest : ∀ i x, row[i]? = some x → i ∉ sel.map Prod.snd → ∀ p ∈ sel, x ≤ p.1

/-- The `n` greatest entries of a row in descending order, each with its position. -/
structure Selection (row : List K) (n : ℕ) (sel : List (K × ℕ)) : Prop where
  length_eq : sel.length = n
  nodup : (sel.map Prod.snd).Nodup
  get : ∀ p ∈ sel, row[p.2]? = some p.1
  descending : sel.Pairwise fun p q => q.1 ≤ p.1
  greatest : ∀ i x, row[i]? = some x → i ∉ sel.map Prod.snd → ∀ p ∈ sel, x ≤ p.1

/-- `torch.topk(row, n)`, where the row has that many entries. -/
def IsTopk (topk : List K → ℕ → List (K × ℕ)) : Prop :=
  ∀ row n, n ≤ row.length → Selection row n (topk row n)

/-- A position of a row with an entry that no other exceeds. -/
def GreatestAt (row : List K) (i : ℕ) : Prop := ∃ x, row[i]? = some x ∧ ∀ y ∈ row, y ≤ x

/-- `row.argmax()`, where the row has entries. -/
def IsArgmax (argmax : List K → ℕ) : Prop := ∀ row, row ≠ [] → GreatestAt row (argmax row)

theorem Selection.chosen {row : List K} {n : ℕ} {sel : List (K × ℕ)} (h : Selection row n sel) :
    Chosen row n sel := ⟨h.length_eq,h.nodup,h.get,h.greatest⟩

theorem Chosen.countP_lt {row : List K} {n : ℕ} {sel : List (K × ℕ)} (h : Chosen row n sel)
    {p : K × ℕ} (hp : p ∈ sel) : (row.countP fun x => p.1 < x) < n := by
  have hnodup : (p.2 :: positionsOf row fun x => p.1 < x).Nodup := by
    refine List.nodup_cons.mpr ⟨fun hmem => ?_,nodup_positionsOf⟩
    obtain ⟨x,hx,hlt⟩ := mem_positionsOf.mp hmem
    rw [h.get p hp,Option.some_inj] at hx
    exact absurd hx hlt.ne
  have hsubset : (p.2 :: positionsOf row fun x => p.1 < x) ⊆ sel.map Prod.snd := by
    refine List.cons_subset.mpr ⟨List.mem_map_of_mem hp,fun i hi => ?_⟩
    obtain ⟨x,hx,hlt⟩ := mem_positionsOf.mp hi
    by_contra hout
    exact absurd (h.greatest i x hx hout p hp) (not_le.mpr hlt)
  have hle := (hnodup.subperm hsubset).length_le
  rw [List.length_cons,length_positionsOf,List.length_map,h.length_eq] at hle
  exact hle

namespace Selection

variable {row : List K} {n : ℕ} {sel : List (K × ℕ)}

theorem countP_lt (h : Selection row n sel) {p : K × ℕ} (hp : p ∈ sel) :
    (row.countP fun x => p.1 < x) < n := h.chosen.countP_lt hp

/-- Where enough entries exceed a value, all that are selected do. -/
theorem lt_of_le_countP (h : Selection row n sel) {y : K} (hy : n ≤ row.countP fun x => y < x)
    {p : K × ℕ} (hp : p ∈ sel) : y < p.1 := by
  by_contra hle
  have hmono : (row.countP fun x => y < x) ≤ row.countP fun x => p.1 < x :=
    List.countP_mono_left fun x _ hlt => by
      simp only [decide_eq_true_iff] at hlt ⊢
      exact (not_lt.mp hle).trans_lt hlt
  exact absurd (hy.trans hmono) (not_le.mpr (h.countP_lt hp))

/-- What is selected is in the row as often. -/
theorem countP_le (h : Selection row n sel) (P : K → Prop) [DecidablePred P] :
    (sel.countP fun p => P p.1) ≤ row.countP fun x => P x := by
  have hnodup : ((sel.filter fun p => P p.1).map Prod.snd).Nodup :=
    h.nodup.sublist (List.filter_sublist.map Prod.snd)
  have hsubset : (sel.filter fun p => P p.1).map Prod.snd ⊆ positionsOf row P := by
    intro i hi
    obtain ⟨p,hp,rfl⟩ := List.mem_map.mp hi
    obtain ⟨hmem,hP⟩ := List.mem_filter.mp hp
    exact mem_positionsOf.mpr ⟨p.1,h.get p hmem,of_decide_eq_true hP⟩
  have hle := (hnodup.subperm hsubset).length_le
  rwa [List.length_map,← List.countP_eq_length_filter,length_positionsOf] at hle

/-- A selection has something of every row, and its greatest entry. -/
theorem exists_greatest (h : Selection row n sel) (hn : 0 < n) {x : K} (hx : x ∈ row) :
    ∃ p ∈ sel, x ≤ p.1 := by
  obtain ⟨p,hp⟩ := List.exists_mem_of_length_pos (h.length_eq.symm ▸ hn)
  obtain ⟨i,hi⟩ := List.mem_iff_getElem?.mp hx
  by_cases hmem : i ∈ sel.map Prod.snd
  · obtain ⟨q,hq,rfl⟩ := List.mem_map.mp hmem
    have hget := h.get q hq
    rw [hi,Option.some_inj] at hget
    exact ⟨q,hq,hget.le⟩
  · exact ⟨p,hp,h.greatest i x hi hmem p hp⟩

/-- What is selected alone is the greatest entry. -/
theorem greatestAt (h : Selection row 1 sel) : GreatestAt row ((sel.map Prod.snd).headD 0) := by
  obtain ⟨p,rfl⟩ := List.length_eq_one_iff.mp h.length_eq
  refine ⟨p.1,h.get p (List.mem_singleton_self p),fun y hy => ?_⟩
  obtain ⟨q,hq,hle⟩ := h.exists_greatest Nat.one_pos hy
  rwa [List.eq_of_mem_singleton hq] at hle

end Selection

/-- What is selected of the parts, one part after the other, with positions that start where the part
does. -/
def gathered (tp : ℕ) (start : ℕ → ℕ) (loc : ℕ → List (K × ℕ)) : List (K × ℕ) :=
  (List.range tp).flatMap fun r => (loc r).map fun p => (p.1,p.2 + start r)

def reselect (cand sel : List (K × ℕ)) : List (K × ℕ) :=
  sel.map fun p => (p.1,(cand.map Prod.snd).getD p.2 0)

section Parts

variable {row : List K} {tp w k : ℕ} {loc : ℕ → List (K × ℕ)} {sel : List (K × ℕ)}

omit [LinearOrder K] in
theorem mem_gathered {start : ℕ → ℕ} {q : K × ℕ} :
    q ∈ gathered tp start loc ↔ ∃ r < tp, ∃ p ∈ loc r, q = (p.1,p.2 + start r) := by
  simp only [gathered,List.mem_flatMap,List.mem_range,List.mem_map,eq_comm]

omit [LinearOrder K] in
theorem length_gathered {start : ℕ → ℕ} {m : ℕ} (hloc : ∀ r < tp, (loc r).length = m) :
    (gathered tp start loc).length = tp * m := by
  rw [gathered,List.length_flatMap,List.map_congr_left fun r hr =>
    (List.length_map _).trans (hloc r (List.mem_range.mp hr))]
  simp

omit [LinearOrder K] in
/-- Wherever the parts start, the values are those of the parts. -/
theorem fst_gathered (start start' : ℕ → ℕ) :
    (gathered tp start loc).map Prod.fst = (gathered tp start' loc).map Prod.fst := by
  simp only [gathered,List.map_flatMap,List.map_map]
  rfl

omit [LinearOrder K] in
/-- A part of the candidates has no more than all of them. -/
theorem countP_loc_le {start : ℕ → ℕ} {r : ℕ} (hr : r < tp) (P : K → Prop) [DecidablePred P] :
    ((loc r).countP fun p => P p.1) ≤
      ((gathered tp start loc).map Prod.fst).countP fun x => P x := by
  have hsublist : ((loc r).map fun p => (p.1,p.2 + start r)).Sublist (gathered tp start loc) := by
    rw [gathered,List.flatMap_def]
    exact List.sublist_flatten_of_mem (List.mem_map_of_mem (List.mem_range.mpr hr))
  have hle := (hsublist.map Prod.fst).countP_le (p := fun x => decide (P x))
  rw [List.map_map,List.countP_map] at hle
  exact hle

omit [LinearOrder K] in
/-- What is selected of the candidates are candidates. -/
theorem reselect_get {cand : List (K × ℕ)} {p : K × ℕ}
    (h : (cand.map Prod.fst)[p.2]? = some p.1) :
    cand[p.2]? = some (p.1,(cand.map Prod.snd).getD p.2 0) := by
  rw [List.getElem?_map,Option.map_eq_some_iff] at h
  obtain ⟨q,hq,hfst⟩ := h
  rw [List.getD_eq_getElem?_getD,List.getElem?_map,hq,← hfst]
  rfl

/-- A candidate is an entry of the row. -/
theorem get_gathered
    (hloc : ∀ r < tp, Selection ((row.drop (r * w)).take w) (min k w) (loc r)) :
    ∀ q ∈ gathered tp (fun r => r * w) loc, row[q.2]? = some q.1 := by
  intro q hq
  obtain ⟨r,hr,p,hp,rfl⟩ := mem_gathered.mp hq
  have hget := (hloc r hr).get p hp
  rw [List.getElem?_take] at hget
  split_ifs at hget
  rwa [List.getElem?_drop,Nat.add_comm] at hget

theorem position_lt (hloc : ∀ r < tp, Selection ((row.drop (r * w)).take w) (min k w) (loc r)) {r : ℕ}
    (hr : r < tp) {p : K × ℕ} (hp : p ∈ loc r) : p.2 < w := by
  have hlt := (List.getElem?_eq_some_iff.mp ((hloc r hr).get p hp)).1
  rw [List.length_take] at hlt
  omega

theorem nodup_gathered
    (hloc : ∀ r < tp, Selection ((row.drop (r * w)).take w) (min k w) (loc r)) :
    ((gathered tp (fun r => r * w) loc).map Prod.snd).Nodup := by
  have hmap : (gathered tp (fun r => r * w) loc).map Prod.snd =
      (List.range tp).flatMap fun r => ((loc r).map Prod.snd).map (· + r * w) := by
    simp only [gathered,List.map_flatMap,List.map_map]
    rfl
  rw [hmap,List.nodup_flatMap]
  constructor
  · intro r hr
    exact (hloc r (List.mem_range.mp hr)).nodup.map fun i j heq => Nat.add_right_cancel heq
  · refine List.nodup_range.imp_of_mem fun {r s} hr hs hne => ?_
    intro i hi hj
    obtain ⟨a,ha,rfl⟩ := List.mem_map.mp hi
    obtain ⟨b,hb,heq⟩ := List.mem_map.mp hj
    obtain ⟨p,hp,rfl⟩ := List.mem_map.mp ha
    obtain ⟨q,hq,rfl⟩ := List.mem_map.mp hb
    have hpw := position_lt hloc (List.mem_range.mp hr) hp
    have hqw := position_lt hloc (List.mem_range.mp hs) hq
    have hdiv : ∀ t i, i < w → (i + t * w) / w = t := fun t i hi => by
      rw [Nat.add_mul_div_right _ _ (Nat.zero_lt_of_lt hi),Nat.div_eq_of_lt hi,Nat.zero_add]
    exact hne ((hdiv r _ hpw).symm.trans ((congrArg (· / w) heq.symm).trans (hdiv s _ hqw)))

theorem le_countP_of_not_gathered (hrow : row.length = tp * w)
    (hloc : ∀ r < tp, Selection ((row.drop (r * w)).take w) (min k w) (loc r)) {i : ℕ} {x y : K}
    (hx : row[i]? = some x) (hout : i ∉ (gathered tp (fun r => r * w) loc).map Prod.snd) (hlt : y < x) :
    k ≤ ((gathered tp (fun r => r * w) loc).map Prod.fst).countP fun z => y < z := by
  have hi : i < tp * w := hrow ▸ (List.getElem?_eq_some_iff.mp hx).1
  have hw : 0 < w := Nat.pos_of_ne_zero fun hzero => by
    rw [hzero,Nat.mul_zero] at hi
    exact absurd hi (Nat.not_lt_zero i)
  have hr : i / w < tp := Nat.div_lt_of_lt_mul (by rwa [Nat.mul_comm])
  have hsplit : i % w + i / w * w = i := by rw [Nat.mul_comm,Nat.mod_add_div]
  have hmod : i % w < w := Nat.mod_lt i hw
  have hpart : ((row.drop (i / w * w)).take w)[i % w]? = some x := by
    rw [List.getElem?_take_of_lt hmod,List.getElem?_drop,Nat.add_comm,hsplit,hx]
  have hnot : i % w ∉ (loc (i / w)).map Prod.snd := fun hmem => by
    obtain ⟨p,hp,hpos⟩ := List.mem_map.mp hmem
    refine hout (List.mem_map.mpr ⟨(p.1,p.2 + i / w * w),?_,by rw [hpos,hsplit]⟩)
    exact mem_gathered.mpr ⟨i / w,hr,p,hp,rfl⟩
  have hk : min k w < w := by
    have hnodup := List.nodup_cons.mpr ⟨hnot,(hloc _ hr).nodup⟩
    have hsubset : i % w :: (loc (i / w)).map Prod.snd ⊆ List.range w := by
      refine List.cons_subset.mpr ⟨List.mem_range.mpr hmod,fun j hj => ?_⟩
      obtain ⟨p,hp,rfl⟩ := List.mem_map.mp hj
      exact List.mem_range.mpr (position_lt hloc hr hp)
    have hle := (hnodup.subperm hsubset).length_le
    rwa [List.length_cons,List.length_map,(hloc _ hr).length_eq,List.length_range] at hle
  have hall : ((loc (i / w)).countP fun p => y < p.1) = k := by
    rw [List.countP_eq_length.mpr fun p hp => decide_eq_true
      (hlt.trans_le ((hloc _ hr).greatest _ x hpart hnot p hp)),(hloc _ hr).length_eq]
    omega
  exact hall.symm.le.trans (countP_loc_le hr fun z => y < z)

/-- A selection of the selections of the parts of a row is one of the row. -/
theorem Selection.merge (hrow : row.length = tp * w)
    (hloc : ∀ r < tp, Selection ((row.drop (r * w)).take w) (min k w) (loc r))
    (hsel : Selection ((gathered tp (fun r => r * w) loc).map Prod.fst) (min k (tp * w)) sel) :
    Selection row (min k (tp * w)) (reselect (gathered tp (fun r => r * w) loc) sel) := by
  have hcand := fun p hp => reselect_get (hsel.get p hp)
  refine ⟨?_,?_,?_,?_,?_⟩
  · rw [reselect,List.length_map,hsel.length_eq]
  · have hmap : (reselect (gathered tp (fun r => r * w) loc) sel).map Prod.snd =
        (sel.map Prod.snd).map fun i => ((gathered tp (fun r => r * w) loc).map Prod.snd).getD i 0 := by
      rw [reselect,List.map_map,List.map_map]
      rfl
    rw [hmap]
    refine hsel.nodup.map_on fun i hi j hj heq => ?_
    obtain ⟨p,hp,rfl⟩ := List.mem_map.mp hi
    obtain ⟨q,hq,rfl⟩ := List.mem_map.mp hj
    have hi' := List.getElem?_map.trans (congrArg (Option.map Prod.snd) (hcand p hp))
    have hj' := List.getElem?_map.trans (congrArg (Option.map Prod.snd) (hcand q hq))
    refine (List.getElem?_inj ?_ (nodup_gathered hloc)).mp ?_
    · exact (List.getElem?_eq_some_iff.mp hi').1
    · exact hi'.trans ((congrArg some heq).trans hj'.symm)
  · intro q hq
    obtain ⟨p,hp,rfl⟩ := List.mem_map.mp hq
    exact get_gathered hloc _ (List.mem_of_getElem? (hcand p hp))
  · exact List.pairwise_map.mpr hsel.descending
  · intro i x hx hout q hq
    obtain ⟨p,hp,rfl⟩ := List.mem_map.mp hq
    by_contra hlt
    have hlt : p.1 < x := not_le.mp hlt
    by_cases hmem : i ∈ (gathered tp (fun r => r * w) loc).map Prod.snd
    · obtain ⟨c,hc,rfl⟩ := List.mem_map.mp hmem
      obtain ⟨j,hj⟩ := List.mem_iff_getElem?.mp hc
      have hvalue : c.1 = x := Option.some.inj ((get_gathered hloc c hc).symm.trans hx)
      have hj' : ((gathered tp (fun r => r * w) loc).map Prod.fst)[j]? = some x := by
        rw [List.getElem?_map,hj,← hvalue]
        rfl
      refine absurd (hsel.greatest j x hj' (fun hchosen => hout ?_) p hp) (not_le.mpr hlt)
      obtain ⟨p',hp',rfl⟩ := List.mem_map.mp hchosen
      refine List.mem_map.mpr ⟨_,List.mem_map_of_mem hp',?_⟩
      exact congrArg Prod.snd (Option.some.inj ((hcand p' hp').symm.trans hj))
    · have hle := le_countP_of_not_gathered hrow hloc hx hmem hlt
      exact absurd (hle.trans_lt (hsel.countP_lt hp)) (not_lt.mpr (min_le_left _ _))

end Parts

section Tagged

variable {tp : ℕ} {loc : ℕ → List (K × ℕ)}

def tagged (tp : ℕ) (loc : ℕ → List (K × ℕ)) : List (ℕ × (K × ℕ)) :=
  (List.range tp).flatMap fun r => (loc r).map (Prod.mk r)

omit [LinearOrder K] in
theorem gathered_eq_tagged (start : ℕ → ℕ) :
    gathered tp start loc = (tagged tp loc).map fun t => (t.2.1,t.2.2 + start t.1) := by
  simp only [gathered,tagged,List.map_flatMap,List.map_map]
  rfl

omit [LinearOrder K] in
theorem mem_tagged {t : ℕ × (K × ℕ)} : t ∈ tagged tp loc ↔ t.1 < tp ∧ t.2 ∈ loc t.1 := by
  simp only [tagged,List.mem_flatMap,List.mem_range,List.mem_map]
  constructor
  · rintro ⟨r,hr,p,hp,rfl⟩
    exact ⟨hr,hp⟩
  · rintro ⟨hr,hp⟩
    exact ⟨t.1,hr,t.2,hp,rfl⟩

omit [LinearOrder K] in
/-- The parts stand in order. -/
theorem pairwise_tagged : (tagged tp loc).Pairwise fun t u => t.1 ≤ u.1 := by
  rw [tagged,List.pairwise_flatMap]
  constructor
  · intro r _
    exact List.pairwise_map.mpr (List.pairwise_of_forall fun _ _ => le_rfl)
  · refine List.pairwise_lt_range.imp fun hlt t ht u hu => ?_
    obtain ⟨p,-,rfl⟩ := List.mem_map.mp ht
    obtain ⟨q,-,rfl⟩ := List.mem_map.mp hu
    exact hlt.le

omit [LinearOrder K] in
/-- The candidates of the first part are counted there. -/
theorem countP_tagged_first (htp : 0 < tp) (P : K → Prop) [DecidablePred P] :
    ((tagged tp loc).countP fun t => t.1 = 0 ∧ P t.2.1) = (loc 0).countP fun p => P p.1 := by
  obtain ⟨m,rfl⟩ := Nat.exists_eq_succ_of_ne_zero htp.ne'
  have hrest : (((List.range m).map Nat.succ).flatMap fun r => (loc r).map (Prod.mk r)).countP
      (fun t => t.1 = 0 ∧ P t.2.1) = 0 := by
    refine List.countP_eq_zero.mpr fun t ht => ?_
    obtain ⟨r,hr,hmem⟩ := List.mem_flatMap.mp ht
    obtain ⟨j,-,rfl⟩ := List.mem_map.mp hr
    obtain ⟨p,-,rfl⟩ := List.mem_map.mp hmem
    simp
  rw [tagged,List.range_succ_eq_map,List.flatMap_cons,List.countP_append,hrest,Nat.add_zero,
    List.countP_map]
  simp only [Function.comp_def,true_and]

omit [LinearOrder K] in
/-- What is selected of the candidates, with where it comes from. -/
theorem exists_tagged {start : ℕ → ℕ} {p : K × ℕ}
    (h : ((gathered tp start loc).map Prod.fst)[p.2]? = some p.1) :
    ∃ r q, (tagged tp loc)[p.2]? = some (r,(p.1,q)) ∧ ∀ start' : ℕ → ℕ,
      (p.1,((gathered tp start' loc).map Prod.snd).getD p.2 0) = (p.1,q + start' r) := by
  rw [gathered_eq_tagged,List.map_map,List.getElem?_map,Option.map_eq_some_iff] at h
  obtain ⟨⟨r,x,q⟩,ht,hfst⟩ := h
  obtain rfl : x = p.1 := hfst
  refine ⟨r,q,ht,fun start' => ?_⟩
  rw [gathered_eq_tagged,List.map_map,List.getD_eq_getElem?_getD,List.getElem?_map,ht]
  rfl

end Tagged

section Last

/-- Greater values come first, and the later of equal ones. -/
def lastKey (e : K × ℕ) : Lex (Kᵒᵈ × ℕᵒᵈ) := toLex (OrderDual.toDual e.1,OrderDual.toDual e.2)

theorem lastKey_lt_iff {p q : K × ℕ} :
    lastKey p < lastKey q ↔ q.1 < p.1 ∨ p.1 = q.1 ∧ q.2 < p.2 := by
  rw [lastKey,lastKey,Prod.Lex.toLex_lt_toLex]
  rfl

def topkLast (row : List K) (n : ℕ) : List (K × ℕ) := (sortByKey lastKey row.zipIdx).take n

variable {row : List K} {n : ℕ}

theorem pairwise_lastKey (row : List K) :
    (sortByKey lastKey row.zipIdx).Pairwise fun p q => lastKey p < lastKey q := by
  have hperm := sortByKey_perm lastKey row.zipIdx
  have hnodup : ((sortByKey lastKey row.zipIdx).map Prod.snd).Nodup := by
    rw [(hperm.map Prod.snd).nodup_iff,List.zipIdx_map_snd]
    exact List.nodup_range'
  refine ((pairwise_sortByKey lastKey row.zipIdx).and (List.pairwise_map.mp hnodup)).imp ?_
  rintro p q ⟨hle,hne⟩
  refine lt_of_le_of_ne hle fun heq => hne ?_
  exact congrArg (fun e => OrderDual.ofDual (ofLex e).2) heq

theorem mem_topkLast {e : K × ℕ} : e ∈ topkLast row n ↔ row[e.2]? = some e.1 ∧
    (row.zipIdx.countP fun b => lastKey b < lastKey e) < n := by
  have hperm := sortByKey_perm lastKey row.zipIdx
  rw [topkLast,mem_take_iff (pairwise_lastKey row),hperm.mem_iff,hperm.countP_eq,
    List.mem_zipIdx_iff_getElem?]

theorem topkLast_isTopk : IsTopk (topkLast : List K → ℕ → List (K × ℕ)) := by
  intro row n hn
  have hperm := sortByKey_perm lastKey row.zipIdx
  have hpairwise := pairwise_lastKey row
  refine ⟨?_,?_,fun p hp => (mem_topkLast.mp hp).1,?_,fun i x hx hout p hp => ?_⟩
  · rw [topkLast,List.length_take,hperm.length_eq,List.length_zipIdx,Nat.min_eq_left hn]
  · refine List.Nodup.sublist ((List.take_sublist _ _).map Prod.snd) ?_
    rw [(hperm.map Prod.snd).nodup_iff,List.zipIdx_map_snd]
    exact List.nodup_range'
  · refine (hpairwise.sublist (List.take_sublist _ _)).imp fun hlt => ?_
    rcases lastKey_lt_iff.mp hlt with hlt | ⟨heq,-⟩
    · exact hlt.le
    · exact heq.ge
  · have hmem : (x,i) ∈ sortByKey lastKey row.zipIdx :=
      hperm.mem_iff.mpr (List.mem_zipIdx_iff_getElem?.mpr hx)
    rw [← List.take_append_drop n (sortByKey lastKey row.zipIdx)] at hmem hpairwise
    rcases List.mem_append.mp hmem with hin | hafter
    · exact absurd (List.mem_map_of_mem hin) hout
    · have hlt := (List.pairwise_append.mp hpairwise).2.2 p hp _ hafter
      rcases lastKey_lt_iff.mp hlt with hlt | ⟨heq,-⟩
      · exact hlt.le
      · exact heq.ge

theorem topkLast_isArgmax : IsArgmax fun row : List K => ((topkLast row 1).map Prod.snd).headD 0 :=
  fun row hne => (topkLast_isTopk row 1 (List.length_pos_of_ne_nil hne)).greatestAt

end Last

end

open SortByKey

/-- A function that selects the greatest entries of a row of any type, in any order. -/
structure Selector where
  run : ∀ {V : Type} [LinearOrder V], List V → ℕ → List (V × ℕ)
  chosen : ∀ {V : Type} [LinearOrder V] (row : List V) (n : ℕ), n ≤ row.length →
    Chosen row n (run row n)

def Selector.last : Selector := ⟨topkLast,fun row n hn => (topkLast_isTopk row n hn).chosen⟩

variable {V : Type} [LinearOrder V]

/-- The `n` greatest entries of a row, in descending order. -/
def greatestOf (row : List V) (n : ℕ) : List V := (sortByKey OrderDual.toDual row).take n

namespace Chosen

variable {row : List V} {n : ℕ} {sel sel' : List (V × ℕ)}

theorem position_lt (h : Chosen row n sel) {i : ℕ} (hi : i ∈ sel.map Prod.snd) : i < row.length := by
  obtain ⟨p,hp,rfl⟩ := List.mem_map.mp hi
  exact (List.getElem?_eq_some_iff.mp (h.get p hp)).1

theorem exists_rest (h : Chosen row n sel) : ∃ rest, row.zipIdx.Perm (sel ++ rest) ∧
    ∀ q ∈ rest, ∀ p ∈ sel, q.1 ≤ p.1 := by
  have hsubset : sel ⊆ row.zipIdx := fun p hp => List.mem_zipIdx_iff_getElem?.mpr (h.get p hp)
  obtain ⟨sel',hperm,hsublist⟩ := (List.Nodup.of_map Prod.snd h.nodup).subperm hsubset
  obtain ⟨rest,hrest⟩ := hsublist.exists_perm_append
  replace hrest := hrest.trans (hperm.append_right rest)
  refine ⟨rest,hrest,fun q hq p hp => ?_⟩
  have hnodup : ((sel ++ rest).map Prod.snd).Nodup := by
    rw [← (hrest.map Prod.snd).nodup_iff,List.zipIdx_map_snd]
    exact List.nodup_range'
  rw [List.map_append] at hnodup
  have hmem : q ∈ row.zipIdx := hrest.mem_iff.mpr (List.mem_append_right _ hq)
  refine h.greatest q.2 q.1 (List.mem_zipIdx_iff_getElem?.mp hmem) (fun hin => ?_) p hp
  exact List.disjoint_of_nodup_append hnodup hin (List.mem_map_of_mem hq)

theorem values_perm (h : Chosen row n sel) : (sel.map Prod.fst).Perm (greatestOf row n) := by
  obtain ⟨rest,hrest,hle⟩ := h.exists_rest
  have hvalues := hrest.map Prod.fst
  rw [List.zipIdx_map_fst,List.map_append] at hvalues
  have hsel := sortByKey_perm OrderDual.toDual (sel.map Prod.fst)
  have hafter := sortByKey_perm OrderDual.toDual (rest.map Prod.fst)
  have hsorted : sortByKey OrderDual.toDual row = sortByKey OrderDual.toDual (sel.map Prod.fst) ++
      sortByKey OrderDual.toDual (rest.map Prod.fst) := by
    refine sortByKey_eq (hvalues.trans (hsel.append hafter).symm) ?_ fun a _ b _ hab =>
      OrderDual.toDual_inj.mp hab
    refine List.pairwise_append.mpr ⟨pairwise_sortByKey _ _,pairwise_sortByKey _ _,fun x hx y hy => ?_⟩
    obtain ⟨p,hp,rfl⟩ := List.mem_map.mp (hsel.mem_iff.mp hx)
    obtain ⟨q,hq,rfl⟩ := List.mem_map.mp (hafter.mem_iff.mp hy)
    exact OrderDual.toDual_le_toDual.mpr (hle q hq p hp)
  have hlength : (sortByKey OrderDual.toDual (sel.map Prod.fst)).length = n := by
    rw [hsel.length_eq,List.length_map,h.length_eq]
  rw [greatestOf,hsorted,List.take_left' hlength]
  exact hsel.symm

/-- Where the entries differ, the positions are those of the entries that few exceed. -/
theorem mem_iff (h : Chosen row n sel) (hrow : row.Nodup) {i : ℕ} : i ∈ sel.map Prod.snd ↔
    ∃ x, row[i]? = some x ∧ (row.countP fun y => x < y) < n := by
  constructor
  · intro hi
    obtain ⟨p,hp,rfl⟩ := List.mem_map.mp hi
    exact ⟨p.1,h.get p hp,h.countP_lt hp⟩
  · rintro ⟨x,hx,hlt⟩
    by_contra hout
    have hsubset : sel.map Prod.snd ⊆ positionsOf row fun y => x < y := by
      intro j hj
      obtain ⟨p,hp,rfl⟩ := List.mem_map.mp hj
      refine mem_positionsOf.mpr ⟨p.1,h.get p hp,(h.greatest i x hx hout p hp).lt_of_ne ?_⟩
      rintro rfl
      have hi := (List.getElem?_eq_some_iff.mp hx).1
      obtain rfl := (List.getElem?_inj hi hrow).mp (hx.trans (h.get p hp).symm)
      exact hout hj
    have hle := (h.nodup.subperm hsubset).length_le
    rw [List.length_map,length_positionsOf,h.length_eq] at hle
    exact absurd hlt (not_lt.mpr hle)

section Masked

variable {kept : ℕ → Prop} [DecidablePred kept]

theorem kept_of_le (h : Chosen row n sel)
    (hmask : ∀ i j x y, row[i]? = some x → row[j]? = some y → ¬kept i → kept j → x < y)
    (hn : n ≤ (List.range row.length).countP fun i => kept i) :
    ∀ i ∈ sel.map Prod.snd, kept i := by
  intro i hi
  by_contra hnot
  obtain ⟨p,hp,rfl⟩ := List.mem_map.mp hi
  have hsubset : p.2 :: (List.range row.length).filter (fun i => kept i) ⊆ sel.map Prod.snd := by
    refine List.cons_subset.mpr ⟨hi,fun j hj => ?_⟩
    obtain ⟨hlt,hkept⟩ := List.mem_filter.mp hj
    have hget := List.getElem?_eq_getElem (List.mem_range.mp hlt)
    by_contra hout
    exact absurd (hmask _ _ _ _ (h.get p hp) hget hnot (of_decide_eq_true hkept))
      (not_lt.mpr (h.greatest j _ hget hout p hp))
  have hnodup : (p.2 :: (List.range row.length).filter fun i => kept i).Nodup :=
    List.nodup_cons.mpr ⟨fun hmem => hnot (of_decide_eq_true (List.mem_filter.mp hmem).2),
      List.nodup_range.filter _⟩
  have hle := (hnodup.subperm hsubset).length_le
  rw [List.length_cons,← List.countP_eq_length_filter,List.length_map,h.length_eq] at hle
  omega

theorem le_of_kept (h : Chosen row n sel) (hkept : ∀ i ∈ sel.map Prod.snd, kept i) :
    n ≤ (List.range row.length).countP fun i => kept i := by
  have hsubset : sel.map Prod.snd ⊆ (List.range row.length).filter fun i => kept i := fun i hi =>
    List.mem_filter.mpr ⟨List.mem_range.mpr (h.position_lt hi),decide_eq_true (hkept i hi)⟩
  have hle := (h.nodup.subperm hsubset).length_le
  rwa [List.length_map,h.length_eq,← List.countP_eq_length_filter] at hle

end Masked

end Chosen

/-- Positions of `n` greatest entries among those of the positions that are kept. -/
structure Among (kept : ℕ → Prop) (row : List V) (n : ℕ) (ids : List ℕ) : Prop where
  length_eq : ids.length = n
  nodup : ids.Nodup
  mem : ∀ i ∈ ids, i < row.length ∧ kept i
  greatest : ∀ i ∈ ids, ∀ j, j ∉ ids → kept j →
    ∀ x y, row[i]? = some x → row[j]? = some y → y ≤ x

/-- A row with `bot` in the place of what is not kept. -/
def masked {W : Type} (value : V → W) (bot : W) (kept : ℕ → Prop) [DecidablePred kept] (row : List V) :
    List W :=
  row.mapIdx fun i x => if kept i then value x else bot

section Among

variable {row : List V} {n : ℕ} {kept : ℕ → Prop} {ids ids' : List ℕ}

theorem Among.congr {kept' : ℕ → Prop} (hkept : ∀ i < row.length, kept i ↔ kept' i) :
    Among kept row n ids ↔ Among kept' row n ids := by
  constructor
  · intro h
    refine ⟨h.length_eq,h.nodup,fun i hi => ?_,fun i hi j hj hjkept x y hx hy => ?_⟩
    · exact ⟨(h.mem i hi).1,(hkept i (h.mem i hi).1).mp (h.mem i hi).2⟩
    · have hlt := (List.getElem?_eq_some_iff.mp hy).1
      exact h.greatest i hi j hj ((hkept j hlt).mpr hjkept) x y hx hy
  · intro h
    refine ⟨h.length_eq,h.nodup,fun i hi => ?_,fun i hi j hj hjkept x y hx hy => ?_⟩
    · exact ⟨(h.mem i hi).1,(hkept i (h.mem i hi).1).mpr (h.mem i hi).2⟩
    · have hlt := (List.getElem?_eq_some_iff.mp hy).1
      exact h.greatest i hi j hj ((hkept j hlt).mp hjkept) x y hx hy

theorem Among.subset (hrow : row.Nodup) (h : Among kept row n ids) (h' : Among kept row n ids') :
    ids ⊆ ids' := by
  intro i hi
  by_contra hout
  have hsubset : ids' ⊆ ids := by
    intro j hj
    by_contra hj'
    have hx := List.getElem?_eq_getElem (h.mem i hi).1
    have hy := List.getElem?_eq_getElem (h'.mem j hj).1
    have hle := h.greatest i hi j hj' (h'.mem j hj).2 _ _ hx hy
    have hge := h'.greatest j hj i hout (h.mem i hi).2 _ _ hy hx
    obtain rfl := (List.getElem?_inj (h.mem i hi).1 hrow).mp
      (hx.trans ((congrArg some (hge.antisymm hle)).trans hy.symm))
    exact hout hj
  have hperm := (h'.nodup.subperm hsubset).perm_of_length_le
    (h.length_eq.trans h'.length_eq.symm).le
  exact hout (hperm.mem_iff.mpr hi)

/-- Where the entries differ, there is one such selection. -/
theorem Among.perm (hrow : row.Nodup) (h : Among kept row n ids) (h' : Among kept row n ids') :
    ids.Perm ids' :=
  (h.nodup.subperm (h.subset hrow h')).perm_of_length_le (h'.length_eq.trans h.length_eq.symm).le

variable [DecidablePred kept] {W : Type} [LinearOrder W] {value : V → W} {bot : W} {sel : List (W × ℕ)}

omit [LinearOrder V] [LinearOrder W] in
theorem getElem?_masked (i : ℕ) :
    (masked value bot kept row)[i]? = row[i]?.map fun x => if kept i then value x else bot := by
  rw [masked,List.getElem?_mapIdx]

/-- What is selected of a row with a mask is selected of what is kept, exactly when enough is kept. -/
theorem among_iff (hvalue : StrictMono value) (hbot : ∀ x ∈ row, bot < value x)
    (h : Chosen (masked value bot kept row) n sel) :
    Among kept row n (sel.map Prod.snd) ↔ n ≤ (List.range row.length).countP fun i => kept i := by
  have hlength : (masked value bot kept row).length = row.length := List.length_mapIdx
  constructor
  · intro hamong
    rw [← hlength]
    exact h.le_of_kept fun i hi => (hamong.mem i hi).2
  · intro hn
    have hkept := h.kept_of_le (fun i j x y hx hy hi hj => ?_) (by rwa [hlength])
    · refine ⟨(List.length_map _).trans h.length_eq,h.nodup,fun i hi => ?_,?_⟩
      · exact ⟨hlength ▸ h.position_lt hi,hkept i hi⟩
      · intro i hi j hj hjkept x y hx hy
        have hikept := hkept i hi
        obtain ⟨p,hp,rfl⟩ := List.mem_map.mp hi
        have hget := h.get p hp
        rw [getElem?_masked,hx,Option.map_some,if_pos hikept,Option.some_inj] at hget
        have hle := h.greatest j (value y) (by rw [getElem?_masked,hy,Option.map_some,if_pos hjkept])
          hj p hp
        rw [← hget] at hle
        exact hvalue.le_iff_le.mp hle
    · rw [getElem?_masked,Option.map_eq_some_iff] at hx hy
      obtain ⟨a,-,rfl⟩ := hx
      obtain ⟨b,hb,rfl⟩ := hy
      rw [if_neg hi,if_pos hj]
      exact hbot b (List.mem_of_getElem? hb)

end Among

/-- What is counted of the numbers below a bound are the members of a list of such numbers. -/
theorem countP_mem {ids : List ℕ} (hnodup : ids.Nodup) {g : ℕ} (hlt : ∀ i ∈ ids, i < g) :
    ((List.range g).countP fun i => i ∈ ids) = ids.length := by
  rw [List.countP_eq_length_filter]
  refine ((List.perm_ext_iff_of_nodup (List.nodup_range.filter _) hnodup).mpr fun i => ?_).length_eq
  rw [List.mem_filter,List.mem_range,decide_eq_true_iff]
  exact ⟨fun h => h.2,fun h => ⟨hlt i h,h⟩⟩

/-- Every group that is counted counts with all its members. -/
theorem countP_div (p : ℕ → Bool) (m g : ℕ) (hm : 0 < m) :
    ((List.range (g * m)).countP fun i => p (i / m)) = (List.range g).countP p * m := by
  induction g with
  | zero => rw [Nat.zero_mul,List.range_zero,List.countP_nil,List.countP_nil,Nat.zero_mul]
  | succ g ih =>
    have hgroup : ((List.range m).map (g * m + ·)).countP (fun i => p (i / m)) =
        if p g then m else 0 := by
      have hdiv : ∀ i ∈ List.range m, (g * m + i) / m = g := fun i hi => by
        rw [Nat.mul_comm,Nat.mul_add_div hm,Nat.div_eq_of_lt (List.mem_range.mp hi),Nat.add_zero]
      rw [List.countP_map]
      split_ifs with hp
      · rw [List.countP_eq_length.mpr,List.length_range]
        intro i hi
        rw [Function.comp_apply,hdiv i hi,hp]
      · refine List.countP_eq_zero.mpr fun i hi => ?_
        rwa [Function.comp_apply,hdiv i hi]
    rw [Nat.succ_mul,List.range_add,List.countP_append,ih,hgroup,List.range_succ,List.countP_append,
      List.countP_singleton,Nat.add_mul]
    split_ifs
    · rw [Nat.one_mul]
    · rw [Nat.zero_mul]

end TopK
end DockyardRL
