import Mathlib.Data.List.GetD
import Mathlib.Data.List.Perm.Basic
import Mathlib.Data.List.Range
import Mathlib.Tactic.Common
import Mathlib.Data.List.Basic
import Mathlib.Order.Basic
import Mathlib.Order.MinMax
import Mathlib.Data.Multiset.Bind

/-! Rows read and written through index lists. `gather` reads, `scatter` writes; through a
permutation each undoes the other, and `inverse` is the permutation that undoes a gather by another
gather.

Reductions that are scattered into a list: an entry becomes what an operation selects among it and
the values that are sent to it.

Rows dealt out in stripes: every chunk of rows is cut into equal parts, and stripe `i` takes part
`i` of every chunk. Together the stripes hold every row once, and the pieces of one chunk are the
chunk. -/
namespace DockyardRL
namespace Gather

variable {α β : Type*}

/-- `rows[idx]`. -/
def gather (rows : List α) (idx : List ℕ) : List α := idx.filterMap (rows[·]?)

/-- `out = init; out[idx] = vals`. -/
def scatter (init : List α) (idx : List ℕ) (vals : List α) : List α :=
  (idx.zip vals).foldl (fun out x => out.set x.1 x.2) init

/-- Every index is a row number. -/
def Within (idx : List ℕ) (n : ℕ) : Prop := ∀ i ∈ idx, i < n

@[simp] theorem gather_nil (rows : List α) : gather rows [] = [] := rfl

theorem gather_cons {rows : List α} {i : ℕ} {idx : List ℕ} (h : i < rows.length) :
    gather rows (i :: idx) = rows[i] :: gather rows idx := by
  simp [gather,h]

theorem gather_append (rows : List α) (p q : List ℕ) :
    gather rows (p ++ q) = gather rows p ++ gather rows q := by
  simp [gather]

theorem gather_flatten (rows : List α) (ps : List (List ℕ)) :
    gather rows ps.flatten = (ps.map (gather rows)).flatten := by
  induction ps with
  | nil => rfl
  | cons p ps ih => rw [List.flatten_cons,gather_append,ih,List.map_cons,List.flatten_cons]

theorem gather_map (f : α → β) (rows : List α) (idx : List ℕ) :
    gather (rows.map f) idx = (gather rows idx).map f := by
  simp [gather,List.map_filterMap]

theorem gather_range (rows : List α) : gather rows (List.range rows.length) = rows := by
  induction rows using List.reverseRecOn with
  | nil => rfl
  | append_singleton rows x ih =>
    have hinit : gather (rows ++ [x]) (List.range rows.length) = gather rows (List.range rows.length) := by
      refine List.filterMap_congr fun i hi => ?_
      rw [List.getElem?_append_left (List.mem_range.mp hi)]
    have hlast : gather (rows ++ [x]) [rows.length] = [x] := by simp [gather]
    rw [List.length_append,List.length_singleton,List.range_succ,gather_append,hinit,ih,hlast]

/-- Rows read in order are a part of the rows. -/
theorem gather_sublist {idx : List ℕ} (hsorted : idx.Pairwise (· < ·)) (rows : List α) :
    (gather rows idx).Sublist rows := by
  induction rows generalizing idx with
  | nil =>
    rw [gather,List.filterMap_eq_nil_iff.mpr (by simp)]
  | cons x rows ih =>
    have hshift : ∀ is : List ℕ, (∀ i ∈ is, 0 < i) → is.Pairwise (· < ·) →
        (gather (x :: rows) is).Sublist rows := by
      intro is hpos his
      have hread : gather (x :: rows) is = gather rows (is.map (· - 1)) := by
        rw [gather,gather,List.filterMap_map]
        refine List.filterMap_congr fun i hi => ?_
        obtain ⟨k,rfl⟩ := Nat.exists_eq_add_of_lt (hpos i hi)
        simp
      rw [hread]
      refine ih (List.pairwise_map.mpr (his.imp_of_mem fun hi hj hlt => ?_))
      have hi := hpos _ hi
      omega
    cases idx with
    | nil => exact List.nil_sublist _
    | cons i idx =>
      obtain ⟨hlt,htail⟩ := List.pairwise_cons.mp hsorted
      cases i with
      | zero =>
        rw [gather_cons (by simp),List.getElem_cons_zero]
        exact (hshift idx hlt htail).cons_cons x
      | succ i =>
        refine (hshift _ (fun j hj => ?_) hsorted).cons x
        obtain rfl | hj := List.mem_cons.mp hj
        · omega
        · exact Nat.zero_lt_of_lt (hlt j hj)

theorem length_gather {rows : List α} {idx : List ℕ} (h : Within idx rows.length) :
    (gather rows idx).length = idx.length := by
  induction idx with
  | nil => rfl
  | cons i idx ih =>
    have htail : Within idx rows.length := fun j hj => h j (List.mem_cons_of_mem _ hj)
    rw [gather_cons (h i (by simp)),List.length_cons,ih htail,List.length_cons]

theorem gather_eq_map (l : List α) (d : α) {idx : List ℕ} (h : Within idx l.length) :
    gather l idx = idx.map (l.getD · d) := by
  induction idx with
  | nil => rfl
  | cons i idx ih =>
    have hi := h i List.mem_cons_self
    rw [gather_cons hi,ih fun j hj => h j (List.mem_cons_of_mem i hj),List.map_cons,
      List.getD_eq_getElem _ _ hi]

theorem gather_zip {l : List α} {m : List β} (hlen : l.length = m.length) {idx : List ℕ}
    (h : Within idx l.length) : gather (l.zip m) idx = (gather l idx).zip (gather m idx) := by
  induction idx with
  | nil => rfl
  | cons i idx ih =>
    have htail : Within idx l.length := fun j hj => h j (List.mem_cons_of_mem _ hj)
    have hi := h i (by simp)
    have hi' : i < m.length := by omega
    have hzip : i < (l.zip m).length := by
      rw [List.length_zip]
      omega
    rw [gather_cons hzip,gather_cons hi,gather_cons hi',ih htail,List.getElem_zip,
      List.zip_cons_cons]

theorem getElem?_gather {rows : List α} {idx : List ℕ} (h : Within idx rows.length) (j : ℕ) :
    (gather rows idx)[j]? = idx[j]?.bind (rows[·]?) := by
  induction idx generalizing j with
  | nil => simp
  | cons i idx ih =>
    have htail : Within idx rows.length := fun j hj => h j (List.mem_cons_of_mem _ hj)
    have hi := h i (by simp)
    rw [gather_cons hi]
    cases j with
    | zero => simp [hi]
    | succ j => simpa using ih htail j

/-- Positions read through an index list are the index list. -/
theorem gather_positions {n : ℕ} {p : List ℕ} (h : Within p n) : gather (List.range n) p = p := by
  have hread : gather (List.range n) p = p.filterMap some :=
    List.filterMap_congr fun i hi => List.getElem?_range (h i hi)
  rw [hread,List.filterMap_some]

/-- Two gathers in a row are one gather. -/
theorem gather_gather {rows : List α} {p : List ℕ} (h : Within p rows.length) (q : List ℕ) :
    gather (gather rows p) q = gather rows (gather p q) := by
  have hread : gather (gather rows p) q = q.filterMap fun j => p[j]?.bind (rows[·]?) :=
    List.filterMap_congr fun j _ => getElem?_gather h j
  rw [hread]
  simp only [gather,List.filterMap_filterMap]

theorem within_perm {p : List ℕ} {n : ℕ} (h : p.Perm (List.range n)) : Within p n :=
  fun _ hi => List.mem_range.mp (h.mem_iff.mp hi)

theorem gather_perm {rows : List α} {p : List ℕ} (h : p.Perm (List.range rows.length)) :
    (gather rows p).Perm rows := by
  have hperm : (gather rows p).Perm (gather rows (List.range rows.length)) := h.filterMap _
  rwa [gather_range] at hperm

/-- Rows are determined by what a permutation reads. -/
theorem gather_injective {a b : List α} {p : List ℕ} {n : ℕ} (h : p.Perm (List.range n))
    (ha : a.length = n) (hb : b.length = n) (heq : gather a p = gather b p) : a = b := by
  have hwithin := within_perm h
  refine List.ext_getElem? fun i => ?_
  by_cases hi : i < n
  · obtain ⟨j,hj⟩ := List.mem_iff_getElem?.mp (h.mem_iff.mpr (List.mem_range.mpr hi))
    have hread := congrArg (·[j]?) heq
    simp only [getElem?_gather (ha ▸ hwithin),getElem?_gather (hb ▸ hwithin),hj,
      Option.bind_some] at hread
    exact hread
  · rw [List.getElem?_eq_none (by omega),List.getElem?_eq_none (by omega)]

theorem scatter_cons (init : List α) (i : ℕ) (idx : List ℕ) (v : α) (vals : List α) :
    scatter init (i :: idx) (v :: vals) = scatter (init.set i v) idx vals := rfl

@[simp] theorem length_scatter (init : List α) (idx : List ℕ) (vals : List α) :
    (scatter init idx vals).length = init.length := by
  induction idx generalizing init vals with
  | nil => rfl
  | cons i idx ih =>
    cases vals with
    | nil => rfl
    | cons v vals => rw [scatter_cons,ih,List.length_set]

theorem getElem?_scatter_of_notMem (init : List α) {idx : List ℕ} (vals : List α) {i : ℕ}
    (h : i ∉ idx) : (scatter init idx vals)[i]? = init[i]? := by
  induction idx generalizing init vals with
  | nil => rfl
  | cons k idx ih =>
    rw [List.mem_cons,not_or] at h
    cases vals with
    | nil => rfl
    | cons v vals => rw [scatter_cons,ih _ _ h.2,List.getElem?_set_ne (Ne.symm h.1)]

/-- Reading what was written. -/
theorem gather_scatter {init : List α} {idx : List ℕ} {vals : List α} (hnodup : idx.Nodup)
    (hwithin : Within idx init.length) (hlen : idx.length = vals.length) :
    gather (scatter init idx vals) idx = vals := by
  induction idx generalizing init vals with
  | nil =>
    have hnil : vals = [] := List.eq_nil_of_length_eq_zero hlen.symm
    rw [hnil]
    rfl
  | cons i idx ih =>
    cases vals with
    | nil => simp at hlen
    | cons v vals =>
      obtain ⟨hi,hnd⟩ := List.nodup_cons.mp hnodup
      have hbound := hwithin i (by simp)
      have htail : Within idx (init.set i v).length := fun j hj => by
        rw [List.length_set]
        exact hwithin j (List.mem_cons_of_mem _ hj)
      have hrest := ih hnd htail (by simpa using hlen)
      have hhead : (scatter (init.set i v) idx vals)[i]? = some v := by
        rw [getElem?_scatter_of_notMem _ _ hi,List.getElem?_set_self hbound]
      rw [scatter_cons]
      simp only [gather] at hrest ⊢
      rw [List.filterMap_cons,hhead,hrest]

/-- What is written for an index is found there. -/
theorem getElem?_scatter_mem {init vals : List α} {idx : List ℕ} (hnodup : idx.Nodup)
    (hwithin : Within idx init.length) (hlen : idx.length = vals.length) {p : ℕ}
    (hp : p < idx.length) : (scatter init idx vals)[idx[p]]? = vals[p]? := by
  have hread := congrArg (fun l => l[p]?) (gather_scatter hnodup hwithin hlen)
  have hwithin' : Within idx (scatter init idx vals).length := by rwa [length_scatter]
  rw [getElem?_gather hwithin',List.getElem?_eq_getElem hp,Option.bind_some] at hread
  exact hread

/-- Rows that are read, changed by what comes with each, and written back. -/
theorem getElem?_scatter_zipWith {values : List α} {idx : List ℕ} {news : List β} (f : α → β → α)
    (hnodup : idx.Nodup) (hwithin : Within idx values.length) (hlen : news.length = idx.length) {p : ℕ}
    (hp : p < idx.length) {x : α} {y : β} (hx : values[idx[p]]? = some x) (hy : news[p]? = some y) :
    (scatter values idx (List.zipWith f (gather values idx) news))[idx[p]]? = some (f x y) := by
  have hlength : idx.length = (List.zipWith f (gather values idx) news).length := by
    rw [List.length_zipWith,length_gather hwithin,hlen,Nat.min_self]
  rw [getElem?_scatter_mem hnodup hwithin hlength hp,List.getElem?_zipWith,getElem?_gather hwithin,
    List.getElem?_eq_getElem hp,Option.bind_some,hx,hy]

/-- The same where only some of the rows, and of what comes with them, are selected. -/
theorem getElem?_scatter_gather {values : List α} {idx loc : List ℕ} {news : List β} (f : α → β → α)
    (hnodup : (gather idx loc).Nodup) (hwithin : Within (gather idx loc) values.length)
    (hloc : Within loc idx.length) (hnews : Within loc news.length) {p g : ℕ} (hp : p ∈ loc)
    (hg : idx[p]? = some g) {x : α} {y : β} (hx : values[g]? = some x) (hy : news[p]? = some y) :
    (scatter values (gather idx loc)
      (List.zipWith f (gather values (gather idx loc)) (gather news loc)))[g]? = some (f x y) := by
  obtain ⟨q,hq,rfl⟩ := List.mem_iff_getElem.mp hp
  have hlength := length_gather hloc
  have hq' : q < (gather idx loc).length := by rwa [hlength]
  have hat : (gather idx loc)[q] = g := by
    have hread := getElem?_gather hloc q
    rw [List.getElem?_eq_getElem hq',List.getElem?_eq_getElem hq,Option.bind_some,hg] at hread
    exact Option.some.inj hread
  subst hat
  refine getElem?_scatter_zipWith f hnodup hwithin (by rw [length_gather hnews,hlength]) hq' hx ?_
  rw [getElem?_gather hnews,List.getElem?_eq_getElem hq,Option.bind_some,hy]

theorem mem_gather {rows : List α} {idx : List ℕ} {x : α} :
    x ∈ gather rows idx ↔ ∃ p ∈ idx, rows[p]? = some x := List.mem_filterMap

/-- A pass that keeps two results is two passes. -/
theorem foldl_pair {ι : Type*} (f : α → ι → α) (g : β → ι → β) (l : List ι) (a : α) (b : β) :
    l.foldl (fun out x => (f out.1 x,g out.2 x)) (a,b) = (l.foldl f a,l.foldl g b) := by
  induction l generalizing a b with
  | nil => rfl
  | cons x l ih => rw [List.foldl_cons,List.foldl_cons,List.foldl_cons,ih]

/-- Reading what was written at some indices, when other indices were written as well. -/
theorem gather_foldl_scatter {ι : Type*} {init : List α} {ps : List ι} (hnodup : ps.Nodup)
    {idx : ι → List ℕ} {vals : ι → List α} (hidx : ∀ p ∈ ps, (idx p).Nodup)
    (hwithin : ∀ p ∈ ps, Within (idx p) init.length)
    (hlen : ∀ p ∈ ps, (idx p).length = (vals p).length)
    (hdisjoint : ∀ p ∈ ps, ∀ q ∈ ps, p ≠ q → ∀ i ∈ idx p, i ∉ idx q) {p : ι} (hp : p ∈ ps) :
    gather (ps.foldl (fun out q => scatter out (idx q) (vals q)) init) (idx p) = vals p := by
  have hlength : ∀ qs : List ι,
      (qs.foldl (fun out q => scatter out (idx q) (vals q)) init).length = init.length := by
    intro qs
    induction qs using List.reverseRecOn with
    | nil => rfl
    | append_singleton qs q ih => rw [List.foldl_append,List.foldl_cons,List.foldl_nil,length_scatter,ih]
  induction ps using List.reverseRecOn with
  | nil => cases hp
  | append_singleton ps q ih =>
    obtain ⟨hps,-,hnot⟩ := List.nodup_append.mp hnodup
    rw [List.foldl_append,List.foldl_cons,List.foldl_nil]
    rcases List.mem_append.mp hp with hp | hp
    · have hne : p ≠ q := fun heq => hnot p hp q (List.mem_singleton_self q) heq
      have hrest := ih hps (fun r hr => hidx r (List.mem_append_left _ hr))
        (fun r hr => hwithin r (List.mem_append_left _ hr))
        (fun r hr => hlen r (List.mem_append_left _ hr))
        (fun r hr r' hr' => hdisjoint r (List.mem_append_left _ hr) r' (List.mem_append_left _ hr')) hp
      refine (List.filterMap_congr fun i hi => ?_).trans hrest
      exact getElem?_scatter_of_notMem _ _
        (hdisjoint p (List.mem_append_left _ hp) q (by simp) hne i hi)
    · obtain rfl := List.mem_singleton.mp hp
      exact gather_scatter (hidx p (by simp)) (by rw [hlength]; exact hwithin p (by simp))
        (hlen p (by simp))

/-- Writing back what a permutation read. -/
theorem scatter_gather {init rows : List α} {order : List ℕ}
    (h : order.Perm (List.range rows.length)) (hlen : init.length = rows.length) :
    scatter init order (gather rows order) = rows := by
  have hwithin := within_perm h
  refine gather_injective h (by rw [length_scatter,hlen]) rfl ?_
  have hnodup : order.Nodup := h.nodup_iff.mpr List.nodup_range
  exact gather_scatter hnodup (hlen ▸ hwithin) (length_gather hwithin).symm

/-- `for pos, i in enumerate(p): inv[i] = pos`. -/
def inverse (p : List ℕ) : List ℕ := scatter (List.replicate p.length 0) p (List.range p.length)

theorem gather_of_inverse {p : List ℕ} {n : ℕ} (h : p.Perm (List.range n)) :
    gather (inverse p) p = List.range n := by
  have hn : p.length = n := by rw [h.length_eq,List.length_range]
  have hwithin : Within p (List.replicate p.length 0).length := by
    rw [List.length_replicate,hn]
    exact within_perm h
  have hread : gather (scatter (List.replicate p.length 0) p (List.range p.length)) p =
      List.range p.length :=
    gather_scatter (h.nodup_iff.mpr List.nodup_range) hwithin (by simp)
  rwa [← inverse,hn] at hread

theorem inverse_perm {p : List ℕ} {n : ℕ} (h : p.Perm (List.range n)) :
    (inverse p).Perm (List.range n) := by
  have hlen : (inverse p).length = n := by
    rw [inverse,length_scatter,List.length_replicate,h.length_eq,List.length_range]
  have hperm : (gather (inverse p) p).Perm (inverse p) := gather_perm (hlen ▸ h)
  rw [gather_of_inverse h] at hperm
  exact hperm.symm

theorem gather_inverse {p : List ℕ} {n : ℕ} (h : p.Perm (List.range n)) :
    gather p (inverse p) = List.range n := by
  have hn : p.length = n := by rw [h.length_eq,List.length_range]
  have hinv : Within (inverse p) p.length := hn ▸ within_perm (inverse_perm h)
  have hlen : (inverse p).length = n := by rw [(inverse_perm h).length_eq,List.length_range]
  refine gather_injective h (by rw [length_gather hinv,hlen]) (by simp) ?_
  have hall : gather p (List.range n) = p := by
    rw [← hn]
    exact gather_range p
  rw [gather_gather hinv,gather_of_inverse h,hall,gather_positions (within_perm h)]

theorem drop_take_eq_gather (rows : List α) {a k : ℕ} (h : a + k ≤ rows.length) :
    (rows.drop a).take k = gather rows (List.range' a k) := by
  induction k generalizing a with
  | zero => simp
  | succ k ih =>
    have ha : a < rows.length := by omega
    rw [List.range'_succ,gather_cons ha,← ih (by omega),List.drop_eq_getElem_cons ha,
      List.take_succ_cons]

/-- The index lists of consecutive blocks cover the rows in order. -/
theorem flatten_range' (size k : ℕ) :
    ((List.range k).map fun i => List.range' (i * size) size).flatten = List.range (k * size) := by
  induction k with
  | zero => simp
  | succ k ih =>
    rw [List.range_succ,List.map_append,List.flatten_append,ih,List.map_singleton,
      List.flatten_singleton,List.range_eq_range',List.range_eq_range',Nat.succ_mul,
      ← List.range'_append_1,Nat.zero_add]

end Gather

namespace Scatter

variable {α : Type*}

/-- `out.scatter_reduce_(0, index, src, include_self=True)`. -/
def scatterReduce (op : α → α → α) (out : List α) (src : List (ℕ × α)) : List α :=
  src.foldl (fun out p => out.modify p.1 fun x => op x p.2) out

/-- An operation that gives one of its arguments, the one that a preorder puts first. -/
structure Selects (op : α → α → α) (r : α → α → Prop) : Prop where
  refl : ∀ a, r a a
  trans : ∀ a b c, r a b → r b c → r a c
  left : ∀ a b, r (op a b) a
  right : ∀ a b, r (op a b) b
  eq_or : ∀ a b, op a b = a ∨ op a b = b

theorem selects_min [LinearOrder α] : Selects (min : α → α → α) (· ≤ ·) :=
  ⟨le_refl,fun _ _ _ => le_trans,min_le_left,min_le_right,min_choice⟩

theorem selects_max [LinearOrder α] : Selects (max : α → α → α) (· ≥ ·) :=
  ⟨le_refl,fun _ _ _ hab hbc => le_trans hbc hab,le_max_left,le_max_right,max_choice⟩

theorem Selects.foldl {op : α → α → α} {r : α → α → Prop} (h : Selects op r) (l : List α) (x : α) :
    (l.foldl op x = x ∨ l.foldl op x ∈ l) ∧ r (l.foldl op x) x ∧ ∀ a ∈ l, r (l.foldl op x) a := by
  induction l generalizing x with
  | nil => exact ⟨.inl rfl,h.refl x,fun _ ha => absurd ha List.not_mem_nil⟩
  | cons b l ih =>
    obtain ⟨hmem,hfirst,hall⟩ := ih (op x b)
    rw [List.foldl_cons]
    refine ⟨?_,h.trans _ _ _ hfirst (h.left x b),?_⟩
    · rcases hmem with heq | hmem
      · rcases h.eq_or x b with hx | hb
        · exact .inl (heq.trans hx)
        · exact .inr (List.mem_cons.mpr (.inl (heq.trans hb)))
      · exact .inr (List.mem_cons_of_mem b hmem)
    · intro a ha
      rcases List.mem_cons.mp ha with rfl | ha
      · exact h.trans _ _ _ hfirst (h.right x a)
      · exact hall a ha

def sentTo (src : List (ℕ × α)) (j : ℕ) : List α := src.filterMap fun p => if p.1 = j then some p.2 else none

theorem mem_sentTo {src : List (ℕ × α)} {j : ℕ} {v : α} : v ∈ sentTo src j ↔ (j,v) ∈ src := by
  rw [sentTo,List.mem_filterMap]
  constructor
  · rintro ⟨⟨i,w⟩,hmem,hsent⟩
    split_ifs at hsent with hi
    cases hsent
    cases hi
    exact hmem
  · exact fun hmem => ⟨(j,v),hmem,if_pos rfl⟩

theorem getElem?_scatterReduce (op : α → α → α) (out : List α) (src : List (ℕ × α)) (j : ℕ) :
    (scatterReduce op out src)[j]? = out[j]?.map fun x => (sentTo src j).foldl op x := by
  induction src generalizing out with
  | nil => simp [scatterReduce,sentTo]
  | cons p src ih =>
    have hcons : scatterReduce op out (p :: src) =
        scatterReduce op (out.modify p.1 fun x => op x p.2) src := rfl
    rw [hcons,ih,List.getElem?_modify]
    by_cases hp : p.1 = j
    · simp [sentTo,hp,Function.comp_def]
    · simp [sentTo,hp]

/-- What an entry becomes. -/
theorem scatterReduce_spec {op : α → α → α} {r : α → α → Prop} (h : Selects op r) {out : List α}
    (src : List (ℕ × α)) {j : ℕ} {x : α} (hx : out[j]? = some x) :
    ∃ y, (scatterReduce op out src)[j]? = some y ∧ (y = x ∨ (j,y) ∈ src) ∧ r y x ∧
      ∀ v, (j,v) ∈ src → r y v := by
  obtain ⟨hmem,hfirst,hall⟩ := h.foldl (sentTo src j) x
  rw [mem_sentTo] at hmem
  refine ⟨_,?_,hmem,hfirst,fun v hv => hall v (mem_sentTo.mpr hv)⟩
  rw [getElem?_scatterReduce,hx,Option.map_some]

end Scatter

namespace Stripes

open Gather

variable {α : Type*}

/-- Consecutive blocks of one size are one block. -/
theorem blocks_eq (a size k : ℕ) :
    ((List.range k).flatMap fun i => List.range' (a + i * size) size) =
      List.range' a (k * size) := by
  induction k with
  | zero => simp
  | succ k ih =>
    rw [List.range_succ,List.flatMap_append,ih,List.flatMap_singleton,Nat.succ_mul,
      ← List.range'_append_1]

/-- Consecutive parts of a list are a front of it. -/
theorem flatMap_parts (rows : List α) (size k : ℕ) :
    ((List.range k).flatMap fun i => (rows.drop (i * size)).take size) = rows.take (k * size) := by
  induction k with
  | zero => simp
  | succ k ih =>
    rw [List.range_succ,List.flatMap_append,ih,List.flatMap_singleton,Nat.succ_mul,List.take_add]

/-- Part `i` of every chunk. -/
def stripe (chunk size chunks i : ℕ) : List ℕ :=
  (List.range chunks).flatMap fun c => List.range' (c * chunk + i * size) size

variable {chunk size shards i : ℕ}

theorem length_flatMap_blocks {f : ℕ → List α} (hf : ∀ c, (f c).length = size) (k : ℕ) :
    ((List.range k).flatMap f).length = k * size := by
  induction k with
  | zero => simp
  | succ k ih =>
    rw [List.range_succ,List.flatMap_append,List.length_append,ih,List.flatMap_singleton,hf,
      Nat.succ_mul]

theorem length_stripe (chunk size chunks i : ℕ) :
    (stripe chunk size chunks i).length = chunks * size :=
  length_flatMap_blocks (fun _ => List.length_range') chunks

theorem take_drop_blocks {f : ℕ → List α} (hf : ∀ c, (f c).length = size) {g k : ℕ}
    (hg : g < k) : (((List.range k).flatMap f).drop (g * size)).take size = f g := by
  have hsplit : List.range k = List.range g ++ g :: List.range' (g + 1) (k - g - 1) := by
    rw [List.range_eq_range',List.range_eq_range',← List.range'_succ,
      show k - g - 1 + 1 = k - g by omega]
    have happend := List.range'_append_1 (s := 0) (m := g) (n := k - g)
    rw [Nat.zero_add,show g + (k - g) = k by omega] at happend
    exact happend.symm
  have hfront : ((List.range g).flatMap f).length = g * size := length_flatMap_blocks hf g
  rw [hsplit,List.flatMap_append,List.flatMap_cons,List.drop_left' hfront,List.take_left' (hf g)]

theorem take_drop_stripe {chunks g : ℕ} (hg : g < chunks) :
    ((stripe chunk size chunks i).drop (g * size)).take size =
      List.range' (g * chunk + i * size) size :=
  take_drop_blocks (fun _ => List.length_range') hg

/-- The parts of a chunk are the chunk. -/
theorem parts_of_chunk (hchunk : shards * size = chunk) (g : ℕ) :
    ((List.range shards).flatMap fun i => List.range' (g * chunk + i * size) size) =
      List.range' (g * chunk) chunk := by
  rw [blocks_eq,hchunk]

/-- Every row is in one stripe. -/
theorem stripes_perm (chunks : ℕ) (hchunk : shards * size = chunk) :
    ((List.range shards).map (stripe chunk size chunks)).flatten.Perm
      (List.range (chunks * chunk)) := by
  have hswap : ((List.range shards).flatMap (stripe chunk size chunks)).Perm
      ((List.range chunks).flatMap fun c =>
        (List.range shards).flatMap fun i => List.range' (c * chunk + i * size) size) := by
    rw [← Multiset.coe_eq_coe]
    simp only [stripe,← Multiset.coe_bind]
    exact Multiset.bind_bind _ _
  have hchunks : ((List.range chunks).flatMap fun c =>
      (List.range shards).flatMap fun i => List.range' (c * chunk + i * size) size) =
        List.range (chunks * chunk) := by
    have hblocks := blocks_eq 0 chunk chunks
    simp only [Nat.zero_add,← List.range_eq_range'] at hblocks
    simp only [parts_of_chunk hchunk,hblocks]
  rw [← List.flatMap_def]
  exact hswap.trans (.of_eq hchunks)

theorem within_stripe (chunks : ℕ) (hchunk : shards * size = chunk) (hi : i < shards) :
    Within (stripe chunk size chunks i) (chunks * chunk) := by
  intro j hj
  have hmem : j ∈ ((List.range shards).map (stripe chunk size chunks)).flatten :=
    List.mem_flatten_of_mem (List.mem_map_of_mem (List.mem_range.mpr hi)) hj
  exact List.mem_range.mp ((stripes_perm chunks hchunk).mem_iff.mp hmem)

end Stripes
end DockyardRL
