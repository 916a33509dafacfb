import DockyardRL.Lib.Dict
import DockyardRL.Lib.Gather
import DockyardRL.Lib.SortByKey
import Mathlib.Algebra.BigOperators.Group.Finset.Basic
import Mathlib.Algebra.BigOperators.Ring.Finset
import Mathlib.Algebra.Order.BigOperators.Group.Finset

/-! Positions grouped by a key, the keys in the order in which they first occur.

Values collected by their keys, and whole segments taken from the groups: from every group as many
as it has, until there are enough. -/
namespace DockyardRL
namespace Grouping

open Gather

variable {κ α : Type*} [DecidableEq κ]

def place (groups : Dict κ (List ℕ)) (p : κ × ℕ) : Dict κ (List ℕ) :=
  groups.set p.1 ((groups.get? p.1).getD [] ++ [p.2])

def group (keys : List κ) : Dict κ (List ℕ) := keys.zipIdx.foldl place Dict.empty

def positions (keys : List κ) (k : κ) : List ℕ :=
  (List.range keys.length).filter fun i => keys[i]? = some k

theorem positions_append (keys : List κ) (k j : κ) : positions (keys ++ [k]) j =
    positions keys j ++ if k = j then [keys.length] else [] := by
  rw [positions,List.length_append,List.length_singleton,List.range_succ,List.filter_append]
  congr 1
  · refine List.filter_congr fun i hi => ?_
    rw [List.getElem?_append_left (List.mem_range.mp hi)]
  · by_cases hj : k = j <;> simp [hj]

/-- A group has the positions of its key. -/
theorem get?_group (keys : List κ) (k : κ) :
    (group keys).get? k = if k ∈ keys then some (positions keys k) else none := by
  induction keys using List.reverseRecOn with
  | nil => rfl
  | append_singleton keys j ih =>
    have hstep : group (keys ++ [j]) = place (group keys) (j,keys.length) := by
      rw [group,List.zipIdx_append,List.foldl_append]
      simp [group]
    rw [hstep,place,Dict.get?_set,positions_append]
    by_cases hk : k = j
    · subst hk
      rw [if_pos rfl,if_pos (by simp),if_pos rfl,ih]
      by_cases hmem : k ∈ keys
      · rw [if_pos hmem]
        rfl
      · have hnone : positions keys k = [] := by
          refine List.filter_eq_nil_iff.mpr fun i _ => ?_
          rw [decide_eq_true_iff]
          exact fun heq => hmem (List.mem_of_getElem? heq)
        rw [if_neg hmem,hnone]
        rfl
    · rw [if_neg hk,ih,if_neg (Ne.symm hk),List.append_nil]
      have hmem : k ∈ keys ++ [j] ↔ k ∈ keys := by simp [hk]
      rw [if_congr hmem rfl rfl]

theorem mem_keys_group {keys : List κ} {k : κ} : k ∈ (group keys).keys ↔ k ∈ keys := by
  rw [Dict.mem_keys_iff,get?_group]
  split_ifs with hk <;> simp [hk]

/-- The keys of the groups, each once. -/
theorem keys_group_perm (keys : List κ) : (group keys).keys.Perm keys.dedup :=
  (List.perm_ext_iff_of_nodup (group keys).nodup (List.nodup_dedup keys)).mpr fun k => by
    rw [List.mem_dedup]
    exact mem_keys_group

theorem mem_positions {keys : List κ} {k : κ} {i : ℕ} : i ∈ positions keys k ↔ keys[i]? = some k := by
  rw [positions,List.mem_filter,List.mem_range,decide_eq_true_iff,and_iff_right_of_imp]
  exact fun h => (List.getElem?_eq_some_iff.mp h).1

theorem nodup_positions (keys : List κ) (k : κ) : (positions keys k).Nodup :=
  List.nodup_range.filter _

theorem length_positions (keys : List κ) (k : κ) : (positions keys k).length = keys.count k := by
  induction keys using List.reverseRecOn with
  | nil => rfl
  | append_singleton keys j ih =>
    rw [positions_append,List.length_append,ih,List.count_append]
    by_cases hj : j = k <;> simp [hj]

theorem pairwise_positions (keys : List κ) (k : κ) : (positions keys k).Pairwise (· < ·) :=
  List.pairwise_lt_range.filter _

theorem within_positions (keys : List κ) (k : κ) : Within (positions keys k) keys.length := by
  intro i hi
  exact List.mem_range.mp (List.mem_filter.mp hi).1

theorem positions_disjoint {keys : List κ} {k j : κ} (h : k ≠ j) :
    ∀ i ∈ positions keys k, i ∉ positions keys j := by
  intro i hi hj
  exact h (Option.some.inj ((mem_positions.mp hi).symm.trans (mem_positions.mp hj)))

theorem mem_entries_group {keys : List κ} {k : κ} {idx : List ℕ} :
    (k,idx) ∈ (group keys).entries ↔ k ∈ keys ∧ idx = positions keys k := by
  rw [Dict.mem_entries_iff,get?_group]
  split_ifs with hk
  · simp [hk,eq_comm]
  · simp [hk]

theorem values_group (keys : List κ) :
    (group keys).entries.map Prod.snd = (group keys).keys.map (positions keys) := by
  rw [Dict.keys,List.map_map]
  exact List.map_congr_left fun entry hentry => (mem_entries_group.mp hentry).2

/-- Every position is in one group. -/
theorem flatMap_entries_perm (keys : List κ) :
    ((group keys).entries.flatMap Prod.snd).Perm (List.range keys.length) := by
  have hentries : (group keys).entries.flatMap Prod.snd =
      (group keys).keys.flatMap (positions keys) := congrArg List.flatten (values_group keys)
  have hnodup : ((group keys).keys.flatMap (positions keys)).Nodup := by
    refine List.nodup_flatMap.mpr ⟨fun k _ => nodup_positions keys k,?_⟩
    refine (group keys).nodup.imp fun {k j} hne i hi hj => ?_
    exact positions_disjoint hne i hi hj
  rw [hentries]
  refine (List.perm_ext_iff_of_nodup hnodup List.nodup_range).mpr fun i => ?_
  rw [List.mem_flatMap,List.mem_range]
  constructor
  · rintro ⟨k,_,hi⟩
    exact within_positions keys k i hi
  · intro hi
    refine ⟨keys[i],mem_keys_group.mpr (List.getElem_mem hi),?_⟩
    exact mem_positions.mpr (List.getElem?_eq_getElem hi)

/-- What is written group by group, in any order of the groups, is written at every position. -/
theorem scatter_groups {init rows : List α} {keys order : List κ} (hinit : init.length = keys.length)
    (hrows : rows.length = keys.length) (horder : order.Perm (group keys).keys) :
    order.foldl (fun out k => scatter out (positions keys k) (gather rows (positions keys k))) init =
      rows := by
  have hnodup : order.Nodup := horder.nodup_iff.mpr (group keys).nodup
  have hlength : (order.foldl (fun out k =>
      scatter out (positions keys k) (gather rows (positions keys k))) init).length = keys.length := by
    clear horder hnodup
    induction order using List.reverseRecOn with
    | nil => exact hinit
    | append_singleton ks k ih =>
      rw [List.foldl_append,List.foldl_cons,List.foldl_nil,length_scatter,ih]
  refine List.ext_getElem? fun i => ?_
  by_cases hi : i < keys.length
  · have hkey : keys[i]? = some keys[i] := List.getElem?_eq_getElem hi
    have hmem : keys[i] ∈ order :=
      horder.mem_iff.mpr (mem_keys_group.mpr (List.getElem_mem hi))
    have hread := @gather_foldl_scatter _ _ init order hnodup (positions keys)
      (fun k => gather rows (positions keys k)) (fun k _ => nodup_positions keys k)
      (fun k _ => by rw [hinit]; exact within_positions keys k)
      (fun k _ => (length_gather (by rw [hrows]; exact within_positions keys k)).symm)
      (fun p _ q _ hne => positions_disjoint hne) keys[i] hmem
    obtain ⟨j,hj,hat⟩ := List.mem_iff_getElem.mp (mem_positions.mpr hkey)
    have hwithin : Within (positions keys keys[i]) (order.foldl (fun out k =>
        scatter out (positions keys k) (gather rows (positions keys k))) init).length := by
      rw [hlength]
      exact within_positions keys keys[i]
    have hwithin' : Within (positions keys keys[i]) rows.length := by
      rw [hrows]
      exact within_positions keys keys[i]
    have heq := congrArg (fun l => l[j]?) hread
    rw [getElem?_gather hwithin,getElem?_gather hwithin',List.getElem?_eq_getElem hj,hat] at heq
    simpa using heq
  · rw [List.getElem?_eq_none (by omega),List.getElem?_eq_none (by omega)]

end Grouping

namespace Collect

variable {κ α : Type*} [DecidableEq κ]

/-- `groups.setdefault(key, []).append(value)`. -/
def append (groups : Dict κ (List α)) (entry : κ × α) : Dict κ (List α) :=
  groups.set entry.1 ((groups.get? entry.1).getD [] ++ [entry.2])

def collect (entries : List (κ × α)) : Dict κ (List α) := entries.foldl append Dict.empty

def valuesOf (entries : List (κ × α)) (k : κ) : List α :=
  (entries.filter fun entry => entry.1 = k).map Prod.snd

theorem valuesOf_append (entries : List (κ × α)) (entry : κ × α) (k : κ) :
    valuesOf (entries ++ [entry]) k =
      valuesOf entries k ++ if entry.1 = k then [entry.2] else [] := by
  by_cases hk : entry.1 = k <;> simp [valuesOf,List.filter_append,hk]

theorem get?_collect (entries : List (κ × α)) (k : κ) :
    (collect entries).get? k =
      if k ∈ entries.map Prod.fst then some (valuesOf entries k) else none := by
  induction entries using List.reverseRecOn with
  | nil => rfl
  | append_singleton entries entry ih =>
    have hstep : collect (entries ++ [entry]) = append (collect entries) entry := by
      rw [collect,List.foldl_append]
      rfl
    rw [hstep,append,Dict.get?_set,valuesOf_append]
    by_cases hk : k = entry.1
    · subst hk
      rw [if_pos rfl,if_pos (by simp),if_pos rfl,ih]
      by_cases hmem : entry.1 ∈ entries.map Prod.fst
      · rw [if_pos hmem]
        rfl
      · have hnone : valuesOf entries entry.1 = [] := by
          rw [valuesOf,List.map_eq_nil_iff,List.filter_eq_nil_iff]
          intro other hother
          rw [decide_eq_true_iff]
          exact fun heq => hmem (heq ▸ List.mem_map_of_mem hother)
        rw [if_neg hmem,hnone]
        rfl
    · have hmem : k ∈ (entries ++ [entry]).map Prod.fst ↔ k ∈ entries.map Prod.fst := by simp [hk]
      rw [if_neg hk,ih,if_neg (Ne.symm hk),List.append_nil,if_congr hmem rfl rfl]

theorem mem_entries_collect {entries : List (κ × α)} {k : κ} {values : List α} :
    (k,values) ∈ (collect entries).entries ↔
      k ∈ entries.map Prod.fst ∧ values = valuesOf entries k := by
  rw [Dict.mem_entries_iff,get?_collect]
  split_ifs with hk
  · simp [hk,eq_comm]
  · simp [hk]

theorem mem_keys_collect {entries : List (κ × α)} {k : κ} :
    k ∈ (collect entries).keys ↔ k ∈ entries.map Prod.fst := by
  rw [Dict.mem_keys_iff,get?_collect]
  split_ifs with hk <;> simp [hk]

/-- The keys stand in the order in which they first occur. -/
theorem pairwise_keys_collect (entries : List (κ × α)) :
    (collect entries).keys.Pairwise fun j k =>
      (entries.map Prod.fst).idxOf j < (entries.map Prod.fst).idxOf k := by
  induction entries using List.reverseRecOn with
  | nil => exact List.Pairwise.nil
  | append_singleton entries entry ih =>
    have hstep : (collect (entries ++ [entry])).keys =
        if entry.1 ∈ (collect entries).keys then (collect entries).keys
          else (collect entries).keys ++ [entry.1] := by
      rw [collect,List.foldl_append]
      exact Dict.keys_assign _ _ _
    have hold : (collect entries).keys.Pairwise fun j k =>
        ((entries ++ [entry]).map Prod.fst).idxOf j < ((entries ++ [entry]).map Prod.fst).idxOf k := by
      refine ih.imp_of_mem fun hj hk hlt => ?_
      rwa [List.map_append,List.idxOf_append_of_mem (mem_keys_collect.mp hj),
        List.idxOf_append_of_mem (mem_keys_collect.mp hk)]
    rw [hstep]
    split_ifs with hmem
    · exact hold
    · refine List.pairwise_append.mpr ⟨hold,List.pairwise_singleton _ _,fun j hj k hk => ?_⟩
      obtain rfl := List.mem_singleton.mp hk
      have hj' := mem_keys_collect.mp hj
      rw [List.map_append,List.idxOf_append_of_mem hj',
        List.idxOf_append_of_notMem fun h => hmem (mem_keys_collect.mpr h)]
      exact Nat.lt_add_right _ (List.idxOf_lt_length_iff.mpr hj')

/-- Every value is counted under its label. -/
theorem sum_length_filter {label : α → κ} {labels : Finset κ} {l : List α}
    (h : ∀ a ∈ l, label a ∈ labels) :
    ∑ k ∈ labels, (l.filter fun a => label a = k).length = l.length := by
  induction l with
  | nil => simp
  | cons a l ih =>
    obtain ⟨ha,hl⟩ := List.forall_mem_cons.mp h
    have hcons : ∀ k, ((a :: l).filter fun a => label a = k).length =
        (l.filter fun a => label a = k).length + if label a = k then 1 else 0 := by
      intro k
      by_cases hk : label a = k <;> simp [hk]
    simp only [hcons,Finset.sum_add_distrib,ih hl,Finset.sum_ite_eq,if_pos ha,List.length_cons]

def takeSegments (size : ℕ) : ℕ → List (κ × List α) → List (κ × List α)
  | _,[] => []
  | needed,(k,group) :: groups =>
    let segments := min (group.length / size) needed
    (k,group.take (segments * size)) :: takeSegments size (needed - segments) groups

def available (size : ℕ) (groups : List (κ × List α)) : ℕ :=
  (groups.map fun group => group.2.length / size).sum

variable {size : ℕ}

omit [DecidableEq κ] in
@[simp] theorem keys_takeSegments (needed : ℕ) (groups : List (κ × List α)) :
    (takeSegments size needed groups).map Prod.fst = groups.map Prod.fst := by
  induction groups generalizing needed with
  | nil => rfl
  | cons group groups ih => simp [takeSegments,ih]

omit [DecidableEq κ] in
/-- Every group gives a beginning of whole segments. -/
theorem exists_of_mem_takeSegments {needed : ℕ} {groups : List (κ × List α)} {taken : κ × List α}
    (h : taken ∈ takeSegments size needed groups) :
    ∃ group ∈ groups, taken.1 = group.1 ∧ taken.2 <+: group.2 ∧
      ∃ segments ≤ group.2.length / size, taken.2.length = segments * size := by
  induction groups generalizing needed with
  | nil => cases h
  | cons group groups ih =>
    obtain rfl | hrest := List.mem_cons.mp h
    · refine ⟨group,List.mem_cons_self,rfl,List.take_prefix _ _,_,Nat.min_le_left _ needed,?_⟩
      rw [List.length_take,Nat.min_eq_left]
      exact (Nat.mul_le_mul_right size (Nat.min_le_left _ _)).trans (Nat.div_mul_le_self _ _)
    · obtain ⟨other,hother,hfacts⟩ := ih hrest
      exact ⟨other,List.mem_cons_of_mem _ hother,hfacts⟩

omit [DecidableEq κ] in
/-- As many segments are taken as are needed, or all there are. -/
theorem length_takeSegments (needed : ℕ) (groups : List (κ × List α)) :
    ((takeSegments size needed groups).flatMap Prod.snd).length =
      min (available size groups) needed * size := by
  induction groups generalizing needed with
  | nil => simp [takeSegments,available]
  | cons group groups ih =>
    obtain ⟨k,group⟩ := group
    set segments := min (group.length / size) needed with hsegments
    have hhead : (group.take (segments * size)).length = segments * size := by
      rw [List.length_take,Nat.min_eq_left]
      exact (Nat.mul_le_mul_right size (Nat.min_le_left _ _)).trans (Nat.div_mul_le_self _ _)
    have hsum : available size ((k,group) :: groups) = group.length / size + available size groups :=
      List.sum_cons
    have htotal : min (available size ((k,group) :: groups)) needed =
        segments + min (available size groups) (needed - segments) := by
      rw [hsum]
      omega
    rw [takeSegments,List.flatMap_cons,List.length_append,ih,hhead,htotal,Nat.add_mul]

/-- What is taken, with a label of its group that every value carries. -/
theorem filter_takeSegments {label : α → κ} {needed : ℕ} {groups : List (κ × List α)}
    (hkeys : (groups.map Prod.fst).Nodup)
    (hlabel : ∀ group ∈ groups, ∀ a ∈ group.2, label a = group.1) {taken : κ × List α}
    (htaken : taken ∈ takeSegments size needed groups) :
    ((takeSegments size needed groups).flatMap Prod.snd).filter (fun a => label a = taken.1) =
      taken.2 := by
  induction groups generalizing needed with
  | nil => cases htaken
  | cons group groups ih =>
    obtain ⟨k,group⟩ := group
    obtain ⟨hhead,htail⟩ := List.nodup_cons.mp hkeys
    obtain ⟨hgroup,hrest⟩ := List.forall_mem_cons.mp hlabel
    have hothers : ∀ a ∈ (takeSegments size (needed - min (group.length / size) needed)
        groups).flatMap Prod.snd, label a ∈ groups.map Prod.fst := by
      intro a ha
      obtain ⟨other,hother,hmem⟩ := List.mem_flatMap.mp ha
      obtain ⟨full,hfull,-,hlead,-⟩ := exists_of_mem_takeSegments hother
      rw [hrest full hfull a (hlead.subset hmem)]
      exact List.mem_map_of_mem hfull
    have hown : ∀ a ∈ group.take (min (group.length / size) needed * size), label a = k :=
      fun a ha => hgroup a (List.mem_of_mem_take ha)
    rw [takeSegments,List.flatMap_cons,List.filter_append]
    obtain rfl | hlater := List.mem_cons.mp htaken
    · rw [List.filter_eq_self.mpr fun a ha => decide_eq_true (hown a ha),
        List.filter_eq_nil_iff.mpr fun a ha heq => ?_,List.append_nil]
      exact hhead (of_decide_eq_true heq ▸ hothers a ha)
    · have hne : k ≠ taken.1 := by
        intro heq
        refine hhead ?_
        rw [← @keys_takeSegments κ α size (needed - min (group.length / size) needed) groups,heq]
        exact List.mem_map.mpr ⟨taken,hlater,rfl⟩
      rw [List.filter_eq_nil_iff.mpr fun a ha heq => ?_,List.nil_append,ih htail hrest hlater]
      exact hne ((hown a ha).symm.trans (of_decide_eq_true heq))

end Collect
end DockyardRL
