import DockyardRL.Packing.Correctness
import Mathlib.Order.Bounds.Basic

/-! Each pack of the dynamic program is filled as far as the sequences left allow, as long as
the cap on the sequences of a pack does not bind. -/
namespace DockyardRL
namespace Packing

open BinPacking

variable {lengths : List ℕ} {capacity maxSequencesPerPack : ℕ}

/-- The tables after each cell of `dpCells`. -/
def cellTables (lengths : List ℕ) (maxSequencesPerPack idx : ℕ) : ℕ → Table → List Table
  | 0, _ => []
  | k + 1, dp =>
    let next := dpCell lengths maxSequencesPerPack idx dp (lengthAt lengths idx + k)
    next :: cellTables lengths maxSequencesPerPack idx k next

def itemTables (lengths : List ℕ) (capacity maxSequencesPerPack : ℕ) : List ℕ → Table → List Table
  | [], _ => []
  | idx :: rest, dp =>
    (if lengthAt lengths idx > capacity then []
      else cellTables lengths maxSequencesPerPack idx (capacity + 1 - lengthAt lengths idx) dp) ++
      itemTables lengths capacity maxSequencesPerPack rest (dpItem lengths capacity maxSequencesPerPack dp idx)

def turnTables (lengths : List ℕ) (capacity maxSequencesPerPack : ℕ) (remaining : List ℕ) : List Table :=
  startTable capacity :: itemTables lengths capacity maxSequencesPerPack remaining (startTable capacity)

/-- No entry has more sequences than a pack may have. -/
def Table.Capped (maxSequencesPerPack : ℕ) (dp : Table) : Prop :=
  ∀ c p, dp.getD c none = some p → p.length ≤ maxSequencesPerPack

theorem dpCell_capped {dp : Table} (h : dp.Capped maxSequencesPerPack) (idx c : ℕ) :
    (dpCell lengths maxSequencesPerPack idx dp c).Capped maxSequencesPerPack := by
  rcases dpCell_spec lengths maxSequencesPerPack idx c dp with heq | ⟨pack,-,hshort,heq⟩
  · rw [heq]
    exact h
  · rw [heq]
    intro d p hp
    rw [getD_set] at hp
    split_ifs at hp
    · obtain rfl := Option.some.inj hp
      exact hshort
    · exact h d p hp

theorem startTable_capped (capacity maxSequencesPerPack : ℕ) :
    (startTable capacity).Capped maxSequencesPerPack := by
  intro c p hp
  rw [getD_startTable] at hp
  split_ifs at hp
  obtain rfl := Option.some.inj hp
  simp

/-- What every table passed keeps. -/
structure Table.Fine (lengths : List ℕ) (maxSequencesPerPack : ℕ) (seen : List ℕ) (dp : Table) :
    Prop where
  sound : dp.Sound lengths seen
  capped : dp.Capped maxSequencesPerPack

theorem cellTables_fine {idx : ℕ} {seen : List ℕ} (k : ℕ) {dp : Table}
    (h : dp.Fine lengths maxSequencesPerPack (seen ++ [idx]))
    (hfresh : Fresh idx (lengthAt lengths idx + k) dp) :
    (∀ t ∈ cellTables lengths maxSequencesPerPack idx k dp,
      t.Fine lengths maxSequencesPerPack (seen ++ [idx])) ∧
    (dpCells lengths maxSequencesPerPack idx k dp).Fine lengths maxSequencesPerPack (seen ++ [idx]) := by
  induction k generalizing dp with
  | zero => exact ⟨by simp [cellTables],h⟩
  | succ k ih =>
    obtain ⟨hsound,hfresh'⟩ :=
      dpCell_sound h.sound hfresh
    have hnext : (dpCell lengths maxSequencesPerPack idx dp (lengthAt lengths idx + k)).Fine lengths
        maxSequencesPerPack (seen ++ [idx]) := ⟨hsound,dpCell_capped h.capped _ _⟩
    obtain ⟨htables,hlast⟩ := ih hnext hfresh'
    rw [cellTables,dpCells]
    exact ⟨List.forall_mem_cons.mpr ⟨hnext,htables⟩,hlast⟩

theorem Table.Fine.append {seen : List ℕ} {dp : Table} (h : dp.Fine lengths maxSequencesPerPack seen)
    (more : List ℕ) : dp.Fine lengths maxSequencesPerPack (seen ++ more) :=
  ⟨h.sound.append more,h.capped⟩

theorem itemTables_fine {seen remaining : List ℕ} {dp : Table}
    (h : dp.Fine lengths maxSequencesPerPack seen) (hnodup : (seen ++ remaining).Nodup) :
    (∀ t ∈ itemTables lengths capacity maxSequencesPerPack remaining dp,
      t.Fine lengths maxSequencesPerPack (seen ++ remaining)) ∧
    (remaining.foldl (dpItem lengths capacity maxSequencesPerPack) dp).Fine lengths
      maxSequencesPerPack (seen ++ remaining) := by
  induction remaining generalizing seen dp with
  | nil => exact ⟨by simp [itemTables],by simpa using h⟩
  | cons idx rest ih =>
    have hnew : idx ∉ seen := fun hin =>
      (List.nodup_append.mp hnodup).2.2 idx hin idx List.mem_cons_self rfl
    obtain ⟨hcells,hlast⟩ := cellTables_fine (capacity + 1 - lengthAt lengths idx) (h.append [idx])
      (h.sound.fresh hnew _)
    have hitem : (dpItem lengths capacity maxSequencesPerPack dp idx).Fine lengths maxSequencesPerPack
        (seen ++ [idx]) := by
      unfold dpItem
      split_ifs
      · exact h.append [idx]
      · exact hlast
    rw [List.append_cons] at hnodup ⊢
    obtain ⟨hrest,hend⟩ := ih hitem hnodup
    refine ⟨fun t ht => ?_,hend⟩
    rcases List.mem_append.mp ht with ht | ht
    · split_ifs at ht
      · cases ht
      · exact (hcells t ht).append rest
    · exact hrest t ht

theorem startTable_fine (lengths : List ℕ) (capacity maxSequencesPerPack : ℕ) :
    (startTable capacity).Fine lengths maxSequencesPerPack [] :=
  ⟨startTable_sound lengths capacity,startTable_capped capacity maxSequencesPerPack⟩

theorem turnTables_fine {remaining : List ℕ} (hnodup : remaining.Nodup) :
    ∀ t ∈ turnTables lengths capacity maxSequencesPerPack remaining,
      t.Fine lengths maxSequencesPerPack remaining := by
  have hstart := startTable_fine lengths capacity maxSequencesPerPack
  exact List.forall_mem_cons.mpr ⟨hstart.append remaining,
    (itemTables_fine hstart (by rwa [List.nil_append])).1⟩

theorem dpFill_fine {remaining : List ℕ} (hnodup : remaining.Nodup) :
    (dpFill lengths capacity maxSequencesPerPack remaining).Fine lengths maxSequencesPerPack remaining :=
  (itemTables_fine (startTable_fine lengths capacity maxSequencesPerPack)
    (by rwa [List.nil_append])).2

theorem length_dpCell (idx c : ℕ) (dp : Table) :
    (dpCell lengths maxSequencesPerPack idx dp c).length = dp.length := by
  rcases dpCell_spec lengths maxSequencesPerPack idx c dp with heq | ⟨pack,-,-,heq⟩
  · rw [heq]
  · rw [heq,List.length_set]

theorem getD_dpCell_of_ne {idx c d : ℕ} (hne : d ≠ c) (dp : Table) :
    (dpCell lengths maxSequencesPerPack idx dp c).getD d none = dp.getD d none := by
  rcases dpCell_spec lengths maxSequencesPerPack idx c dp with heq | ⟨pack,-,-,heq⟩
  · rw [heq]
  · rw [heq,getD_set,if_neg fun h => hne h.1]

theorem isSome_dpCell {dp : Table} {d : ℕ} (h : (dp.getD d none).isSome) (idx c : ℕ) :
    ((dpCell lengths maxSequencesPerPack idx dp c).getD d none).isSome := by
  rcases dpCell_spec lengths maxSequencesPerPack idx c dp with heq | ⟨pack,-,-,heq⟩
  · rw [heq]
    exact h
  · rw [heq,getD_set]
    split_ifs
    · rfl
    · exact h

theorem isSome_dpCell_self {dp : Table} {idx c : ℕ} {pack : Pack} (hc : c < dp.length)
    (hpack : dp.getD (c - lengthAt lengths idx) none = some pack)
    (hroom : pack.length < maxSequencesPerPack) :
    ((dpCell lengths maxSequencesPerPack idx dp c).getD c none).isSome := by
  have hshort : (pack ++ [idx]).length ≤ maxSequencesPerPack := by
    rw [List.length_append,List.length_singleton]
    exact hroom
  unfold dpCell
  rw [hpack]
  dsimp only
  rw [if_pos hshort]
  cases hold : dp.getD c none with
  | none =>
    dsimp only
    rw [getD_set,if_pos ⟨rfl,hc⟩]
    rfl
  | some best =>
    dsimp only
    split_ifs
    · rw [getD_set,if_pos ⟨rfl,hc⟩]
      rfl
    · rw [hold]
      rfl

/-- The packs below `c` have room for one more sequence. -/
def Roomy (maxSequencesPerPack c : ℕ) (dp : Table) : Prop :=
  ∀ d < c, ∀ p, dp.getD d none = some p → p.length < maxSequencesPerPack

theorem isSome_dpCells {idx : ℕ} (k : ℕ) {dp : Table} (hlen : lengthAt lengths idx + k ≤ dp.length)
    (hroom : Roomy maxSequencesPerPack (lengthAt lengths idx + k) dp) :
    (∀ d, (dp.getD d none).isSome →
      ((dpCells lengths maxSequencesPerPack idx k dp).getD d none).isSome) ∧
    ∀ d < k, (dp.getD d none).isSome →
      ((dpCells lengths maxSequencesPerPack idx k dp).getD (d + lengthAt lengths idx) none).isSome := by
  induction k generalizing dp with
  | zero => exact ⟨fun _ h => h,fun d hd => absurd hd (Nat.not_lt_zero d)⟩
  | succ k ih =>
    rw [dpCells]
    set c := lengthAt lengths idx + k with hc
    set next := dpCell lengths maxSequencesPerPack idx dp c with hnext
    have hroom' : Roomy maxSequencesPerPack c next := by
      intro d hd p hp
      rw [hnext,getD_dpCell_of_ne hd.ne] at hp
      exact hroom d (by omega) p hp
    have hlen' : c ≤ next.length := by
      rw [hnext,length_dpCell]
      omega
    obtain ⟨hkeep,hfill⟩ := ih hlen' hroom'
    refine ⟨fun d hd => hkeep d (isSome_dpCell hd idx c),fun d hd hsome => ?_⟩
    rcases Nat.lt_succ_iff_lt_or_eq.mp hd with hlt | rfl
    · exact hfill d hlt (isSome_dpCell hsome idx c)
    · obtain ⟨pack,hpack⟩ := Option.isSome_iff_exists.mp hsome
      have hread : dp.getD (c - lengthAt lengths idx) none = some pack := by
        rw [hc,Nat.add_sub_cancel_left]
        exact hpack
      rw [Nat.add_comm]
      exact hkeep c (isSome_dpCell_self (by omega) hread (hroom d (by omega) pack hpack))

/-- Every selection within the capacity has its length in the table. -/
def Table.Complete (lengths : List ℕ) (capacity : ℕ) (seen : List ℕ) (dp : Table) : Prop :=
  ∀ sub, sub.Sublist seen → load (lengthAt lengths) sub ≤ capacity →
    (dp.getD (load (lengthAt lengths) sub) none).isSome

theorem startTable_complete (lengths : List ℕ) (capacity : ℕ) :
    (startTable capacity).Complete lengths capacity [] := by
  intro sub hsub _
  rw [List.sublist_nil.mp hsub,getD_startTable]
  rfl

theorem length_dpCells (idx k : ℕ) (dp : Table) :
    (dpCells lengths maxSequencesPerPack idx k dp).length = dp.length := by
  induction k generalizing dp with
  | zero => rfl
  | succ k ih => rw [dpCells,ih,length_dpCell]

theorem length_dpItem (idx : ℕ) (dp : Table) :
    (dpItem lengths capacity maxSequencesPerPack dp idx).length = dp.length := by
  unfold dpItem
  split_ifs
  · rfl
  · exact length_dpCells _ _ _

theorem dpItem_complete {idx : ℕ} {seen : List ℕ} {dp : Table} (hlen : dp.length = capacity + 1)
    (hsound : dp.Sound lengths seen) (hcap : seen.length < maxSequencesPerPack)
    (h : dp.Complete lengths capacity seen) :
    (dpItem lengths capacity maxSequencesPerPack dp idx).Complete lengths capacity (seen ++ [idx]) := by
  have hroom : ∀ c, Roomy maxSequencesPerPack c dp := fun c d _ p hp => by
    obtain ⟨-,hnodup,hsub⟩ := hsound d p hp
    exact (List.subperm_of_subset hnodup hsub).length_le.trans_lt hcap
  intro sub hsub hload
  obtain ⟨old,new,rfl,hold,hnew⟩ := List.sublist_append_iff.mp hsub
  rw [load_append] at hload ⊢
  have hsome := h old hold (by omega)
  unfold dpItem
  rcases List.sublist_singleton.mp hnew with rfl | rfl
  · rw [show load (lengthAt lengths) [] = 0 from rfl,Nat.add_zero]
    split_ifs
    · exact hsome
    · exact (isSome_dpCells _ (by omega) (hroom _)).1 _ hsome
  · rw [load_singleton] at hload ⊢
    rw [if_neg (by omega)]
    exact (isSome_dpCells _ (by omega) (hroom _)).2 _ (by omega) hsome

theorem dpFill_complete (lengths : List ℕ) (capacity : ℕ) {remaining : List ℕ}
    (hnodup : remaining.Nodup) (hcap : remaining.length ≤ maxSequencesPerPack) :
    (dpFill lengths capacity maxSequencesPerPack remaining).Complete lengths capacity remaining := by
  have hfold : ∀ (rest seen : List ℕ) (dp : Table), dp.length = capacity + 1 → dp.Sound lengths seen →
      dp.Complete lengths capacity seen → (seen ++ rest).Nodup →
      (seen ++ rest).length ≤ maxSequencesPerPack →
      (rest.foldl (dpItem lengths capacity maxSequencesPerPack) dp).Complete lengths capacity
        (seen ++ rest) := by
    intro rest
    induction rest with
    | nil =>
      intro seen dp _ _ hcomplete _ _
      simpa using hcomplete
    | cons idx rest ih =>
      intro seen dp hlen hsound hcomplete hnd hshort
      have hnew : idx ∉ seen := fun hin =>
        (List.nodup_append.mp hnd).2.2 idx hin idx List.mem_cons_self rfl
      have hroom : seen.length < maxSequencesPerPack := by
        rw [List.length_append,List.length_cons] at hshort
        omega
      rw [List.append_cons] at hnd hshort ⊢
      exact ih _ _ ((length_dpItem idx dp).trans hlen) (dpItem_sound hsound hnew)
        (dpItem_complete hlen hsound hroom hcomplete) hnd hshort
  have hstart : (startTable capacity).length = capacity + 1 := by simp [startTable]
  have hall := hfold remaining [] _ hstart (startTable_sound lengths capacity)
    (startTable_complete lengths capacity) (by simpa using hnodup) (by simpa using hcap)
  rw [List.nil_append] at hall
  exact hall

theorem bestFill_spec {dp : Table} (hzero : (dp.getD 0 none).isSome) (capacity : ℕ) :
    ∃ c ≤ capacity, dp.getD c none = some (bestFill dp capacity) ∧
      ∀ d ≤ capacity, (dp.getD d none).isSome → d ≤ c := by
  induction capacity with
  | zero =>
    obtain ⟨pack,hpack⟩ := Option.isSome_iff_exists.mp hzero
    refine ⟨0,le_rfl,?_,fun d hd _ => hd⟩
    show dp.getD 0 none = some (([0].findSome? fun c => dp.getD c none).getD [])
    rw [List.findSome?_cons,hpack]
    rfl
  | succ capacity ih =>
    have hrange : (List.range (capacity + 1 + 1)).reverse =
        (capacity + 1) :: (List.range (capacity + 1)).reverse := by
      rw [List.range_succ,List.reverse_append,List.reverse_singleton,List.singleton_append]
    cases htop : dp.getD (capacity + 1) none with
    | some pack =>
      refine ⟨capacity + 1,le_rfl,?_,fun d hd _ => hd⟩
      rw [htop,bestFill,hrange,List.findSome?_cons,htop]
      rfl
    | none =>
      obtain ⟨c,hc,hbest,hmax⟩ := ih
      have hsame : bestFill dp (capacity + 1) = bestFill dp capacity := by
        rw [bestFill,hrange,List.findSome?_cons,htop]
        rfl
      refine ⟨c,by omega,by rw [hsame]; exact hbest,fun d hd hsome => ?_⟩
      rcases Nat.le_succ_iff.mp hd with hle | rfl
      · exact hmax d hle hsome
      · rw [htop] at hsome
        cases hsome

/-- The sequences that are left at each turn of `dpLoop`. -/
def dpTurns (lengths : List ℕ) (capacity maxSequencesPerPack : ℕ) : ℕ → List ℕ → List (List ℕ)
  | 0, _ => []
  | _ + 1, [] => []
  | turns + 1, first :: rest =>
    let best := bestPack lengths capacity maxSequencesPerPack first rest
    (first :: rest) :: dpTurns lengths capacity maxSequencesPerPack turns
      ((first :: rest).filter fun i => i ∉ best)

theorem dpLoop_turn {turns k : ℕ} {remaining : List ℕ} {pack : Pack}
    (h : (dpLoop lengths capacity maxSequencesPerPack turns remaining)[k]? = some pack) :
    ∃ first rest, pack = bestPack lengths capacity maxSequencesPerPack first rest ∧
      (dpTurns lengths capacity maxSequencesPerPack turns remaining)[k]? = some (first :: rest) ∧
      first :: rest = remaining.filter fun i =>
        ∀ q ∈ (dpLoop lengths capacity maxSequencesPerPack turns remaining).take k, i ∉ q := by
  induction turns generalizing k remaining with
  | zero => simp [dpLoop] at h
  | succ turns ih =>
    cases remaining with
    | nil => simp [dpLoop] at h
    | cons first rest =>
      rw [dpLoop] at h ⊢
      rw [dpTurns]
      cases k with
      | zero => exact ⟨first,rest,(Option.some.inj h).symm,rfl,by simp⟩
      | succ k =>
        obtain ⟨first',rest',hpack,hturn,hleft⟩ := ih h
        refine ⟨first',rest',hpack,hturn,?_⟩
        rw [hleft,List.filter_filter]
        refine List.filter_congr fun i _ => ?_
        rw [← Bool.decide_and,decide_eq_decide,List.take_succ_cons,List.forall_mem_cons,and_comm]

def fills (lengths : List ℕ) (capacity : ℕ) (items : List ℕ) : Set ℕ :=
  {s | s ≤ capacity ∧ ∃ sub, List.Subperm sub items ∧ load (lengthAt lengths) sub = s}

theorem fills_perm {items items' : List ℕ} (h : items.Perm items') :
    fills lengths capacity items = fills lengths capacity items' := by
  ext s
  constructor
  · rintro ⟨hle,sub,hsub,rfl⟩
    exact ⟨hle,sub,hsub.trans h.subperm,rfl⟩
  · rintro ⟨hle,sub,hsub,rfl⟩
    exact ⟨hle,sub,hsub.trans h.symm.subperm,rfl⟩

theorem bestPack_greatest {first : ℕ} {rest : List ℕ} (hnodup : (first :: rest).Nodup)
    (hcap : (first :: rest).length ≤ maxSequencesPerPack)
    (hshort : lengthAt lengths first ≤ capacity) :
    IsGreatest (fills lengths capacity (first :: rest))
      (load (lengthAt lengths) (bestPack lengths capacity maxSequencesPerPack first rest)) := by
  obtain ⟨-,hnd,hsub,hfit⟩ := bestPack_spec lengths capacity maxSequencesPerPack hnodup
  have hcomplete := dpFill_complete lengths capacity hnodup hcap
  have hzero := hcomplete [] (List.nil_sublist _) (Nat.zero_le _)
  obtain ⟨c,-,hbest,hmax⟩ := bestFill_spec hzero capacity
  have hfilled := (dpFill_sound hnodup c _ hbest).1
  have hle : ∀ s ∈ fills lengths capacity (first :: rest), s ≤ c := by
    rintro s ⟨hs,sub,⟨sub',hperm,hsublist⟩,rfl⟩
    have hload : load (lengthAt lengths) sub' = load (lengthAt lengths) sub :=
      (hperm.map (lengthAt lengths)).sum_eq
    rw [← hload] at hs ⊢
    exact hmax _ hs (hcomplete sub' hsublist hs)
  refine ⟨⟨hfit hshort,_,List.subperm_of_subset hnd hsub,rfl⟩,fun s hs => (hle s hs).trans ?_⟩
  unfold bestPack
  dsimp only
  split_ifs with hempty
  · rw [List.isEmpty_iff.mp hempty] at hfilled
    have hc : 0 = c := hfilled
    omega
  · exact hfilled.ge

theorem bestFill_entry (dp : Table) (capacity : ℕ) :
    bestFill dp capacity = [] ∨ ∃ c, dp.getD c none = some (bestFill dp capacity) := by
  rw [bestFill]
  cases hfind : (List.range (capacity + 1)).reverse.findSome? fun c => dp.getD c none with
  | none => exact .inl rfl
  | some pack =>
    obtain ⟨c,-,hc⟩ := List.exists_of_findSome?_eq_some hfind
    exact .inr ⟨c,hc⟩

theorem length_bestPack_le {first : ℕ} {rest : List ℕ} (hnodup : (first :: rest).Nodup) :
    (bestPack lengths capacity maxSequencesPerPack first rest).length ≤ max 1 maxSequencesPerPack := by
  unfold bestPack
  dsimp only
  split_ifs with hempty
  · exact le_max_left _ _
  · rcases bestFill_entry (dpFill lengths capacity maxSequencesPerPack (first :: rest)) capacity with
      hnil | ⟨c,hc⟩
    · rw [hnil]
      exact Nat.zero_le _
    · exact ((dpFill_fine hnodup).capped c _ hc).trans (le_max_right _ _)

/-- The sequences that the first `k` packs do not hold. -/
def unplaced (lengths : List ℕ) (packs : PackList) (k : ℕ) : List ℕ :=
  (List.range lengths.length).filter fun i => ∀ q ∈ packs.take k, i ∉ q

/-- Every pack is as full as the sequences left allow, unless more sequences are left than a
pack may hold; no pack holds more than that, one sequence alone apart; and the tables of every
turn are sound. -/
theorem dpPacking_optimal (lengths : List ℕ) (maxPackSize maxSequencesPerPack : ℕ) :
    ∃ packs, dpPacking lengths maxPackSize maxSequencesPerPack = .ok packs ∧
      Packs (List.range lengths.length) packs ∧
      (lengths.length ≤ maxSequencesPerPack → (∀ l ∈ lengths, l ≤ maxPackSize) →
        ∀ (k : ℕ) (pack : Pack), packs[k]? = some pack →
          IsGreatest (fills lengths maxPackSize (unplaced lengths packs k))
            (load (lengthAt lengths) pack)) ∧
      (∀ pack ∈ packs, pack.length ≤ max 1 maxSequencesPerPack) ∧
      ∀ k < packs.length, ∃ left,
        (dpTurns lengths maxPackSize maxSequencesPerPack lengths.length (descending lengths))[k]? =
          some left ∧
        left.Perm (unplaced lengths packs k) ∧
        ∀ dp ∈ turnTables lengths maxPackSize maxSequencesPerPack left, dp.Sound lengths left := by
  have hperm := descending_perm lengths
  have hnodup := descending_nodup lengths
  have hturns : (descending lengths).length ≤ lengths.length := by
    rw [hperm.length_eq,List.length_range]
  refine ⟨_,rfl,(dpLoop_packs _ hnodup hturns).congr hperm,?_,?_,?_⟩
  · intro hcap hshort k pack hpack
    obtain ⟨first,rest,rfl,-,hleft⟩ := dpLoop_turn hpack
    have hsub : (first :: rest).Sublist (descending lengths) := by
      rw [hleft]
      exact List.filter_sublist
    have hunplaced : (first :: rest).Perm (unplaced lengths (dpLoop lengths maxPackSize
        maxSequencesPerPack lengths.length (descending lengths)) k) := by
      rw [hleft]
      exact hperm.filter _
    rw [← fills_perm hunplaced]
    refine bestPack_greatest (hnodup.sublist hsub) ?_ ?_
    · exact (hsub.length_le.trans hturns).trans hcap
    · have hfirst := hperm.mem_iff.mp (hsub.subset List.mem_cons_self)
      exact hshort _ (lengthAt_mem (List.mem_range.mp hfirst))
  · intro pack hpack
    obtain ⟨k,hk⟩ := List.mem_iff_getElem?.mp hpack
    obtain ⟨first,rest,rfl,-,hleft⟩ := dpLoop_turn hk
    refine length_bestPack_le ?_
    rw [hleft]
    exact hnodup.filter _
  · intro k hk
    obtain ⟨first,rest,-,hturn,hleft⟩ := dpLoop_turn (List.getElem?_eq_getElem hk)
    refine ⟨_,hturn,?_,fun dp hdp => (turnTables_fine ?_ dp hdp).sound⟩
    · rw [hleft]
      exact hperm.filter _
    · rw [hleft]
      exact hnodup.filter _

theorem dpPacking_optimal_four :
    dpPacking [3,2,2,1] 4 4 = .ok [[1,2],[0,3]] ∧
      ∃ packs, dpPacking [3,2,2,1] 4 4 = .ok packs ∧ ∀ (k : ℕ) (pack : Pack), packs[k]? = some pack →
        IsGreatest (fills [3,2,2,1] 4 (unplaced [3,2,2,1] packs k)) (load (lengthAt [3,2,2,1]) pack) := by
  obtain ⟨packs,hok,-,hbest,-⟩ := dpPacking_optimal [3,2,2,1] 4 4
  exact ⟨by decide,packs,hok,hbest (by decide) (by decide)⟩

/-- With a cap of zero the fallback still emits a pack of one. -/
theorem dp_over_cap : ∃ packs, dpPacking [1] 1 0 = .ok packs ∧ ¬ ∀ pack ∈ packs, pack.length ≤ 0 :=
  ⟨[[0]],by decide,by decide⟩

end Packing
end DockyardRL
