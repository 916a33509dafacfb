import DockyardRL.Packing.Algorithms
import Mathlib.Data.List.GetD

/-! Every algorithm hands each sequence out exactly once. Within the budget they stay as long as no
sequence is longer than a pack; beyond that `dp_packing` falls back on an overfull pack where the
others raise.

First fit opens a pack only for a sequence that no open pack has room for, so no two of its packs
could be merged. -/
namespace DockyardRL
namespace Packing

section

open BinPacking

variable {lengths : List ℕ} {maxPackSize : ℕ}

theorem descending_perm (lengths : List ℕ) :
    (descending lengths).Perm (List.range lengths.length) :=
  List.perm_insertionSort _ _

/-- The loop invariant of first fit: a packing within the budget, with its remaining
capacities alongside. -/
structure Bins.Sound (lengths : List ℕ) (maxPackSize : ℕ) (placed : List ℕ) (b : Bins) : Prop where
  packs : Packs placed b.packs
  fits : Fits (lengthAt lengths) maxPackSize b.packs
  remaining : b.remaining = b.packs.map fun p => maxPackSize - load (lengthAt lengths) p

theorem firstFit_sound {placed : List ℕ} {b : Bins} (h : b.Sound lengths maxPackSize placed)
    {idx : ℕ} (hlen : lengthAt lengths idx ≤ maxPackSize) :
    (firstFit maxPackSize idx (lengthAt lengths idx) b).Sound lengths maxPackSize (placed ++ [idx]) := by
  unfold firstFit
  split
  · rename_i k hk
    rw [List.findIdx?_eq_some_iff_getElem] at hk
    obtain ⟨hlt,hroom,-⟩ := hk
    have hkp : k < b.packs.length := by
      have hsize := congrArg List.length h.remaining
      rw [List.length_map] at hsize
      omega
    have hcap : b.remaining[k] = maxPackSize - load (lengthAt lengths) b.packs[k] := by
      simp only [h.remaining,List.getElem_map]
    have hle := h.fits b.packs[k] (List.getElem_mem hkp)
    have hfit : load (lengthAt lengths) b.packs[k] + lengthAt lengths idx ≤ maxPackSize := by
      rw [hcap] at hroom
      have := of_decide_eq_true hroom
      omega
    refine ⟨h.packs.addTo hkp idx,h.fits.addTo hkp hfit,?_⟩
    simp only [h.remaining]
    rw [List.modify_eq_take_cons_drop hkp,List.modify_eq_take_cons_drop (by simpa using hkp)]
    simp only [List.map_append,List.map_cons,List.map_take,List.map_drop,List.getElem_map,load_append,
      load_singleton,Nat.sub_sub]
  · refine ⟨h.packs.snoc (by simp),h.fits.snoc (by simpa using hlen),?_⟩
    simp only [h.remaining,List.map_append,List.map_singleton,load_singleton]

theorem packInOrder_spec (order : List ℕ) {placed : List ℕ} {b : Bins}
    (h : b.Sound lengths maxPackSize placed) :
    (∃ idx ∈ order, maxPackSize < lengthAt lengths idx ∧
      packInOrder lengths maxPackSize order b =
        .error (.valueError idx (lengthAt lengths idx) maxPackSize)) ∨
    ((∀ idx ∈ order, lengthAt lengths idx ≤ maxPackSize) ∧
      ∃ packs, packInOrder lengths maxPackSize order b = .ok packs ∧
        Packs (placed ++ order) packs ∧ Fits (lengthAt lengths) maxPackSize packs) := by
  induction order generalizing placed b with
  | nil => exact .inr ⟨by simp,b.packs,rfl,by simpa using h.packs,h.fits⟩
  | cons idx order ih =>
    rw [packInOrder]
    by_cases hlong : lengthAt lengths idx > maxPackSize
    · exact .inl ⟨idx,by simp,hlong,by simp only [if_pos hlong]⟩
    · have hle : lengthAt lengths idx ≤ maxPackSize := by omega
      simp only [if_neg hlong]
      rcases ih (firstFit_sound h hle) with ⟨i,hi,hlt,he⟩ | ⟨hall,packs,hok,hpacks,hfits⟩
      · exact .inl ⟨i,List.mem_cons_of_mem _ hi,hlt,he⟩
      · refine .inr ⟨?_,packs,hok,by simpa using hpacks,hfits⟩
        intro i hi
        rcases List.mem_cons.mp hi with rfl | hi
        · exact hle
        · exact hall i hi

theorem Bins.sound_empty : (⟨[],[]⟩ : Bins).Sound lengths maxPackSize [] :=
  ⟨.nil,by simp [Fits],rfl⟩

theorem swap_perm (x : List ℕ) (i j : ℕ) : (swap x i j).Perm x := by
  unfold swap
  split
  · rename_i a b ha hb
    obtain ⟨hi,rfl⟩ := List.getElem?_eq_some_iff.mp ha
    obtain ⟨hj,rfl⟩ := List.getElem?_eq_some_iff.mp hb
    exact List.set_set_perm hi hj
  · exact .refl _

theorem shuffleFrom_perm (rng : Generator) (i : ℕ) (s : rng.State) (x : List ℕ) :
    (shuffleFrom rng i s x).Perm x := by
  induction i generalizing s x with
  | zero => exact .refl _
  | succ i ih => exact (ih _ _).trans (swap_perm _ _ _)

theorem shuffle_perm (rng : Generator) (seed : Option ℤ) (x : List ℕ) : (shuffle rng seed x).Perm x :=
  shuffleFrom_perm rng _ _ _

/-- What packing promises: a `ValueError` exactly when a sequence is too long, and
else nonempty packs within the budget that hold every index once. -/
def Partitions (lengths : List ℕ) (maxPackSize : ℕ) : Except PackError PackList → Prop
  | .error (.valueError _ _ _) => ∃ l ∈ lengths, maxPackSize < l
  | .error (.keyError _) => False
  | .ok packs => (∀ l ∈ lengths, l ≤ maxPackSize) ∧
      Packs (List.range lengths.length) packs ∧ Fits (lengthAt lengths) maxPackSize packs

theorem lengthAt_mem {idx : ℕ} (h : idx < lengths.length) : lengthAt lengths idx ∈ lengths := by
  rw [lengthAt,List.getD_eq_getElem _ _ h]
  exact List.getElem_mem h

theorem exists_lengthAt {l : ℕ} (h : l ∈ lengths) :
    ∃ idx < lengths.length, lengthAt lengths idx = l := by
  obtain ⟨idx,hidx,rfl⟩ := List.mem_iff_getElem.mp h
  exact ⟨idx,hidx,by rw [lengthAt,List.getD_eq_getElem _ _ hidx]⟩

theorem packInOrder_partitions {order : List ℕ} (hperm : order.Perm (List.range lengths.length)) :
    Partitions lengths maxPackSize (packInOrder lengths maxPackSize order ⟨[],[]⟩) := by
  have hmem : ∀ idx, idx ∈ order ↔ idx < lengths.length := fun idx => by
    rw [hperm.mem_iff,List.mem_range]
  rcases packInOrder_spec order (@Bins.sound_empty lengths maxPackSize) with
    ⟨idx,hidx,hlt,he⟩ | ⟨hall,packs,hok,hpacks,hfits⟩
  · rw [he]
    exact ⟨_,lengthAt_mem ((hmem idx).mp hidx),hlt⟩
  · rw [hok]
    refine ⟨?_,hpacks.congr (by simpa using hperm),hfits⟩
    intro l hl
    obtain ⟨idx,hidx,rfl⟩ := exists_lengthAt hl
    exact hall idx ((hmem idx).mpr hidx)

theorem firstFitDecreasing_partitions (lengths : List ℕ) (maxPackSize : ℕ) :
    Partitions lengths maxPackSize (firstFitDecreasing lengths maxPackSize) :=
  packInOrder_partitions (descending_perm lengths)

theorem shufflePacking_partitions (rng : Generator) (lengths : List ℕ) (maxPackSize : ℕ)
    (seed : Option ℤ) : Partitions lengths maxPackSize (shufflePacking rng lengths maxPackSize seed) :=
  packInOrder_partitions (shuffle_perm rng seed _)

/-- The loop invariant of the online algorithm after `idx` sequences. -/
structure Stream.Sound (lengths : List ℕ) (maxPackSize idx : ℕ) (s : Stream) : Prop where
  packs : Packs (List.range idx) s.close
  fits : Fits (lengthAt lengths) maxPackSize s.close
  fill : s.currentFill = load (lengthAt lengths) s.currentPack

theorem Stream.Sound.push {s : Stream} {idx : ℕ} (h : s.Sound lengths maxPackSize idx)
    (hlen : lengthAt lengths idx ≤ maxPackSize) :
    (s.push maxPackSize idx (lengthAt lengths idx)).Sound lengths maxPackSize (idx + 1) := by
  unfold Stream.push
  split_ifs with hover
  · have hclose : (⟨s.close,[idx],lengthAt lengths idx⟩ : Stream).close = s.close ++ [[idx]] := rfl
    refine ⟨?_,?_,by simp⟩
    · rw [hclose,List.range_succ]
      exact h.packs.snoc (by simp)
    · rw [hclose]
      exact h.fits.snoc (by simpa using hlen)
  · have hclose : (⟨s.packs,s.currentPack ++ [idx],s.currentFill + lengthAt lengths idx⟩ :
        Stream).close = s.packs ++ [s.currentPack ++ [idx]] := by simp [Stream.close]
    have hload : load (lengthAt lengths) (s.currentPack ++ [idx]) ≤ maxPackSize := by
      rw [load_append,load_singleton,← h.fill]
      omega
    have hpacks := h.packs
    have hfits := h.fits
    refine ⟨?_,?_,by simp [h.fill]⟩
    · rw [hclose,List.range_succ]
      by_cases hempty : s.currentPack = []
      · simp only [Stream.close,hempty,List.isEmpty_nil,if_true,List.nil_append] at hpacks ⊢
        exact hpacks.snoc (by simp)
      · have hopen : s.close = s.packs ++ [s.currentPack] := by simp [Stream.close,hempty]
        rw [hopen] at hpacks
        have hlast : s.packs.length < (s.packs ++ [s.currentPack]).length := by simp
        have hadd := hpacks.addTo hlast idx
        rwa [modify_last] at hadd
    · rw [hclose]
      refine Fits.snoc (fun p hp => hfits p ?_) hload
      unfold Stream.close
      split_ifs
      · exact hp
      · exact List.mem_append_left _ hp

theorem onlineLoop_partitions (rest : List ℕ) {done : List ℕ} (hsplit : lengths = done ++ rest)
    {s : Stream} (h : s.Sound lengths maxPackSize done.length)
    (hdone : ∀ l ∈ done, l ≤ maxPackSize) :
    Partitions lengths maxPackSize (onlineLoop maxPackSize done.length rest s) := by
  induction rest generalizing done s with
  | nil =>
    rw [List.append_nil] at hsplit
    rw [onlineLoop,hsplit]
    exact ⟨hdone,h.packs,hsplit ▸ h.fits⟩
  | cons seqLen rest ih =>
    have hat : lengthAt lengths done.length = seqLen := by simp [lengthAt,hsplit]
    rw [onlineLoop]
    by_cases hlong : seqLen > maxPackSize
    · rw [if_pos hlong]
      exact ⟨seqLen,by simp [hsplit],hlong⟩
    · rw [if_neg hlong]
      have hle : seqLen ≤ maxPackSize := by omega
      have hpush := h.push (by rw [hat]; exact hle)
      rw [hat] at hpush
      have hlen : (done ++ [seqLen]).length = done.length + 1 := by simp
      have hall : ∀ l ∈ done ++ [seqLen], l ≤ maxPackSize := by
        intro l hl
        rcases List.mem_append.mp hl with hl | hl
        · exact hdone l hl
        · rw [List.mem_singleton.mp hl]
          exact hle
      rw [← hlen] at hpush ⊢
      exact ih (by simp [hsplit]) hpush hall

theorem onlinePacking_partitions (lengths : List ℕ) (maxPackSize : ℕ) :
    Partitions lengths maxPackSize (onlinePacking lengths maxPackSize) := by
  have hempty : (⟨[],[],0⟩ : Stream).Sound lengths maxPackSize ([] : List ℕ).length :=
    ⟨.nil,by simp [Fits,Stream.close],rfl⟩
  exact onlineLoop_partitions lengths (List.nil_append _).symm hempty (by simp)

/-- Every table entry is a duplicate-free pack of the seen sequences with its length as index. -/
def Table.Sound (lengths : List ℕ) (seen : List ℕ) (dp : Table) : Prop :=
  ∀ c p, dp.getD c none = some p → load (lengthAt lengths) p = c ∧ p.Nodup ∧ ∀ i ∈ p, i ∈ seen

theorem getD_set (dp : Table) (c d : ℕ) (entry : Option Pack) :
    (dp.set c entry).getD d none = if d = c ∧ c < dp.length then entry else dp.getD d none := by
  by_cases hd : d = c
  · subst hd
    by_cases hlt : d < dp.length
    · rw [if_pos ⟨rfl,hlt⟩,List.getD_eq_getElem _ _ (by simpa using hlt),List.getElem_set_self]
    · rw [if_neg (by omega),List.set_eq_of_length_le (by omega)]
  · rw [if_neg (by omega),List.getD_eq_getElem?_getD,List.getElem?_set_ne (Ne.symm hd),
      ← List.getD_eq_getElem?_getD]

/-- A cell of the table only changes at its own capacity, to a candidate ending in `idx`. -/
theorem dpCell_spec (lengths : List ℕ) (maxSequencesPerPack idx c : ℕ) (dp : Table) :
    dpCell lengths maxSequencesPerPack idx dp c = dp ∨
      ∃ pack, dp.getD (c - lengthAt lengths idx) none = some pack ∧
        (pack ++ [idx]).length ≤ maxSequencesPerPack ∧
        dpCell lengths maxSequencesPerPack idx dp c = dp.set c (some (pack ++ [idx])) := by
  unfold dpCell
  split
  · exact .inl rfl
  · rename_i pack hpack
    dsimp only
    split_ifs with hshort
    · split
      · exact .inr ⟨pack,hpack,hshort,rfl⟩
      · split_ifs
        · exact .inr ⟨pack,hpack,hshort,rfl⟩
        · exact .inl rfl
    · exact .inl rfl

/-- No entry below `c` has the sequence yet. -/
def Fresh (idx c : ℕ) (dp : Table) : Prop :=
  ∀ d < c, ∀ p, dp.getD d none = some p → idx ∉ p

/-- The descending pass over the capacities reads only cells it has not written yet, so
a candidate never gets the same sequence twice. -/
theorem dpCell_sound {maxSequencesPerPack idx k : ℕ} {seen : List ℕ} {dp : Table}
    (hsound : dp.Sound lengths (seen ++ [idx])) (hfresh : Fresh idx (lengthAt lengths idx + (k + 1)) dp) :
    (dpCell lengths maxSequencesPerPack idx dp (lengthAt lengths idx + k)).Sound lengths (seen ++ [idx]) ∧
      Fresh idx (lengthAt lengths idx + k)
        (dpCell lengths maxSequencesPerPack idx dp (lengthAt lengths idx + k)) := by
  rcases dpCell_spec lengths maxSequencesPerPack idx (lengthAt lengths idx + k) dp with
    heq | ⟨pack,hpack,-,heq⟩
  · rw [heq]
    exact ⟨hsound,fun d hd => hfresh d (by omega)⟩
  · rw [heq]
    rw [Nat.add_sub_cancel_left] at hpack
    obtain ⟨hload,hnodup,hseen⟩ := hsound k pack hpack
    refine ⟨?_,?_⟩
    · intro d p hp
      rw [getD_set] at hp
      split_ifs at hp with hd
      · obtain rfl := Option.some.inj hp
        refine ⟨?_,?_,?_⟩
        · rw [load_append,load_singleton,hload,hd.1,Nat.add_comm]
        · rw [← List.concat_eq_append]
          exact hnodup.concat (hfresh k (by omega) pack hpack)
        · intro i hi
          rcases List.mem_append.mp hi with hi | hi
          · exact hseen i hi
          · rw [List.mem_singleton.mp hi]
            simp
      · exact hsound d p hp
    · intro d hd p hp
      rw [getD_set,if_neg (by omega)] at hp
      exact hfresh d (by omega) p hp

theorem dpCells_sound {maxSequencesPerPack idx : ℕ} {seen : List ℕ} (k : ℕ) {dp : Table}
    (hsound : dp.Sound lengths (seen ++ [idx])) (hfresh : Fresh idx (lengthAt lengths idx + k) dp) :
    (dpCells lengths maxSequencesPerPack idx k dp).Sound lengths (seen ++ [idx]) := by
  induction k generalizing dp with
  | zero => exact hsound
  | succ k ih =>
    obtain ⟨hsound',hfresh'⟩ := dpCell_sound hsound hfresh
    rw [dpCells]
    exact ih hsound' hfresh'

theorem Table.Sound.append {seen : List ℕ} {dp : Table} (hsound : dp.Sound lengths seen)
    (more : List ℕ) : dp.Sound lengths (seen ++ more) := fun c p hp => by
  obtain ⟨hload,hnodup,hseen⟩ := hsound c p hp
  exact ⟨hload,hnodup,fun i hi => List.mem_append_left _ (hseen i hi)⟩

theorem Table.Sound.fresh {seen : List ℕ} {dp : Table} {idx : ℕ} (hsound : dp.Sound lengths seen)
    (hnew : idx ∉ seen) (c : ℕ) : Fresh idx c dp :=
  fun d _ p hp hidx => hnew ((hsound d p hp).2.2 idx hidx)

theorem dpItem_sound {capacity maxSequencesPerPack idx : ℕ} {seen : List ℕ} {dp : Table}
    (hsound : dp.Sound lengths seen) (hnew : idx ∉ seen) :
    (dpItem lengths capacity maxSequencesPerPack dp idx).Sound lengths (seen ++ [idx]) := by
  unfold dpItem
  split_ifs
  · exact hsound.append [idx]
  · exact dpCells_sound _ (hsound.append [idx]) (hsound.fresh hnew _)

def startTable (capacity : ℕ) : Table := some [] :: List.replicate capacity none

theorem getD_startTable (capacity c : ℕ) :
    (startTable capacity).getD c none = if c = 0 then some [] else none := by
  cases c with
  | zero => rfl
  | succ c =>
    rw [startTable,List.getD_cons_succ,List.getD_eq_getElem?_getD,List.getElem?_replicate]
    split_ifs <;> simp_all

theorem startTable_sound (lengths : List ℕ) (capacity : ℕ) : (startTable capacity).Sound lengths [] := by
  intro c p hp
  rw [getD_startTable] at hp
  split_ifs at hp with hc
  obtain rfl := Option.some.inj hp
  exact ⟨hc.symm,by simp,by simp⟩

theorem dpFill_sound {capacity maxSequencesPerPack : ℕ} {remaining : List ℕ}
    (hnodup : remaining.Nodup) :
    (dpFill lengths capacity maxSequencesPerPack remaining).Sound lengths remaining := by
  have hfold : ∀ (rest seen : List ℕ) (dp : Table), dp.Sound lengths seen →
      (seen ++ rest).Nodup → (rest.foldl (dpItem lengths capacity maxSequencesPerPack) dp).Sound
        lengths (seen ++ rest) := by
    intro rest
    induction rest with
    | nil => intro seen dp hsound _; simpa using hsound
    | cons idx rest ih =>
      intro seen dp hsound hnd
      rw [List.append_cons] at hnd ⊢
      have hnew : idx ∉ seen := fun hin => by
        rw [List.append_assoc] at hnd
        exact (List.nodup_append.mp hnd).2.2 idx hin idx (by simp) rfl
      exact ih _ _ (dpItem_sound hsound hnew) hnd
  have hall := hfold remaining [] _ (startTable_sound lengths capacity) (by simpa using hnodup)
  rw [List.nil_append] at hall
  exact hall

/-- The pack of one turn: nonempty, duplicate-free, out of the remaining sequences, and
within the capacity unless it is the fallback. -/
theorem bestPack_spec (lengths : List ℕ) (capacity maxSequencesPerPack : ℕ) {first : ℕ}
    {rest : List ℕ} (hnodup : (first :: rest).Nodup) :
    bestPack lengths capacity maxSequencesPerPack first rest ≠ [] ∧
    (bestPack lengths capacity maxSequencesPerPack first rest).Nodup ∧
    (∀ i ∈ bestPack lengths capacity maxSequencesPerPack first rest, i ∈ first :: rest) ∧
    (lengthAt lengths first ≤ capacity →
      load (lengthAt lengths) (bestPack lengths capacity maxSequencesPerPack first rest) ≤ capacity) := by
  unfold bestPack
  dsimp only
  split_ifs with hempty
  · exact ⟨by simp,by simp,by simp,fun h => by simpa using h⟩
  · have hne : bestFill (dpFill lengths capacity maxSequencesPerPack (first :: rest)) capacity ≠ [] := by
      simpa using hempty
    cases hfind : (List.range (capacity + 1)).reverse.findSome? fun c =>
        (dpFill lengths capacity maxSequencesPerPack (first :: rest)).getD c none with
    | none =>
      rw [bestFill,hfind] at hne
      exact absurd rfl hne
    | some p =>
      have hbest : bestFill (dpFill lengths capacity maxSequencesPerPack (first :: rest)) capacity = p := by
        rw [bestFill,hfind,Option.getD_some]
      obtain ⟨c,hc,hp⟩ := List.exists_of_findSome?_eq_some hfind
      obtain ⟨hload,hnd,hsub⟩ := dpFill_sound hnodup c p hp
      rw [List.mem_reverse,List.mem_range] at hc
      rw [hbest] at hne ⊢
      exact ⟨hne,hnd,hsub,fun _ => by omega⟩

theorem dpLoop_packs {capacity maxSequencesPerPack : ℕ} (turns : ℕ) {remaining : List ℕ}
    (hnodup : remaining.Nodup) (hturns : remaining.length ≤ turns) :
    Packs remaining (dpLoop lengths capacity maxSequencesPerPack turns remaining) := by
  induction turns generalizing remaining with
  | zero =>
    have hnil : remaining = [] := List.eq_nil_of_length_eq_zero (by omega)
    rw [hnil]
    exact .nil
  | succ turns ih =>
    cases remaining with
    | nil => exact .nil
    | cons first rest =>
      obtain ⟨hne,hnd,hsub,-⟩ := bestPack_spec lengths capacity maxSequencesPerPack
        hnodup
      rw [dpLoop]
      have hperm := perm_append_filter_not hnodup hnd hsub
      refine Packs.cons (ih (hnodup.filter _) ?_) hne hperm
      have hlen := hperm.length_eq
      rw [List.length_append] at hlen
      have hpos := List.length_pos_iff.mpr hne
      omega

theorem dpLoop_fits {capacity maxSequencesPerPack : ℕ} (turns : ℕ) {remaining : List ℕ}
    (hnodup : remaining.Nodup) (hshort : ∀ i ∈ remaining, lengthAt lengths i ≤ capacity) :
    Fits (lengthAt lengths) capacity
      (dpLoop lengths capacity maxSequencesPerPack turns remaining) := by
  induction turns generalizing remaining with
  | zero => simp [dpLoop,Fits]
  | succ turns ih =>
    cases remaining with
    | nil => simp [dpLoop,Fits]
    | cons first rest =>
      obtain ⟨-,-,-,hfit⟩ := bestPack_spec lengths capacity maxSequencesPerPack
        hnodup
      rw [dpLoop]
      refine Fits.cons (ih (hnodup.filter _) ?_) (hfit (hshort first (by simp)))
      exact fun i hi => hshort i (List.mem_of_mem_filter hi)

theorem descending_nodup (lengths : List ℕ) : (descending lengths).Nodup :=
  (descending_perm lengths).nodup_iff.mpr List.nodup_range

theorem dpPacking_partitions_iff (lengths : List ℕ) (maxPackSize maxSequencesPerPack : ℕ) :
    Partitions lengths maxPackSize (dpPacking lengths maxPackSize maxSequencesPerPack) ↔
      ∀ l ∈ lengths, l ≤ maxPackSize := by
  constructor
  · exact fun h => h.1
  · intro hall
    have hperm := descending_perm lengths
    have hturns : (descending lengths).length ≤ lengths.length := by
      rw [hperm.length_eq,List.length_range]
    refine ⟨hall,(dpLoop_packs _ (descending_nodup lengths) hturns).congr hperm,
      dpLoop_fits _ (descending_nodup lengths) ?_⟩
    intro i hi
    rw [hperm.mem_iff,List.mem_range] at hi
    exact hall _ (lengthAt_mem hi)

theorem packSequences_cases (rng : Generator) (lengths : List ℕ) (maxPackSize : ℕ)
    (seed : Option ℤ) {algorithm : String} (h : algorithm ∈ (algorithmRegistry rng).map Prod.fst) :
    (algorithm ∉ ["dp","dp_packing"] ∧ Partitions lengths maxPackSize
        (packSequences rng lengths maxPackSize algorithm seed)) ∨
    (algorithm ∈ ["dp","dp_packing"] ∧ packSequences rng lengths maxPackSize algorithm seed =
      dpPacking lengths maxPackSize 32) := by
  simp only [algorithmRegistry,List.map_cons,List.map_nil,List.mem_cons,List.not_mem_nil,or_false] at h
  rcases h with rfl | rfl | rfl | rfl | rfl | rfl | rfl | rfl
  · exact .inl ⟨by decide,firstFitDecreasing_partitions _ _⟩
  · exact .inl ⟨by decide,firstFitDecreasing_partitions _ _⟩
  · exact .inl ⟨by decide,shufflePacking_partitions _ _ _ _⟩
  · exact .inl ⟨by decide,shufflePacking_partitions _ _ _ _⟩
  · exact .inr ⟨by decide,rfl⟩
  · exact .inr ⟨by decide,rfl⟩
  · exact .inl ⟨by decide,onlinePacking_partitions _ _⟩
  · exact .inl ⟨by decide,onlinePacking_partitions _ _⟩

theorem registered_of_ok {rng : Generator} {algorithm : String} {seed : Option ℤ}
    {packs : PackList} (h : packSequences rng lengths maxPackSize algorithm seed = .ok packs) :
    algorithm ∈ (algorithmRegistry rng).map Prod.fst := by
  unfold packSequences at h
  split at h
  · cases h
  · rename_i fn hfn
    obtain ⟨l₁,l₂,hl,-⟩ := List.lookup_eq_some_iff.mp hfn
    rw [hl]
    simp

/-- Whatever an algorithm returns holds every index exactly once, in nonempty packs. -/
theorem packSequences_packs {rng : Generator} {algorithm : String} {seed : Option ℤ}
    {packs : PackList} (h : packSequences rng lengths maxPackSize algorithm seed = .ok packs) :
    Packs (List.range lengths.length) packs := by
  rcases packSequences_cases rng lengths maxPackSize seed (registered_of_ok h) with
    ⟨-,hpart⟩ | ⟨-,hdp⟩
  · rw [h] at hpart
    exact hpart.2.1
  · rw [h] at hdp
    obtain rfl := Except.ok.inj hdp
    have hperm := descending_perm lengths
    have hturns : (descending lengths).length ≤ lengths.length := by
      rw [hperm.length_eq,List.length_range]
    exact (dpLoop_packs _ (descending_nodup lengths) hturns).congr hperm

/-- A registered algorithm keeps the promise of the module unless it is the dynamic
program and some sequence is longer than a pack. -/
theorem packSequences_partitions_iff (rng : Generator) (lengths : List ℕ) (maxPackSize : ℕ)
    (seed : Option ℤ) {algorithm : String}
    (h : algorithm ∈ (algorithmRegistry rng).map Prod.fst) :
    Partitions lengths maxPackSize (packSequences rng lengths maxPackSize algorithm seed) ↔
      ¬ (algorithm ∈ ["dp","dp_packing"] ∧ ∃ l ∈ lengths, maxPackSize < l) := by
  rcases packSequences_cases rng lengths maxPackSize seed h with ⟨hname,hpart⟩ | ⟨hname,hdp⟩
  · exact ⟨fun _ hbad => hname hbad.1,fun _ => hpart⟩
  · rw [hdp,dpPacking_partitions_iff]
    constructor
    · rintro hall ⟨-,l,hl,hlt⟩
      have := hall l hl
      omega
    · intro hno l hl
      by_contra hlt
      exact hno ⟨hname,l,hl,by omega⟩

def zeroGenerator : Generator := ⟨Unit,fun _ => (),fun _ _ => (0,()),fun _ _ hn => hn⟩

theorem packSequences_partitions_iff_dp :
    packSequences zeroGenerator [2,1,3,0] 3 "dp" none = .ok [[2],[0,1],[3]] ∧
      Partitions [2,1,3,0] 3 (packSequences zeroGenerator [2,1,3,0] 3 "dp" none) :=
  ⟨by decide,(packSequences_partitions_iff zeroGenerator [2,1,3,0] 3 none (by decide)).mpr
    (by decide)⟩

theorem dp_overfull :
    packSequences zeroGenerator [5] 3 "dp" none = .ok [[0]] ∧
      ¬ Partitions [5] 3 (packSequences zeroGenerator [5] 3 "dp" none) := by
  have hpacks : packSequences zeroGenerator [5] 3 "dp" none = .ok [[0]] := by decide
  refine ⟨hpacks,fun hpart => ?_⟩
  rw [hpacks] at hpart
  have hle := hpart.1 5 (by simp)
  omega

end

open BinPacking

variable {lengths : List ℕ} {maxPackSize : ℕ}

theorem firstFit_unmergeable {placed : List ℕ} {b : Bins} (h : b.Sound lengths maxPackSize placed)
    (hpacks : Unmergeable (lengthAt lengths) maxPackSize b.packs) (idx : ℕ) :
    Unmergeable (lengthAt lengths) maxPackSize
      (firstFit maxPackSize idx (lengthAt lengths idx) b).packs := by
  unfold firstFit
  split
  · rename_i k _
    exact hpacks.addTo k idx
  · rename_i hnone
    refine hpacks.snoc fun p hp => ?_
    have hcap : maxPackSize - load (lengthAt lengths) p ∈ b.remaining := by
      rw [h.remaining]
      exact List.mem_map_of_mem hp
    have hfull := List.findIdx?_eq_none_iff.mp hnone _ hcap
    have hlt := of_decide_eq_false hfull
    rw [load_singleton]
    omega

theorem packInOrder_unmergeable (order : List ℕ) {placed : List ℕ} {b : Bins}
    (h : b.Sound lengths maxPackSize placed)
    (hpacks : Unmergeable (lengthAt lengths) maxPackSize b.packs)
    (hshort : ∀ idx ∈ order, lengthAt lengths idx ≤ maxPackSize) :
    ∃ packs, packInOrder lengths maxPackSize order b = .ok packs ∧ Packs (placed ++ order) packs ∧
      Unmergeable (lengthAt lengths) maxPackSize packs := by
  induction order generalizing placed b with
  | nil => exact ⟨b.packs,rfl,by simpa using h.packs,hpacks⟩
  | cons idx order ih =>
    have hle := hshort idx List.mem_cons_self
    obtain ⟨packs,hok,hplaced,hfull⟩ := ih (firstFit_sound h hle) (firstFit_unmergeable h hpacks idx)
      fun i hi => hshort i (List.mem_cons_of_mem idx hi)
    refine ⟨packs,?_,by simpa using hplaced,hfull⟩
    rw [packInOrder]
    simp only [if_neg hle.not_gt]
    exact hok

theorem load_range (lengths : List ℕ) :
    load (lengthAt lengths) (List.range lengths.length) = lengths.sum := by
  have hall : (List.range lengths.length).map (lengthAt lengths) = lengths := by
    refine List.ext_getElem (by simp) fun i hi hj => ?_
    rw [List.getElem_map,List.getElem_range,lengthAt,List.getD_eq_getElem _ _ hj]
  rw [load,hall]

/-- What first fit promises beyond the budget: it succeeds, every two packs together exceed
the budget, and so there are not many. -/
def Tight (lengths : List ℕ) (maxPackSize : ℕ) (result : Except PackError PackList) : Prop :=
  ∃ packs, result = .ok packs ∧
    packs.Pairwise (fun p q =>
      maxPackSize < load (lengthAt lengths) p + load (lengthAt lengths) q) ∧
    (2 ≤ packs.length → (packs.length - 1) * maxPackSize < 2 * lengths.sum)

theorem packInOrder_tight {order : List ℕ} (hperm : order.Perm (List.range lengths.length))
    (hshort : ∀ l ∈ lengths, l ≤ maxPackSize) :
    Tight lengths maxPackSize (packInOrder lengths maxPackSize order ⟨[],[]⟩) := by
  have hlengths : ∀ idx ∈ order, lengthAt lengths idx ≤ maxPackSize := fun idx hidx =>
    hshort _ (lengthAt_mem (List.mem_range.mp (hperm.mem_iff.mp hidx)))
  obtain ⟨packs,hok,hpacks,hfull⟩ := packInOrder_unmergeable order
    (@Bins.sound_empty lengths maxPackSize) Unmergeable.nil hlengths
  refine ⟨packs,hok,hfull,fun htwo => ?_⟩
  have hsum := (hpacks.congr (by simpa using hperm)).sum_load (lengthAt lengths)
  rw [load_range] at hsum
  rw [← hsum]
  exact hfull.count_lt htwo

/-- First fit is tight in every order, the descending and the shuffled one among them. -/
theorem firstFit_tight (rng : Generator) (seed : Option ℤ) (hshort : ∀ l ∈ lengths, l ≤ maxPackSize) :
    (∀ order : List ℕ, order.Perm (List.range lengths.length) →
      Tight lengths maxPackSize (packInOrder lengths maxPackSize order ⟨[],[]⟩)) ∧
    Tight lengths maxPackSize (firstFitDecreasing lengths maxPackSize) ∧
    Tight lengths maxPackSize (shufflePacking rng lengths maxPackSize seed) :=
  ⟨fun _ hperm => packInOrder_tight hperm hshort,packInOrder_tight (descending_perm lengths) hshort,
    packInOrder_tight (shuffle_perm rng seed _) hshort⟩

theorem firstFit_tight_five :
    firstFitDecreasing [2,3,3,1,2] 4 = .ok [[1,3],[2],[0,4]] ∧
      Tight [2,3,3,1,2] 4 (firstFitDecreasing [2,3,3,1,2] 4) :=
  ⟨by decide,(firstFit_tight zeroGenerator none (by decide)).2.1⟩

end Packing
end DockyardRL
