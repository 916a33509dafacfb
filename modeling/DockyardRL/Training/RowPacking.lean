import DockyardRL.Lib.Packed
import DockyardRL.Lib.Fallible
import DockyardRL.Lib.Padding

/-! Sequences packed into rows and taken out again. Ids, positions and lengths agree on where a
sequence lies; the attention mask of a row is that of one long sequence. -/
namespace DockyardRL
namespace Training
namespace RowPacking

open Blocks Packed Padding

variable {α β : Type}

/-- Sequences padded to one width, with their true lengths. -/
structure PaddedBatch (α : Type) where
  inputIds : List (List α)
  inputLengths : List ℕ
  width : ℕ
  height_eq : inputIds.length = inputLengths.length
  width_eq : ∀ row ∈ inputIds, row.length = width
  fits : ∀ len ∈ inputLengths, len ≤ width

/-- How many of `n` sequences go into each row. -/
structure RowSizes (n : ℕ) where
  sizes : List ℕ
  sum_eq : sizes.sum = n
  pos : ∀ size ∈ sizes, 1 ≤ size

/-- `torch.cat`, which refuses an empty list. -/
def cat (tensors : List (List β)) : Option (List β) :=
  if tensors.isEmpty then none else some tensors.flatten

/-- `tensors[index:index + size]` for every size, where `index` moves on by the size. -/
def groupSlices (tensors : List β) (index : ℕ) : List ℕ → List (List β)
  | [] => []
  | size :: sizes => (tensors.drop index).take size :: groupSlices tensors (index + size) sizes

def groupAndCatTensors (tensors : List (List β)) (groupSizes : List ℕ) (paddingValue : β)
    (minSeqLen : ℤ) : Option (List (List β)) := do
  let grouped ← (groupSlices tensors 0 groupSizes).mapM cat
  let maxLen ← (grouped.map List.length).max?
  some (grouped.map (padTo (max maxLen minSeqLen.toNat) paddingValue))

/-- `torch.zeros((n, n), dtype=torch.bool)`. -/
def zeros (n : ℕ) : List (List Bool) := List.replicate n (List.replicate n false)

/-- `torch.tril(torch.ones((n, n), dtype=torch.bool))`. -/
def tril (n : ℕ) : List (List Bool) :=
  (List.range n).map fun q => (List.range n).map fun k => decide (k ≤ q)

def rowMask (maxSeqLen : ℕ) (groupLengths : List ℕ) : List (List Bool) :=
  setBlock (0,groupLengths.sum) (0,groupLengths.sum) (tril groupLengths.sum) (zeros maxSeqLen)

/-- What `pack_sequences` returns. -/
structure PackedSequences (α : Type) where
  inputIds : List (List α)
  positionIds : List (List ℕ)
  attentionMask : Option (List (List (List Bool)))
  deriving DecidableEq

/-- `input_ids[i, :seq_len]` for every length. -/
def PaddedBatch.sequences (batch : PaddedBatch α) : List (List α) :=
  List.zipWith (fun row seqLen => row.take seqLen) batch.inputIds batch.inputLengths

def packSequences (batch : PaddedBatch α) (packedSequenceSize : List ℕ) (paddingValue : α)
    (returnAttentionMask : Bool) (minSeqLen : ℤ) : Option (PackedSequences α) := do
  let inputIdsPacked ←
    groupAndCatTensors batch.sequences packedSequenceSize paddingValue minSeqLen
  let positionIdsPacked ←
    groupAndCatTensors (batch.inputLengths.map List.range) packedSequenceSize 0 minSeqLen
  let maxSeqLen := (inputIdsPacked.head?.map List.length).getD 0
  let attentionMask :=
    if returnAttentionMask then
      some ((groupSlices batch.inputLengths 0 packedSequenceSize).map (rowMask maxSeqLen))
    else none
  some ⟨inputIdsPacked,positionIdsPacked,attentionMask⟩

/-- `torch.split(row, row_lengths + [remainder], dim=1)[:-1]`, which refuses a negative remainder. -/
def splitRow (row : List α) (rowLengths : List ℕ) : Option (List (List α)) :=
  if rowLengths.sum ≤ row.length then
    some ((rowLengths ++ [row.length - rowLengths.sum]).splitLengths row).dropLast
  else none

/-- `unpack_tensor`. A position holds a number in a 2D tensor and a vector in a 3D tensor. -/
def unpackTensor [Zero α] (tensor : List (List α)) (inputLengths : List ℕ)
    (packedSequenceSize : Option (List ℕ)) : Option (List (List α)) := do
  let maxLen ← inputLengths.max?
  let sizes := packedSequenceSize.getD [inputLengths.length]
  let unpacked ← (tensor.zip (groupSlices inputLengths 0 sizes)).mapM fun (row,rowLengths) =>
    splitRow row rowLengths
  cat (unpacked.flatten.map fun t => [padTo maxLen 0 t])

structure FlashAttentionKwargs where
  cuSeqlensQ : List ℤ
  cuSeqlensK : List ℤ
  maxSeqlenQ : ℕ
  maxSeqlenK : ℕ
  deriving DecidableEq

/-- `to(torch.int32)`. -/
def toInt32 (x : ℤ) : ℤ := x.bmod (2 ^ 32)

/-- `cumsum`, whose sums are 64-bit integers. -/
def cumsum (xs : List ℤ) : List ℤ :=
  (xs.scanl (fun total x => (total + x).bmod (2 ^ 64)) 0).tail

def getFlashAttentionKwargs (inputLengths : List ℕ) : Option FlashAttentionKwargs := do
  let cuSeqlens := 0 :: cumsum (inputLengths.map fun seqLen : ℕ => toInt32 seqLen)
  let maxLen ← inputLengths.max?
  some ⟨cuSeqlens,cuSeqlens,maxLen,maxLen⟩

/-- Two positions of a row lie in one of its sequences. -/
def SameSequence (lens : List ℕ) (q k : ℕ) : Prop := ∃ j, InPiece lens j q ∧ InPiece lens j k

/-- The cumulative lengths are where the sequences of a row start and end. -/
structure Delimits (kwargs : FlashAttentionKwargs) (row : List α) (sequences : List (List α)) :
    Prop where
  offsets : kwargs.cuSeqlensQ =
    (List.range (sequences.length + 1)).map fun j => (Packed.start (sequences.map List.length) j : ℤ)
  keys : kwargs.cuSeqlensK = kwargs.cuSeqlensQ
  sequence : ∀ j sequence, sequences[j]? = some sequence →
    cut (Packed.start (sequences.map List.length) j,Packed.start (sequences.map List.length) (j + 1)) row = sequence
  longest : kwargs.maxSeqlenQ = longest (sequences.map List.length) ∧
    kwargs.maxSeqlenK = kwargs.maxSeqlenQ

/-- The sequences come back, the positions restart, the cumulative lengths delimit the sequences of each
row, and no token attends to a later one or to one of another sequence. -/
structure KeepsApart [Zero α] (batch : PaddedBatch α) (sizes : List ℕ) (requested : Bool)
    (packed : PackedSequences α) : Prop where
  unpacked : unpackTensor packed.inputIds batch.inputLengths (some sizes) =
    some (batch.sequences.map (padTo (longest batch.inputLengths) 0))
  positions : ∀ (r : ℕ) lens, (groupSlices batch.inputLengths 0 sizes)[r]? = some lens →
    ∀ j q, InPiece lens j q → cell packed.positionIds r q = some (q - Packed.start lens j)
  delimited : ∀ (r : ℕ) sequences, (groupSlices batch.sequences 0 sizes)[r]? = some sequences →
    ∃ kwargs row, getFlashAttentionKwargs (sequences.map List.length) = some kwargs ∧
      packed.inputIds[r]? = some row ∧ Delimits kwargs row sequences
  mask : requested = true → ∃ mask, packed.attentionMask = some mask ∧
    ∀ (r : ℕ) lens, (groupSlices batch.inputLengths 0 sizes)[r]? = some lens →
      ∃ m, mask[r]? = some m ∧
        ∀ q k, cell m q k = some true ↔ SameSequence lens q k ∧ k ≤ q

/-- At most one sequence of a row holds a token. -/
def OneNonempty (lens : List ℕ) : Prop :=
  ∀ i j, 0 < lens.getD i 0 → 0 < lens.getD j 0 → i = j

theorem groupSlices_eq (tensors : List β) (index : ℕ) (sizes : List ℕ) :
    groupSlices tensors index sizes = sizes.splitLengths (tensors.drop index) := by
  induction sizes generalizing index with
  | nil => rfl
  | cons size sizes ih => rw [groupSlices,ih,List.splitLengths_cons,List.drop_drop]

theorem groupSlices_zero (tensors : List β) (sizes : List ℕ) :
    groupSlices tensors 0 sizes = sizes.splitLengths tensors := by
  rw [groupSlices_eq,List.drop_zero]

theorem groupSlices_map (f : α → β) (l : List α) (sizes : List ℕ) :
    groupSlices (l.map f) 0 sizes = (groupSlices l 0 sizes).map (List.map f) := by
  rw [groupSlices_zero,groupSlices_zero,splitLengths_map]

section Groups

variable {l : List β} (rows : RowSizes l.length)

theorem flatten_groupSlices : (groupSlices l 0 rows.sizes).flatten = l := by
  rw [groupSlices_zero,List.flatten_splitLengths l rows.sizes (Nat.le_of_eq rows.sum_eq.symm)]

theorem ne_nil_of_mem_groupSlices {group : List β} (h : group ∈ groupSlices l 0 rows.sizes) :
    group ≠ [] := by
  have hlens := List.map_splitLengths_length l rows.sizes (Nat.le_of_eq rows.sum_eq)
  rw [← groupSlices_zero] at hlens
  have hsize := rows.pos _ (hlens ▸ List.mem_map_of_mem h)
  exact List.ne_nil_of_length_pos hsize

theorem groupSlices_eq_nil_iff : groupSlices l 0 rows.sizes = [] ↔ l = [] := by
  constructor
  · intro h
    rw [← flatten_groupSlices rows,h,List.flatten_nil]
  · intro h
    by_contra hne
    obtain ⟨group,hgroup⟩ := List.exists_mem_of_ne_nil _ hne
    obtain ⟨x,hx⟩ := List.exists_mem_of_ne_nil _ (ne_nil_of_mem_groupSlices rows hgroup)
    have hmem := List.mem_flatten_of_mem hgroup hx
    rw [flatten_groupSlices rows,h] at hmem
    cases hmem

end Groups

theorem cat_eq {tensors : List (List β)} (h : tensors ≠ []) : cat tensors = some tensors.flatten := by
  rw [cat,if_neg (by simpa using h)]

def packedWidth (lens : List ℕ) (sizes : List ℕ) (minSeqLen : ℤ) : ℕ :=
  max (longest ((groupSlices lens 0 sizes).map List.sum)) minSeqLen.toNat

theorem groupAndCatTensors_eq {tensors : List (List β)} (rows : RowSizes tensors.length)
    (hne : tensors ≠ []) (paddingValue : β) (minSeqLen : ℤ) :
    groupAndCatTensors tensors rows.sizes paddingValue minSeqLen =
      some ((groupSlices tensors 0 rows.sizes).map fun group =>
        padTo (packedWidth (tensors.map List.length) rows.sizes minSeqLen) paddingValue
          group.flatten) := by
  have hgroups : groupSlices tensors 0 rows.sizes ≠ [] :=
    fun h => hne ((groupSlices_eq_nil_iff rows).mp h)
  have hlens : ((groupSlices tensors 0 rows.sizes).map List.flatten).map List.length =
      (groupSlices (tensors.map List.length) 0 rows.sizes).map List.sum := by
    rw [groupSlices_map,List.map_map,List.map_map]
    exact List.map_congr_left fun group _ => List.length_flatten
  have hcat : (groupSlices tensors 0 rows.sizes).mapM cat =
      some ((groupSlices tensors 0 rows.sizes).map List.flatten) :=
    Fallible.mapM_eq_some fun group hgroup => cat_eq (ne_nil_of_mem_groupSlices rows hgroup)
  have hmax := max?_eq_longest (fun h => hgroups (by simpa using h) :
    ((groupSlices tensors 0 rows.sizes).map List.flatten).map List.length ≠ [])
  rw [groupAndCatTensors,hcat]
  dsimp only [Option.bind_eq_bind,Option.bind_some]
  rw [hmax,Option.bind_some,hlens,List.map_map]
  rfl

theorem map_length_sequences (batch : PaddedBatch α) :
    batch.sequences.map List.length = batch.inputLengths := by
  refine List.ext_getElem ?_ fun i hi hi' => ?_
  · rw [List.length_map,PaddedBatch.sequences,List.length_zipWith,batch.height_eq,Nat.min_self]
  · have hheight : i < batch.inputIds.length := by rwa [batch.height_eq]
    have hwidth := batch.width_eq _ (List.getElem_mem hheight)
    have hfits := batch.fits _ (List.getElem_mem hi')
    rw [List.getElem_map]
    unfold PaddedBatch.sequences
    rw [List.getElem_zipWith,List.length_take,hwidth,Nat.min_eq_left hfits]

theorem splitRow_padTo (sequences : List (List α)) (width : ℕ) (pad : α) :
    splitRow (padTo width pad sequences.flatten) (sequences.map List.length) = some sequences := by
  have hsum : (sequences.map List.length).sum = sequences.flatten.length := List.length_flatten.symm
  have hfits : (sequences.map List.length).sum ≤ (padTo width pad sequences.flatten).length := by
    rw [length_padTo,hsum]
    exact Nat.le_max_left _ _
  rw [splitRow,if_pos hfits,padTo,splitLengths_flatten]
  simp

theorem unpackTensor_groups [Zero α] {sequences : List (List α)} (rows : RowSizes sequences.length)
    (hne : sequences ≠ []) (width : ℕ) (pad : α) :
    unpackTensor ((groupSlices sequences 0 rows.sizes).map fun group => padTo width pad group.flatten)
        (sequences.map List.length) (some rows.sizes) =
      some (sequences.map (padTo (longest (sequences.map List.length)) 0)) := by
  have hmax := max?_eq_longest (fun h => hne (by simpa using h) : sequences.map List.length ≠ [])
  have hparts : ((groupSlices sequences 0 rows.sizes).map fun group =>
      padTo width pad group.flatten).zip (groupSlices (sequences.map List.length) 0 rows.sizes) =
        (groupSlices sequences 0 rows.sizes).map fun group =>
          (padTo width pad group.flatten,group.map List.length) := by
    rw [groupSlices_map,List.zip_map']
  have hsplit : (((groupSlices sequences 0 rows.sizes).map fun group =>
      padTo width pad group.flatten).zip (groupSlices (sequences.map List.length) 0 rows.sizes)).mapM
        (fun part => splitRow part.1 part.2) = some (groupSlices sequences 0 rows.sizes) := by
    rw [hparts,List.mapM_map]
    have hall := Fallible.mapM_eq_some fun group (_ : group ∈ groupSlices sequences 0 rows.sizes) =>
      splitRow_padTo group width pad
    rwa [List.map_id'] at hall
  rw [unpackTensor,hmax]
  dsimp only [Option.bind_eq_bind,Option.bind_some,Option.getD_some]
  rw [hsplit,Option.bind_some,flatten_groupSlices rows,cat_eq (by simpa using hne)]
  rw [← List.flatMap_def,← List.map_eq_flatMap]

theorem map_length_range (lens : List ℕ) : (lens.map List.range).map List.length = lens := by
  rw [List.map_map]
  exact (List.map_congr_left fun len _ => List.length_range).trans (List.map_id lens)

theorem getElem?_positions {lens : List ℕ} {j q : ℕ} (h : InPiece lens j q) (width : ℕ) :
    (padTo width 0 (lens.map List.range).flatten)[q]? = some (q - Packed.start lens j) := by
  have hlens := map_length_range lens
  have hlt : q < (lens.map List.range).flatten.length := by
    rw [List.length_flatten,hlens]
    exact h.lt_sum
  have hpiece : InPiece ((lens.map List.range).map List.length) j q := by rwa [hlens]
  have hpos := h.pos
  have hj : j < lens.length := by
    by_contra hge
    rw [List.getD_eq_default _ _ (Nat.le_of_not_lt hge)] at hpos
    exact absurd hpos (Nat.lt_irrefl 0)
  have hoffset : q - Packed.start lens j < lens[j] := by
    have hto := h.2
    rw [start_succ,List.getD_eq_getElem _ _ hj] at hto
    have hfrom := h.1
    omega
  rw [padTo,List.getElem?_append_left hlt,getElem?_flatten hpiece,hlens,List.getElem?_map,
    List.getElem?_eq_getElem hj,Option.map_some,Option.bind_some,List.getElem?_range hoffset]

theorem cell_zeros (n q k : ℕ) : cell (zeros n) q k = if q < n ∧ k < n then some false else none := by
  rw [cell,zeros,List.getElem?_replicate]
  by_cases hq : q < n
  · rw [if_pos hq,Option.bind_some,List.getElem?_replicate]
    simp [hq]
  · rw [if_neg hq,if_neg fun h => hq h.1]
    rfl

theorem cell_tril {n q k : ℕ} (hq : q < n) (hk : k < n) : cell (tril n) q k = some (decide (k ≤ q)) := by
  rw [cell,tril,List.getElem?_map,List.getElem?_range hq,Option.map_some,Option.bind_some,
    List.getElem?_map,List.getElem?_range hk,Option.map_some]

theorem cell_rowMask {width : ℕ} {lens : List ℕ} (hfits : lens.sum ≤ width) (q k : ℕ) :
    cell (rowMask width lens) q k = some true ↔ q < lens.sum ∧ k ≤ q := by
  rw [rowMask,cell_setBlock,cell_zeros]
  by_cases hin : q < lens.sum ∧ k < lens.sum
  · obtain ⟨hq,hk⟩ := hin
    rw [if_pos ⟨by omega,by omega⟩,Option.map_some,if_pos ⟨⟨Nat.zero_le q,hq⟩,Nat.zero_le k,hk⟩,
      Nat.sub_zero,Nat.sub_zero,cell_tril hq hk,Option.getD_some,Option.some.injEq,decide_eq_true_iff]
    exact ⟨fun h => ⟨hq,h⟩,fun h => h.2⟩
  · constructor
    · intro h
      split_ifs at h with hblock hwide
      · exact absurd ⟨hblock.1.2,hblock.2.2⟩ hin
      · cases h
      · cases h
      · cases h
    · intro h
      exact absurd ⟨h.1,by omega⟩ hin

theorem forall_sameSequence_iff (lens : List ℕ) :
    (∀ q k, (q < lens.sum ∧ k ≤ q) ↔ SameSequence lens q k ∧ k ≤ q) ↔ OneNonempty lens := by
  constructor
  · intro hmask
    have hbefore : ∀ i j, 0 < lens.getD i 0 → 0 < lens.getD j 0 → ¬i < j := by
      intro i j hi hj hlt
      have hle : Packed.start lens i ≤ Packed.start lens j := start_mono lens (Nat.le_of_lt hlt)
      obtain ⟨⟨m,hq,hk⟩,-⟩ := (hmask _ _).mp ⟨(inPiece_start hj).lt_sum,hle⟩
      have him := (inPiece_start hi).eq hk
      have hjm := (inPiece_start hj).eq hq
      omega
    intro i j hi hj
    have hij := hbefore i j hi hj
    have hji := hbefore j i hj hi
    omega
  · intro hone q k
    constructor
    · rintro ⟨hq,hkq⟩
      obtain ⟨j,hj⟩ := exists_inPiece hq
      obtain ⟨i,hi⟩ := exists_inPiece (Nat.lt_of_le_of_lt hkq hq)
      obtain rfl := hone i j hi.pos hj.pos
      exact ⟨⟨i,hj,hi⟩,hkq⟩
    · rintro ⟨⟨j,hj,-⟩,hkq⟩
      exact ⟨hj.lt_sum,hkq⟩

theorem cons_cumsum (xs : List ℤ) :
    0 :: cumsum xs = xs.scanl (fun total x => (total + x).bmod (2 ^ 64)) 0 := by
  cases xs with
  | nil => rfl
  | cons x xs => rw [cumsum,List.scanl_cons,List.tail_cons]

theorem add_toInt32_eq_iff {a len : ℕ} (ha : a < 2 ^ 63) :
    ((a : ℤ) + toInt32 len).bmod (2 ^ 64) = ((a + len : ℕ) : ℤ) ↔ len < 2 ^ 31 ∧ a + len < 2 ^ 63 := by
  rw [toInt32]
  have hlen : (0 : ℤ) ≤ len := Int.natCast_nonneg len
  rw [Int.bmod_def,Int.bmod_def]
  push_cast
  split_ifs <;> omega

theorem scanl_toInt32_eq_iff {a : ℕ} (ha : a < 2 ^ 63) (lens : List ℕ) :
    (lens.map fun seqLen : ℕ => toInt32 seqLen).scanl (fun total x => (total + x).bmod (2 ^ 64)) (a : ℤ) =
        (List.range (lens.length + 1)).map (fun j => ((a + Packed.start lens j : ℕ) : ℤ)) ↔
      (∀ len ∈ lens, len < 2 ^ 31) ∧ a + lens.sum < 2 ^ 63 := by
  induction lens generalizing a with
  | nil => simpa using ha
  | cons len lens ih =>
    rw [List.map_cons,List.scanl_cons,List.length_cons,List.range_succ_eq_map,List.map_cons,
      List.map_map,List.sum_cons,List.forall_mem_cons]
    have htail : (List.range (lens.length + 1)).map
        ((fun j => ((a + Packed.start (len :: lens) j : ℕ) : ℤ)) ∘ Nat.succ) =
          (List.range (lens.length + 1)).map fun j => ((a + len + Packed.start lens j : ℕ) : ℤ) := by
      refine List.map_congr_left fun j _ => ?_
      show ((a + Packed.start (len :: lens) (j + 1) : ℕ) : ℤ) = _
      rw [start_cons_succ,Nat.add_assoc]
    rw [htail,start_zero,Nat.add_zero,List.cons.injEq,eq_self,true_and]
    by_cases hfits : len < 2 ^ 31 ∧ a + len < 2 ^ 63
    · rw [(add_toInt32_eq_iff ha).mpr hfits,ih hfits.2,Nat.add_assoc]
      tauto
    · constructor
      · intro h
        have hhead := congrArg List.head? h
        rw [List.head?_scanl,List.range_succ_eq_map,List.map_cons,List.head?_cons,start_zero,
          Nat.add_zero] at hhead
        exact absurd ((add_toInt32_eq_iff ha).mp (Option.some.inj hhead)) hfits
      · rintro ⟨⟨hlen,-⟩,hsum⟩
        exact absurd ⟨hlen,by omega⟩ hfits

theorem exists_delimits_iff {sequences : List (List α)} (hne : sequences ≠ []) (width : ℕ) (pad : α) :
    (∃ kwargs, getFlashAttentionKwargs (sequences.map List.length) = some kwargs ∧
      Delimits kwargs (padTo width pad sequences.flatten) sequences) ↔
      (∀ len ∈ sequences.map List.length, len < 2 ^ 31) ∧ (sequences.map List.length).sum < 2 ^ 63 := by
  have hmax := max?_eq_longest (fun h => hne (by simpa using h) : sequences.map List.length ≠ [])
  have hoffsets := @scanl_toInt32_eq_iff 0 (by decide) (sequences.map List.length)
  simp only [Nat.zero_add] at hoffsets
  rw [Int.natCast_zero,← cons_cumsum,List.length_map] at hoffsets
  rw [getFlashAttentionKwargs,hmax,← hoffsets]
  constructor
  · rintro ⟨kwargs,hkwargs,hdelimits⟩
    obtain rfl := Option.some.inj hkwargs
    exact hdelimits.offsets
  · intro h
    exact ⟨_,rfl,h,rfl,fun j sequence hj => cut_start hj _,rfl,rfl⟩

def RowSizes.cast {m n : ℕ} (h : n = m) (rows : RowSizes n) : RowSizes m :=
  ⟨rows.sizes,h ▸ rows.sum_eq,rows.pos⟩

@[simp] theorem RowSizes.sizes_cast {m n : ℕ} (h : n = m) (rows : RowSizes n) :
    (rows.cast h).sizes = rows.sizes := rfl

theorem sum_le_packedWidth {lens group : List ℕ} {sizes : List ℕ} (h : group ∈ groupSlices lens 0 sizes)
    (minSeqLen : ℤ) : group.sum ≤ packedWidth lens sizes minSeqLen :=
  Nat.le_trans (le_longest (List.mem_map_of_mem h)) (Nat.le_max_left _ _)

section Packing

variable (batch : PaddedBatch α) (rows : RowSizes batch.inputLengths.length) (paddingValue : α)
  (requested : Bool) (minSeqLen : ℤ)

theorem groupSlices_inputLengths : groupSlices batch.inputLengths 0 rows.sizes =
    (groupSlices batch.sequences 0 rows.sizes).map (List.map List.length) := by
  rw [← groupSlices_map,map_length_sequences]

theorem length_sequences : batch.inputLengths.length = batch.sequences.length := by
  rw [← map_length_sequences batch,List.length_map]

theorem sequences_eq_nil_iff : batch.sequences = [] ↔ batch.inputLengths = [] := by
  rw [← List.length_eq_zero_iff,← length_sequences,List.length_eq_zero_iff]

theorem packSequences_nil (hnil : batch.inputLengths = []) :
    packSequences batch rows.sizes paddingValue requested minSeqLen = none := by
  have hsizes : rows.sizes = [] := by
    have hgroups := (groupSlices_eq_nil_iff rows).mpr hnil
    rw [groupSlices_zero] at hgroups
    have hlength := congrArg List.length hgroups
    rwa [List.length_splitLengths,List.length_nil,List.length_eq_zero_iff] at hlength
  rw [packSequences,(sequences_eq_nil_iff batch).mpr hnil,hsizes]
  rfl

theorem packSequences_eq (hne : batch.inputLengths ≠ []) :
    packSequences batch rows.sizes paddingValue requested minSeqLen = some
      ⟨(groupSlices batch.sequences 0 rows.sizes).map fun group =>
          padTo (packedWidth batch.inputLengths rows.sizes minSeqLen) paddingValue group.flatten,
        (groupSlices batch.inputLengths 0 rows.sizes).map fun lens =>
          padTo (packedWidth batch.inputLengths rows.sizes minSeqLen) 0 (lens.map List.range).flatten,
        if requested then some ((groupSlices batch.inputLengths 0 rows.sizes).map
          (rowMask (packedWidth batch.inputLengths rows.sizes minSeqLen))) else none⟩ := by
  have hids := groupAndCatTensors_eq (rows.cast (length_sequences batch))
    (fun h => hne ((sequences_eq_nil_iff batch).mp h)) paddingValue minSeqLen
  rw [RowSizes.sizes_cast,map_length_sequences] at hids
  have hpositions := groupAndCatTensors_eq
    (rows.cast (List.length_map List.range).symm : RowSizes (batch.inputLengths.map List.range).length)
    (by simpa using hne) 0 minSeqLen
  rw [RowSizes.sizes_cast,map_length_range,groupSlices_map,List.map_map] at hpositions
  have hwidth : (((groupSlices batch.sequences 0 rows.sizes).map fun group =>
      padTo (packedWidth batch.inputLengths rows.sizes minSeqLen) paddingValue
        group.flatten).head?.map List.length).getD 0 =
          packedWidth batch.inputLengths rows.sizes minSeqLen := by
    have hfits : ∀ group ∈ groupSlices batch.sequences 0 rows.sizes,
        group.flatten.length ≤ packedWidth batch.inputLengths rows.sizes minSeqLen := by
      intro group hgroup
      rw [List.length_flatten]
      refine sum_le_packedWidth ?_ minSeqLen
      rw [groupSlices_inputLengths]
      exact List.mem_map_of_mem hgroup
    cases hgroups : groupSlices batch.sequences 0 rows.sizes with
    | nil =>
      have hnil := (groupSlices_eq_nil_iff (rows.cast (length_sequences batch))).mp hgroups
      exact absurd ((sequences_eq_nil_iff batch).mp hnil) hne
    | cons group groups =>
      have hgroup := hfits group (hgroups ▸ List.mem_cons_self)
      rw [List.map_cons,List.head?_cons,Option.map_some,Option.getD_some,length_padTo,
        Nat.max_eq_right hgroup]
  rw [packSequences,hids,hpositions]
  dsimp only [Option.bind_eq_bind,Option.bind_some]
  rw [hwidth]
  rfl

end Packing

/-- Packing keeps the sequences apart when there is one, the lengths fit into the integers they are added
up in, and, where the mask is asked for, no row has tokens of two sequences. -/
theorem keepsApart_iff [Zero α] (batch : PaddedBatch α) (rows : RowSizes batch.inputLengths.length)
    (paddingValue : α) (requested : Bool) (minSeqLen : ℤ) :
    (∃ packed, packSequences batch rows.sizes paddingValue requested minSeqLen = some packed ∧
        KeepsApart batch rows.sizes requested packed) ↔
      batch.inputLengths ≠ [] ∧
      (∀ lens ∈ groupSlices batch.inputLengths 0 rows.sizes,
        (∀ len ∈ lens, len < 2 ^ 31) ∧ lens.sum < 2 ^ 63) ∧
      (requested = true → ∀ lens ∈ groupSlices batch.inputLengths 0 rows.sizes, OneNonempty lens) := by
  by_cases hnil : batch.inputLengths = []
  · rw [packSequences_nil batch rows paddingValue requested minSeqLen hnil]
    simp [hnil]
  set width := packedWidth batch.inputLengths rows.sizes minSeqLen with hwidth
  have hgroups := groupSlices_inputLengths batch rows
  have hne : ∀ group ∈ groupSlices batch.sequences 0 rows.sizes, group ≠ [] := fun group hgroup =>
    ne_nil_of_mem_groupSlices (rows.cast (length_sequences batch)) hgroup
  rw [packSequences_eq batch rows paddingValue requested minSeqLen hnil]
  constructor
  · rintro ⟨packed,hpacked,h⟩
    obtain rfl := Option.some.inj hpacked
    refine ⟨hnil,?_,?_⟩
    · rw [hgroups,List.forall_mem_map]
      intro sequences hmem
      obtain ⟨r,hr⟩ := List.mem_iff_getElem?.mp hmem
      obtain ⟨kwargs,row,hkwargs,hrow,hdelimits⟩ := h.delimited r sequences hr
      rw [List.getElem?_map,hr] at hrow
      obtain rfl := Option.some.inj hrow
      exact (exists_delimits_iff (hne sequences hmem) _ _).mp ⟨kwargs,hkwargs,hdelimits⟩
    · intro hrequested lens hmem
      obtain ⟨r,hr⟩ := List.mem_iff_getElem?.mp hmem
      obtain ⟨mask,hmask,hrows⟩ := h.mask hrequested
      obtain ⟨m,hm,hcells⟩ := hrows r lens hr
      rw [if_pos hrequested] at hmask
      obtain rfl := Option.some.inj hmask
      rw [List.getElem?_map,hr] at hm
      obtain rfl := Option.some.inj hm
      exact (forall_sameSequence_iff lens).mp fun q k =>
        (cell_rowMask (sum_le_packedWidth hmem minSeqLen) q k).symm.trans (hcells q k)
  · rintro ⟨-,hfits,hone⟩
    refine ⟨_,rfl,?_,?_,?_,?_⟩
    · have hunpacked := unpackTensor_groups (rows.cast (length_sequences batch))
        (fun h => hnil ((sequences_eq_nil_iff batch).mp h)) width paddingValue
      rwa [map_length_sequences] at hunpacked
    · intro r lens hr j q hj
      rw [cell,List.getElem?_map,hr,Option.map_some,Option.bind_some]
      exact getElem?_positions hj width
    · intro r sequences hr
      have hmem := List.mem_of_getElem? hr
      obtain ⟨kwargs,hkwargs,hdelimits⟩ :=
        (exists_delimits_iff (hne sequences hmem) width paddingValue).mpr
          (hfits _ (hgroups ▸ List.mem_map_of_mem hmem))
      exact ⟨kwargs,_,hkwargs,by rw [List.getElem?_map,hr]; rfl,hdelimits⟩
    · intro hrequested
      refine ⟨_,if_pos hrequested,fun r lens hr => ⟨rowMask width lens,?_,fun q k => ?_⟩⟩
      · rw [List.getElem?_map,hr]
        rfl
      · have hmem := List.mem_of_getElem? hr
        exact (cell_rowMask (sum_le_packedWidth hmem minSeqLen) q k).trans
          ((forall_sameSequence_iff lens).mpr (hone hrequested lens hmem) q k)

def twoSequences : PaddedBatch ℕ where
  inputIds := [[1,2],[3,0]]
  inputLengths := [2,1]
  width := 2
  height_eq := rfl
  width_eq := by decide
  fits := by decide

/-- In one row, the token of the second attends to both tokens of the first. -/
theorem twoSequences_attend : ∃ mask, packSequences twoSequences [2] 0 true 0 =
      some ⟨[[1,2,3]],[[0,1,0]],some [mask]⟩ ∧
    cell mask 2 0 = some true ∧ cell mask 2 1 = some true ∧
    ¬SameSequence twoSequences.inputLengths 2 0 ∧ ¬SameSequence twoSequences.inputLengths 2 1 := by
  have happart : ∀ k < 2, ¬SameSequence twoSequences.inputLengths 2 k := by
    rintro k hk ⟨j,hq,hj⟩
    have hlast : InPiece twoSequences.inputLengths 1 2 := by decide
    obtain rfl := hq.eq hlast
    exact absurd (Nat.lt_of_le_of_lt hj.1 hk) (by decide)
  exact ⟨[[true,false,false],[true,true,false],[true,true,true]],by decide,rfl,rfl,
    happart 0 (by decide),happart 1 (by decide)⟩

end RowPacking
end Training
end DockyardRL
