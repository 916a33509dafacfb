import DockyardRL.Distributed.PackedSharding

/-! Global batches in training: a worker cuts its shard into local batches, and the local batches
with one number make up one optimizer step.

Shards of a batch whose size is no multiple of their number. The last shards may be short or empty;
one after the other they hold the rows in order. -/
namespace DockyardRL
namespace Distributed

open Gather Packing Fallible Stripes

variable {ρ : Type*}

theorem Value.sliceRange_ok {n : ℕ} {v : Value ρ} (hv : v.HasRows n) {a k : ℕ} (hk : 0 < k)
    (h : a + k ≤ n) : v.sliceRange a (a + k) = .ok (v.mapRows (gather · (List.range' a k))) := by
  obtain ⟨rows,hrows,rfl⟩ := hv
  have hread : (rows.take (a + k)).drop a = gather rows (List.range' a k) := by
    rw [List.drop_take,Nat.add_sub_cancel_left,drop_take_eq_gather rows h]
  have hne : gather rows (List.range' a k) ≠ [] := by
    refine gather_ne_nil (fun i hi => ?_) (by simpa using hk.ne')
    have hi := (List.mem_range'_1.mp hi).2
    omega
  cases v <;> simp_all [Value.rows?,Value.sliceRange,Value.mapRows,Value.packedTensor]

namespace BatchedDataDict

variable {n : ℕ} {d : BatchedDataDict ρ}

theorem Uniform.getBatch_ok (h : d.Uniform n) {g k : ℕ} (hk : 0 < k) (hle : g * k + k ≤ n) :
    d.getBatch g k = .ok (d.gathered (List.range' (g * k) k)) := by
  have hwithin : Within (List.range' (g * k) k) n := by
    intro i hi
    have hi := (List.mem_range'_1.mp hi).2
    omega
  have hslices : d.data.mapM (sliceRangeEntry (g * k) (g * k + k)) =
      .ok (mapRows (gather · (List.range' (g * k) k)) d.data) :=
    mapM_ok fun entry hentry => by
      rw [sliceRangeEntry,Value.sliceRange_ok (h.rows entry hentry) hk hle]
      rfl
  rw [getBatch,hslices]
  simp only [Except.map,ofData,BatchedDataDict.gathered,h.infer_gathered hwithin]

theorem packingArgs_getBatch {e : BatchedDataDict ρ} {g k : ℕ} (h : d.getBatch g k = .ok e) :
    e.packingArgs = none := by
  obtain ⟨data,-,rfl⟩ := map_eq_ok.mp h
  rfl

def emptyPart : Value ρ → Value ρ
  | .packed _ _ => .list []
  | v => v.mapRows fun _ => []

theorem shardValue_nil {v : Value ρ} (hv : v.HasRows n) :
    shardValue [] v = .ok (emptyPart v) ∧ (emptyPart v).HasRows 0 := by
  obtain ⟨rows,hrows,-⟩ := hv
  cases v <;> simp_all [Value.rows?,shardValue,emptyPart,rowsIn,Value.mapRows,Value.HasRows]

theorem Uniform.shardByBatchSize_noRows (h : d.Uniform 0) {shards gbs : ℕ} (hgbs : 0 < gbs)
    (hdvd : shards ∣ gbs) : ∃ l, d.shardByBatchSize shards (some gbs) false = .ok l := by
  have hshards : shards ≠ 0 := fun hzero => by
    rw [hzero,Nat.zero_dvd] at hdvd
    exact hgbs.ne' hdvd
  obtain ⟨sizes,hsizes,hdedup⟩ := h.sizes
  have hfill := fill_ok empty h.keys (fun entry hentry => shardValue_nil (h.rows entry hentry))
    (by simp [empty]) (.inl rfl)
  have hpasses : ∃ l, (List.range shards).mapM (fun shardIdx =>
      fillShard (shardRanges 0 gbs (gbs / shards) 0 false shardIdx) d.data) = .ok l :=
    exists_mapM_iff.mpr fun i _ => ⟨_,hfill⟩
  rw [shardByBatchSize,hsizes]
  simp only [Except.bind,hdedup]
  simpa [hgbs.ne',hshards,Nat.mod_eq_zero_of_dvd hdvd] using hpasses

section Training

variable (asLength : ρ → ℕ) (rng : Generator)

/-- Micro-batches that hold every row of `batch` once, each within the token budget. -/
def PacksWithin (args : SequencePackingArgs) (batch : BatchedDataDict ρ)
    (microbatches : List (BatchedDataDict ρ)) : Prop :=
  (microbatches.flatMap rowList).Perm batch.rowList ∧
    ∀ mb ∈ microbatches, ∃ lengths, mb.packableLengths asLength args.inputLengthsKey = .ok lengths ∧
      lengths.sum ≤ args.maxTokensPerMicrobatch

/-- Every optimizer step sees its global batch: the local batches with number `g` hold the rows
`g * gbs` to `(g + 1) * gbs`, and with packing each can be iterated in micro-batches. -/
def TrainsOnGlobalBatches (d : BatchedDataDict ρ) (gbs dp : ℕ)
    (packing : Option SequencePackingArgs) : Prop :=
  ∃ sharded, d.shards asLength dp (some gbs) packing = .ok sharded ∧
    ∀ g < d.size / gbs, ∃ slices, sharded.mapM (getBatch · g (gbs / dp)) = .ok slices ∧
      (slices.flatMap rowList).Perm ((d.rowList.drop (g * gbs)).take gbs) ∧
      ∀ args, packing = some args → ∀ slice ∈ slices, ∃ microbatches,
        slice.packedMicrobatches asLength rng = .ok microbatches ∧
        PacksWithin asLength args slice microbatches

theorem Uniform.getBatch_stripe (h : d.Uniform n) {gbs size chunks i : ℕ} (hsize : 0 < size)
    (hwithin : Within (stripe gbs size chunks i) n) {g : ℕ} (hg : g < chunks) :
    (d.gathered (stripe gbs size chunks i)).getBatch g size =
      .ok (d.gathered (List.range' (g * gbs + i * size) size)) := by
  have hlen : (stripe gbs size chunks i).length = chunks * size :=
    length_stripe gbs size chunks i
  have hle : g * size + size ≤ chunks * size := by
    rw [← Nat.succ_mul]
    exact Nat.mul_le_mul_right size hg
  have hshard := h.gathered hwithin
  rw [hlen] at hshard
  have hinner : Within (List.range' (g * size) size) (stripe gbs size chunks i).length := by
    intro j hj
    have hj := (List.mem_range'_1.mp hj).2
    omega
  rw [hshard.getBatch_ok hsize hle,h.gathered_gathered hwithin _ hinner,
    ← drop_take_eq_gather _ (hlen ▸ hle),take_drop_stripe hg]

theorem Uniform.trains_plain (h : d.Uniform n) {gbs dp : ℕ} (hgbs : 0 < gbs) (hn : gbs ∣ n)
    (hdp : dp ∣ gbs) : TrainsOnGlobalBatches asLength rng d gbs dp none := by
  rcases Nat.eq_zero_or_pos n with rfl | hpos
  · obtain ⟨sharded,hshards⟩ := h.shardByBatchSize_noRows hgbs hdp
    refine ⟨sharded,hshards,fun g hg => ?_⟩
    rw [h.size_eq,Nat.zero_div] at hg
    cases hg
  obtain ⟨size,hparts⟩ := hdp
  obtain ⟨chunks,hchunks⟩ := hn
  have htotal : chunks * gbs = n := by rw [Nat.mul_comm,← hchunks]
  have hdp : 0 < dp := Nat.pos_of_mul_pos_right (hparts ▸ hgbs)
  have hsize : 0 < size := Nat.pos_of_mul_pos_left (hparts ▸ hgbs)
  have hlocal : gbs / dp = size := by rw [hparts,Nat.mul_div_cancel_left _ hdp]
  have hshards := h.shardByBatchSize_stripes (some gbs) hpos hparts.symm htotal
  refine ⟨_,hshards,fun g hg => ?_⟩
  rw [h.size_eq,hchunks,Nat.mul_div_cancel_left _ hgbs] at hg
  have hslices : ((List.range dp).map fun i => d.gathered (stripe gbs size chunks i)).mapM
      (getBatch · g (gbs / dp)) =
        .ok ((List.range dp).map fun i => d.gathered (List.range' (g * gbs + i * size) size)) := by
    rw [mapM_eq_ok,List.forall₂_map_left_iff,List.forall₂_map_right_iff,List.forall₂_same]
    intro i hi
    have hwithin := within_stripe chunks hparts.symm (List.mem_range.mp hi)
    rw [htotal] at hwithin
    rw [hlocal]
    exact h.getBatch_stripe hsize hwithin hg
  have hlast : g * gbs + gbs ≤ n := by
    rw [← Nat.succ_mul,← htotal]
    exact Nat.mul_le_mul_right gbs hg
  have hrows : ((List.range dp).map fun i =>
      d.gathered (List.range' (g * gbs + i * size) size)).flatMap rowList =
        (d.rowList.drop (g * gbs)).take gbs := by
    have hpart : ∀ i ∈ List.range dp, (d.gathered (List.range' (g * gbs + i * size) size)).rowList =
        gather d.rowList (List.range' (g * gbs + i * size) size) := by
      intro i hi
      refine h.rowList_gathered fun j hj => ?_
      have hmem : j ∈ List.range' (g * gbs) gbs := by
        rw [← parts_of_chunk hparts.symm g]
        exact List.mem_flatMap.mpr ⟨i,hi,hj⟩
      have hj := (List.mem_range'_1.mp hmem).2
      omega
    have hlen : g * gbs + gbs ≤ d.rowList.length := by rwa [length_rowList,h.size_eq]
    rw [drop_take_eq_gather _ hlen,← parts_of_chunk hparts.symm g,List.flatMap_def,List.flatMap_def,
      gather_flatten,List.map_map,List.map_map]
    congr 1
    exact List.map_congr_left hpart
  exact ⟨_,hslices,.of_eq hrows,nofun⟩

theorem Uniform.not_trains_packed (h : d.Uniform n) {gbs dp : ℕ} (hgbs : 0 < gbs) (hn : gbs ∣ n)
    (hdp : dp ∣ gbs) (args : SequencePackingArgs) :
    ¬TrainsOnGlobalBatches asLength rng d gbs dp (some args) := by
  rintro ⟨sharded,hshards,hsteps⟩
  obtain ⟨r,hpacked,rfl⟩ := map_eq_ok.mp hshards
  rcases Nat.eq_zero_or_pos n with rfl | hpos
  · exact h.shardByBatchSizePacked_empty asLength dp hpacked
  obtain ⟨lengths,hlengths,-⟩ := bind_eq_ok.mp hpacked
  rw [h.shardByBatchSizePacked_ok asLength hpos (hdp.trans hn) hlengths] at hpacked
  obtain rfl := Except.ok.inj hpacked
  have hfirst : 0 < d.size / gbs := by
    rw [h.size_eq]
    exact Nat.div_pos (Nat.le_of_dvd hpos hn) hgbs
  obtain ⟨slices,hslices,-,hiterate⟩ := hsteps 0 hfirst
  have hne : slices ≠ [] := by
    have hlen := (mapM_eq_ok.mp hslices).length_eq
    have hdp := Nat.pos_of_dvd_of_pos hdp hgbs
    simp only [List.length_map,List.length_range] at hlen
    exact List.ne_nil_of_length_pos (hlen ▸ hdp)
  obtain ⟨slice,hslice⟩ := List.exists_mem_of_ne_nil slices hne
  obtain ⟨shard,-,hget⟩ := (mem_mapM_iff hslices).mp hslice
  obtain ⟨microbatches,hmicro,-⟩ := hiterate args rfl slice hslice
  obtain ⟨packs,hpacks,-⟩ := bind_eq_ok.mp hmicro
  rw [computePacks,packingArgs_getBatch hget] at hpacks
  cases hpacks

/-- Workers train on the global batches exactly when sequences are not packed. -/
theorem trainsOnGlobalBatches_iff (h : d.Uniform n) {gbs dp : ℕ} (hgbs : 0 < gbs) (hn : gbs ∣ n)
    (hdp : dp ∣ gbs) (packing : Option SequencePackingArgs) :
    TrainsOnGlobalBatches asLength rng d gbs dp packing ↔ packing = none := by
  cases packing with
  | none => exact iff_of_true (h.trains_plain asLength rng hgbs hn hdp) rfl
  | some args => exact iff_of_false (h.not_trains_packed asLength rng hgbs hn hdp args) nofun

theorem trainsOnGlobalBatches_four : TrainsOnGlobalBatches id zeroGenerator fourRows 2 2 none :=
  (trainsOnGlobalBatches_iff id zeroGenerator fourRows_uniform (by decide : 0 < 2)
    (by decide : 2 ∣ 4) (by decide : 2 ∣ 2) none).mpr rfl

/-- The first step of the packed run sees the rows 1 and 2 instead of 0 and 1, and cannot be
iterated. -/
theorem fourRows_packed_first_step :
    (∃ sharded slices, fourRows.shards id 2 (some 2) (some fourRowsArgs) = .ok sharded ∧
      sharded.mapM (getBatch · 0 1) = .ok slices ∧
      slices.map (get? · "input_ids") = [some (.list [10]),some (.list [30])] ∧
      ∀ slice ∈ slices, slice.packedMicrobatches id zeroGenerator = .error (.runtimeError
        ("Packable-sequence iteration requires a batch produced by " ++
          "shard_by_batch_size(sequence_packing_args=...)."))) ∧
    ¬TrainsOnGlobalBatches id zeroGenerator fourRows 2 2 (some fourRowsArgs) := by
  have hshards : fourRows.shards id 2 (some 2) (some fourRowsArgs) = .ok fourRowsShards := by decide
  have hslices : fourRowsShards.mapM (getBatch · 0 1) =
      .ok [ofData [("input_ids",.list [10]),("input_lengths",.tensor [1])],
        ofData [("input_ids",.list [30]),("input_lengths",.tensor [2])]] := by decide
  refine ⟨⟨_,_,hshards,hslices,rfl,?_⟩,?_⟩
  · intro slice hslice
    simp only [List.mem_cons,List.not_mem_nil,or_false] at hslice
    rcases hslice with rfl | rfl <;> rfl
  · exact fourRows_uniform.not_trains_packed id zeroGenerator (by decide) (by decide) (by decide)
      fourRowsArgs

end Training

theorem shardValue_range {v : Value ρ} (hv : v.HasRows n) {a k : ℕ} (hk : 0 < k) (h : a + k ≤ n) :
    shardValue [(a,a + k)] v = .ok (v.mapRows (gather · (List.range' a k))) := by
  obtain ⟨rows,hrows,rfl⟩ := hv
  have hread : rowsIn [(a,a + k)] rows = gather rows (List.range' a k) := by
    rw [rowsIn,List.flatMap_singleton,Nat.add_sub_cancel_left]
    exact drop_take_eq_gather rows h
  have hwithin : Within (List.range' a k) rows.length := by
    intro j hj
    have hj := (List.mem_range'_1.mp hj).2
    omega
  have hne : gather rows (List.range' a k) ≠ [] := by
    refine gather_ne_nil hwithin fun hnil => ?_
    rw [List.range'_eq_nil_iff] at hnil
    omega
  cases v <;> simp_all [Value.rows?,shardValue,Value.mapRows,Value.packedTensor]

theorem Uniform.fillShard_range (h : d.Uniform n) {a k : ℕ} (hk : 0 < k) (hle : a + k ≤ n) :
    fillShard [(a,a + k)] d.data = .ok (d.gathered (List.range' a k)) := by
  have hwithin : Within (List.range' a k) n := by
    intro j hj
    have hj := (List.mem_range'_1.mp hj).2
    omega
  have hvalues : ∀ entry ∈ d.data, shardValue [(a,a + k)] entry.2 =
      .ok (entry.2.mapRows (gather · (List.range' a k))) ∧
      (entry.2.mapRows (gather · (List.range' a k))).HasRows (List.range' a k).length := by
    intro entry hentry
    have hrows := h.rows entry hentry
    exact ⟨shardValue_range hrows hk hle,hrows.mapRows fun rows hlen =>
      length_gather (hlen ▸ hwithin)⟩
  have hfill := fill_ok empty h.keys hvalues (by simp [empty]) (.inl rfl)
  rw [if_neg h.nonempty] at hfill
  rw [fillShard,hfill]
  simp [empty,BatchedDataDict.gathered,mapRows]

theorem Uniform.fillShard_nil (h : d.Uniform n) :
    ∃ shard, fillShard [] d.data = .ok shard ∧ shard.size = 0 := by
  have hfill := fill_ok empty h.keys (fun entry hentry => shardValue_nil (h.rows entry hentry))
    (by simp [empty]) (.inl rfl)
  rw [if_neg h.nonempty] at hfill
  exact ⟨_,hfill,rfl⟩

theorem rowList_of_size_eq_zero (h : d.size = 0) : d.rowList = [] := by
  rw [rowList,h]
  rfl

theorem Uniform.fillShard_uneven (h : d.Uniform n) (size i : ℕ) :
    ∃ shard, fillShard (shardRanges n n size 1 true i) d.data = .ok shard ∧
      shard.rowList = (d.rowList.drop (i * size)).take size := by
  have hlen : d.rowList.length = n := by rw [length_rowList,h.size_eq]
  have hranges : shardRanges n n size 1 true i =
      if i * size < n ∧ 0 < size then [(i * size,i * size + min size (n - i * size))] else [] := by
    have hend : (i + 1) * size = i * size + size := Nat.succ_mul i size
    simp only [shardRanges,List.range_one,List.filterMap_cons,List.filterMap_nil,Nat.zero_mul,
      Nat.zero_add,hend,if_true]
    by_cases hcond : i * size < n ∧ 0 < size
    · have hstart : min (i * size) n = i * size := by omega
      have hstop : min (i * size + size) n = i * size + min size (n - i * size) := by omega
      have hlt : i * size < i * size + min size (n - i * size) := by omega
      rw [hstart,hstop,if_pos hlt,if_pos hcond]
    · have hge : ¬ min (i * size) n < min (i * size + size) n := by omega
      rw [if_neg hge,if_neg hcond]
  rw [hranges]
  split_ifs with hcond
  · have hk : 0 < min size (n - i * size) := by omega
    have hle : i * size + min size (n - i * size) ≤ n := by omega
    refine ⟨_,h.fillShard_range hk hle,?_⟩
    have hwithin : Within (List.range' (i * size) (min size (n - i * size))) n := by
      intro j hj
      have hj := (List.mem_range'_1.mp hj).2
      omega
    rw [h.rowList_gathered hwithin,← drop_take_eq_gather _ (by rw [hlen]; exact hle)]
    by_cases hshort : size ≤ n - i * size
    · rw [Nat.min_eq_left hshort]
    · rw [Nat.min_eq_right (by omega),List.take_of_length_le (by rw [List.length_drop]; omega),
        List.take_of_length_le (by rw [List.length_drop]; omega)]
  · obtain ⟨shard,hfill,hsize⟩ := h.fillShard_nil
    refine ⟨shard,hfill,?_⟩
    rw [rowList_of_size_eq_zero hsize]
    symm
    rcases Nat.eq_zero_or_pos size with rfl | hpos
    · exact List.take_zero
    · rw [List.drop_eq_nil_of_le (by omega),List.take_nil]

/-- Uneven shards hold consecutive rows. -/
theorem Uniform.shardByBatchSize_uneven (h : d.Uniform n) (hn : 0 < n) {shards : ℕ}
    (hshards : 0 < shards) : ∃ parts, d.shardByBatchSize shards none true = .ok parts ∧
      parts.map rowList = (List.range shards).map fun i =>
        (d.rowList.drop (i * ((n + shards - 1) / shards))).take ((n + shards - 1) / shards) := by
  obtain ⟨sizes,hsizes,hdedup⟩ := h.sizes
  have hall : ∀ i ∈ List.range shards, ∃ shard,
      fillShard (shardRanges n n ((n + shards - 1) / shards) 1 true i) d.data = .ok shard ∧
        shard.rowList = (d.rowList.drop (i * ((n + shards - 1) / shards))).take
          ((n + shards - 1) / shards) := fun i _ => h.fillShard_uneven _ i
  obtain ⟨parts,hparts,hrows⟩ := exists_mapM_forall₂ hall
  have heq : parts.map rowList = (List.range shards).map fun i =>
      (d.rowList.drop (i * ((n + shards - 1) / shards))).take ((n + shards - 1) / shards) := by
    symm
    rw [← List.forall₂_eq_eq_eq,List.forall₂_map_left_iff,List.forall₂_map_right_iff]
    exact hrows.imp fun _ _ hrow => hrow.symm
  refine ⟨parts,?_,heq⟩
  rw [shardByBatchSize,hsizes]
  simp only [Except.bind,hdedup]
  simpa [hn.ne',hshards.ne',Nat.div_self hn] using hparts

end BatchedDataDict
end Distributed
end DockyardRL
