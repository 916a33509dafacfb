import DockyardRL.Lib.Fallible
import DockyardRL.Distributed.BatchedDataDict
import DockyardRL.Packing.Correctness

/-! Sharding a batch for sequence packing, and undoing it. On a batch of rows selecting, sharding,
concatenating and reordering are all gathers, so they compose as index lists do.

Results computed inside the packed micro-batches find their rows again, whatever the bin packer
does. -/
namespace DockyardRL
namespace Distributed

open Gather Packing Fallible Stripes

variable {ρ : Type*}

theorem gather_ne_nil {rows : List ρ} {idx : List ℕ} (h : Within idx rows.length) (hne : idx ≠ []) :
    gather rows idx ≠ [] := by
  intro hnil
  have hlen := length_gather h
  rw [hnil] at hlen
  exact hne (List.eq_nil_of_length_eq_zero hlen.symm)

namespace Value

def mapRows (g : List ρ → List ρ) : Value ρ → Value ρ
  | .tensor rows => .tensor (g rows)
  | .array rows => .array (g rows)
  | .packed tensors dim => .packed (g tensors) dim
  | .list items => .list (g items)
  | .zeroDim x => .zeroDim x
  | .scalar x => .scalar x

@[simp] theorem rows?_mapRows (g : List ρ → List ρ) (v : Value ρ) :
    (v.mapRows g).rows? = v.rows?.map g := by
  cases v <;> rfl

theorem mapRows_mapRows (g h : List ρ → List ρ) (v : Value ρ) :
    (v.mapRows g).mapRows h = v.mapRows (h ∘ g) := by
  cases v <;> rfl

theorem mapRows_congr {g h : List ρ → List ρ} {v : Value ρ}
    (hrows : ∀ rows, v.rows? = some rows → g rows = h rows) : v.mapRows g = v.mapRows h := by
  cases v <;> simp_all [mapRows,rows?]

theorem mapRows_id (v : Value ρ) : v.mapRows id = v := by
  cases v <;> rfl

/-- `v` has `n` rows. -/
def HasRows (n : ℕ) (v : Value ρ) : Prop := ∃ rows, v.rows? = some rows ∧ rows.length = n

theorem hasRows_iff {n : ℕ} {v : Value ρ} : v.HasRows n ↔ v.batchDim = some n := by
  simp [HasRows,batchDim]

theorem HasRows.mapRows {n m : ℕ} {v : Value ρ} (h : v.HasRows n) {g : List ρ → List ρ}
    (hg : ∀ rows, rows.length = n → (g rows).length = m) : (v.mapRows g).HasRows m := by
  obtain ⟨rows,hrows,hlen⟩ := h
  exact ⟨g rows,by simp [hrows],hg rows hlen⟩

theorem takeRows_ok {rows : List ρ} {idx : List ℕ} (h : Within idx rows.length) :
    takeRows rows idx = .ok (gather rows idx) := by
  unfold takeRows
  induction idx with
  | nil => rfl
  | cons i idx ih =>
    have hi := h i (by simp)
    have htail : Within idx rows.length := fun j hj => h j (List.mem_cons_of_mem _ hj)
    have hrow : rowAt rows i = .ok rows[i] := by simp [rowAt,hi]
    rw [List.mapM_cons,hrow,ih htail,gather_cons hi]
    rfl

theorem packedTensor_ok {tensors : List ρ} (h : tensors ≠ []) (dim : ℤ) :
    packedTensor tensors dim = .ok (.packed tensors dim) := by
  simp [packedTensor,h]

theorem slice_ok {n : ℕ} {v : Value ρ} (hv : v.HasRows n) {idx : List ℕ} (h : Within idx n)
    (hne : idx ≠ []) : v.slice idx = .ok (v.mapRows (gather · idx)) := by
  obtain ⟨rows,hrows,rfl⟩ := hv
  have htake := takeRows_ok h
  have hgather := gather_ne_nil h hne
  cases v <;> simp_all [rows?,slice,mapRows,Except.map,Except.bind,packedTensor]

theorem eq_of_slice {n : ℕ} {v w : Value ρ} (hv : v.HasRows n) {idx : List ℕ} (h : Within idx n)
    (hslice : v.slice idx = .ok w) : w = v.mapRows (gather · idx) := by
  by_cases hne : idx = []
  · subst hne
    cases v <;> simp_all [slice,takeRows,mapRows,Except.map,Except.bind,pure,Except.pure,
      packedTensor]
  · rw [slice_ok hv h hne] at hslice
    exact (Except.ok.inj hslice).symm

end Value

namespace BatchedDataDict

/-- A batch of `n` rows: all values are batched and agree on the number of rows. -/
structure Uniform (n : ℕ) (d : BatchedDataDict ρ) : Prop where
  keys : (d.data.map Prod.fst).Nodup
  nonempty : d.data ≠ []
  rows : ∀ entry ∈ d.data, entry.2.HasRows n
  batchSize : d.batchSize = some n

def mapRows (g : List ρ → List ρ) (data : List (String × Value ρ)) : List (String × Value ρ) :=
  data.map fun entry => (entry.1,entry.2.mapRows g)

/-- The batch of the rows at `idx`. -/
def gathered (d : BatchedDataDict ρ) (idx : List ℕ) : BatchedDataDict ρ :=
  ⟨mapRows (gather · idx) d.data,some idx.length,none⟩

theorem lookup_mapRows (g : List ρ → List ρ) (data : List (String × Value ρ)) (key : String) :
    (mapRows g data).lookup key = (data.lookup key).map (Value.mapRows g) := by
  induction data with
  | nil => rfl
  | cons entry data ih =>
    rw [mapRows,List.map_cons,List.lookup_cons,List.lookup_cons]
    by_cases hkey : key = entry.1
    · simp [hkey]
    · have hbeq : (key == entry.1) = false := by simpa using hkey
      simp only [hbeq]
      exact ih

@[simp] theorem keys_mapRows (g : List ρ → List ρ) (data : List (String × Value ρ)) :
    (mapRows g data).map Prod.fst = data.map Prod.fst := by
  simp [mapRows]

@[simp] theorem mapRows_eq_nil (g : List ρ → List ρ) (data : List (String × Value ρ)) :
    mapRows g data = [] ↔ data = [] := by
  simp [mapRows]

theorem inferBatchSize_eq {n : ℕ} {data : List (String × Value ρ)} (hne : data ≠ [])
    (h : ∀ entry ∈ data, entry.2.HasRows n) : inferBatchSize data = some n := by
  cases data with
  | nil => exact absurd rfl hne
  | cons entry data =>
    have hdim := Value.hasRows_iff.mp (h entry (by simp))
    simp [inferBatchSize,hdim]

variable {n : ℕ} {d : BatchedDataDict ρ}

theorem Uniform.gathered (h : d.Uniform n) {idx : List ℕ} (hidx : Within idx n) :
    (d.gathered idx).Uniform idx.length := by
  refine ⟨?_,?_,?_,rfl⟩
  · simpa [BatchedDataDict.gathered] using h.keys
  · simpa [BatchedDataDict.gathered] using h.nonempty
  · intro entry hentry
    obtain ⟨e,he,rfl⟩ := List.mem_map.mp hentry
    exact (h.rows e he).mapRows fun rows hlen => length_gather (hlen ▸ hidx)

theorem Uniform.mapRows_congr (h : d.Uniform n) {g k : List ρ → List ρ}
    (hg : ∀ rows, rows.length = n → g rows = k rows) : mapRows g d.data = mapRows k d.data := by
  refine List.map_congr_left fun entry hentry => ?_
  obtain ⟨rows,hrows,hlen⟩ := h.rows entry hentry
  have hvalue : entry.2.mapRows g = entry.2.mapRows k := by
    refine Value.mapRows_congr fun rows' hrows' => ?_
    obtain rfl : rows = rows' := Option.some.inj (hrows.symm.trans hrows')
    exact hg rows hlen
  rw [hvalue]

theorem mapRows_mapRows (g k : List ρ → List ρ) (data : List (String × Value ρ)) :
    mapRows k (mapRows g data) = mapRows (k ∘ g) data := by
  simp [mapRows,Value.mapRows_mapRows]

theorem mapRows_id (data : List (String × Value ρ)) : mapRows id data = data := by
  simp [mapRows,Value.mapRows_id]

theorem Uniform.gathered_gathered (h : d.Uniform n) {p : List ℕ} (hp : Within p n) (q : List ℕ)
    (hq : Within q p.length) : (d.gathered p).gathered q = d.gathered (gather p q) := by
  have hdata : mapRows (gather · q) (mapRows (gather · p) d.data) =
      mapRows (gather · (gather p q)) d.data := by
    rw [mapRows_mapRows]
    exact h.mapRows_congr fun rows hlen => gather_gather (hlen ▸ hp) q
  simp [BatchedDataDict.gathered,hdata,length_gather hq]

theorem Uniform.gathered_range (h : d.Uniform n) : (d.gathered (List.range n)).data = d.data := by
  have hid : mapRows (gather · (List.range n)) d.data = mapRows id d.data :=
    h.mapRows_congr fun rows hlen => hlen ▸ gather_range rows
  rw [mapRows_id] at hid
  exact hid

theorem Uniform.infer_gathered (h : d.Uniform n) {idx : List ℕ} (hidx : Within idx n) :
    inferBatchSize (mapRows (gather · idx) d.data) = some idx.length :=
  inferBatchSize_eq (h.gathered hidx).nonempty (h.gathered hidx).rows

theorem Uniform.select_ok (h : d.Uniform n) {idx : List ℕ} (hidx : Within idx n) (hne : idx ≠ []) :
    d.select idx = .ok (d.gathered idx) := by
  have hslices : d.data.mapM (sliceEntry idx) = .ok (mapRows (gather · idx) d.data) :=
    mapM_ok fun entry hentry => by
      rw [sliceEntry,Value.slice_ok (h.rows entry hentry) hidx hne]
      rfl
  rw [select,hslices]
  simp only [Except.map,ofData,BatchedDataDict.gathered,h.infer_gathered hidx]

theorem Uniform.eq_gathered_of_select (h : d.Uniform n) {idx : List ℕ} (hidx : Within idx n)
    {e : BatchedDataDict ρ} (hselect : d.select idx = .ok e) : e = d.gathered idx := by
  obtain ⟨data,hdata,rfl⟩ := map_eq_ok.mp hselect
  have hslices : data = mapRows (gather · idx) d.data := by
    refine eq_map_of_mapM hdata fun entry hentry sliced hslice => ?_
    obtain ⟨v,hv,rfl⟩ := map_eq_ok.mp hslice
    rw [Value.eq_of_slice (h.rows entry hentry) hidx hv]
  rw [hslices]
  simp only [ofData,BatchedDataDict.gathered,h.infer_gathered hidx]

theorem reorderEntry_ok {entry : String × Value ρ} (h : entry.2.HasRows n) {idx : List ℕ}
    (hidx : Within idx n) (hne : idx ≠ []) :
    reorderEntry idx entry = .ok (entry.1,entry.2.mapRows (gather · idx)) := by
  have hdim := Value.hasRows_iff.mp h
  rw [reorderEntry,hdim,Value.slice_ok h hidx hne]
  rfl

theorem Uniform.reorderData_ok (h : d.Uniform n) {idx : List ℕ} (hidx : Within idx n)
    (hne : idx ≠ []) :
    d.reorderData idx = .ok { d.gathered idx with packingArgs := d.packingArgs } := by
  have hentries : d.data.mapM (reorderEntry idx) = .ok (mapRows (gather · idx) d.data) :=
    mapM_ok fun entry hentry => reorderEntry_ok (h.rows entry hentry) hidx hne
  rw [reorderData,hentries]
  simp only [Except.map,BatchedDataDict.gathered,h.infer_gathered hidx]

theorem assign_fresh {key : String} (value : Value ρ) {data : List (String × Value ρ)}
    (h : key ∉ data.map Prod.fst) : assign key value data = data ++ [(key,value)] := by
  induction data with
  | nil => rfl
  | cons entry data ih =>
    rw [List.map_cons,List.mem_cons,not_or] at h
    rw [assign,if_neg (Ne.symm h.1),ih h.2,List.cons_append]

theorem setItem_fresh {acc : BatchedDataDict ρ} {key : String} {value : Value ρ} {m : ℕ}
    (hkey : key ∉ acc.data.map Prod.fst) (hvalue : value.HasRows m)
    (hsize : acc.batchSize = none ∨ acc.batchSize = some m) :
    acc.setItem key value = .ok ⟨acc.data ++ [(key,value)],some m,acc.packingArgs⟩ := by
  have hdim := Value.hasRows_iff.mp hvalue
  rw [setItem,hdim]
  rcases hsize with hsize | hsize
  · simp only [hsize,assign_fresh value hkey]
  · simp [hsize,assign_fresh value hkey]

/-- Filling a shard entry by entry. -/
theorem fill_ok {ranges : List (ℕ × ℕ)} {g : Value ρ → Value ρ} {m : ℕ}
    {data : List (String × Value ρ)} (acc : BatchedDataDict ρ)
    (hkeys : (data.map Prod.fst).Nodup)
    (hvalues : ∀ entry ∈ data, shardValue ranges entry.2 = .ok (g entry.2) ∧ (g entry.2).HasRows m)
    (hfresh : ∀ key ∈ data.map Prod.fst, key ∉ acc.data.map Prod.fst)
    (hsize : acc.batchSize = none ∨ acc.batchSize = some m) :
    data.foldlM (fun shard entry =>
        (shardValue ranges entry.2).bind fun v => shard.setItem entry.1 v) acc =
      .ok ⟨acc.data ++ data.map fun entry => (entry.1,g entry.2),
        if data = [] then acc.batchSize else some m,acc.packingArgs⟩ := by
  induction data generalizing acc with
  | nil => simp [pure,Except.pure]
  | cons entry data ih =>
    obtain ⟨hhead,htail⟩ := List.nodup_cons.mp hkeys
    obtain ⟨hvalue,hrows⟩ := hvalues entry (by simp)
    have hset := setItem_fresh (hfresh entry.1 (by simp)) hrows hsize
    have hfresh' : ∀ key ∈ data.map Prod.fst,
        key ∉ (acc.data ++ [(entry.1,g entry.2)]).map Prod.fst := by
      intro key hkey
      have hold := hfresh key (List.mem_cons_of_mem _ hkey)
      have hne : key ≠ entry.1 := fun heq => hhead (heq ▸ hkey)
      rw [List.map_append,List.mem_append,not_or]
      exact ⟨hold,by simpa using hne⟩
    have hrest := ih ⟨acc.data ++ [(entry.1,g entry.2)],some m,acc.packingArgs⟩ htail
      (fun e he => hvalues e (List.mem_cons_of_mem _ he)) hfresh' (.inr rfl)
    rw [List.foldlM_cons,hvalue]
    simp only [Except.bind,bind,hset] at hrest ⊢
    rw [hrest]
    simp

theorem shardRanges_stripe {total chunk size chunks : ℕ} (hsize : 0 < size) (i : ℕ) :
    shardRanges total chunk size chunks false i =
      (List.range chunks).map fun c => (c * chunk + i * size,c * chunk + (i + 1) * size) := by
  have hlt (c : ℕ) : c * chunk + i * size < c * chunk + (i + 1) * size := by
    rw [Nat.succ_mul]
    omega
  rw [shardRanges,← List.filterMap_eq_map]
  congr 1
  funext c
  simp [hlt]

theorem rowsIn_stripe {rows : List ρ} {chunk size chunks i : ℕ}
    (h : Within (stripe chunk size chunks i) rows.length) (hsize : 0 < size) :
    rowsIn ((List.range chunks).map fun c => (c * chunk + i * size,c * chunk + (i + 1) * size)) rows =
      gather rows (stripe chunk size chunks i) := by
  have hblock : ∀ c < chunks, (rows.drop (c * chunk + i * size)).take
      (c * chunk + (i + 1) * size - (c * chunk + i * size)) =
        gather rows (List.range' (c * chunk + i * size) size) := by
    intro c hc
    have hlast : c * chunk + i * size + size - 1 ∈ stripe chunk size chunks i :=
      List.mem_flatMap.mpr ⟨c,List.mem_range.mpr hc,List.mem_range'_1.mpr ⟨by omega,by omega⟩⟩
    have hbound := h _ hlast
    rw [Nat.succ_mul,← Nat.add_assoc,Nat.add_sub_cancel_left]
    exact drop_take_eq_gather rows (by omega)
  rw [rowsIn,List.flatMap_map,stripe,List.flatMap_def,List.flatMap_def,gather_flatten,List.map_map]
  congr 1
  exact List.map_congr_left fun c hc => hblock c (List.mem_range.mp hc)

theorem shardValue_stripe {v : Value ρ} (hv : v.HasRows n) {chunk size chunks i : ℕ}
    (hsize : 0 < size) (hchunks : 0 < chunks) (h : Within (stripe chunk size chunks i) n) :
    shardValue ((List.range chunks).map fun c =>
        (c * chunk + i * size,c * chunk + (i + 1) * size)) v =
      .ok (v.mapRows (gather · (stripe chunk size chunks i))) := by
  obtain ⟨rows,hrows,rfl⟩ := hv
  have hread := rowsIn_stripe h hsize
  have hne : gather rows (stripe chunk size chunks i) ≠ [] := by
    refine gather_ne_nil h fun hnil => ?_
    have hlen := length_stripe chunk size chunks i
    rw [hnil,List.length_nil] at hlen
    exact (Nat.mul_pos hchunks hsize).ne hlen
  cases v <;> simp_all [Value.rows?,shardValue,Value.mapRows,Value.packedTensor,hchunks.ne']

theorem Uniform.fillShard_stripe (h : d.Uniform n) {chunk size chunks i : ℕ} (hsize : 0 < size)
    (hchunks : 0 < chunks) (hwithin : Within (stripe chunk size chunks i) n) :
    fillShard ((List.range chunks).map fun c =>
        (c * chunk + i * size,c * chunk + (i + 1) * size)) d.data =
      .ok (d.gathered (stripe chunk size chunks i)) := by
  have hvalues : ∀ entry ∈ d.data, shardValue ((List.range chunks).map fun c =>
      (c * chunk + i * size,c * chunk + (i + 1) * size)) entry.2 =
        .ok (entry.2.mapRows (gather · (stripe chunk size chunks i))) ∧
      (entry.2.mapRows (gather · (stripe chunk size chunks i))).HasRows
        (stripe chunk size chunks i).length := by
    intro entry hentry
    have hrows := h.rows entry hentry
    exact ⟨shardValue_stripe hrows hsize hchunks hwithin,
      hrows.mapRows fun rows hlen => length_gather (hlen ▸ hwithin)⟩
  have hfill := fill_ok empty h.keys hvalues (by simp [empty]) (.inl rfl)
  rw [if_neg h.nonempty] at hfill
  rw [fillShard,hfill]
  simp [empty,BatchedDataDict.gathered,mapRows]

theorem shardDim_ok {v : Value ρ} (h : v.HasRows n) : shardDim v = .ok n := by
  obtain ⟨rows,hrows,rfl⟩ := h
  cases v <;> simp_all [Value.rows?,shardDim,Value.batchDim]

/-- All fields report the same size. -/
theorem Uniform.sizes (h : d.Uniform n) :
    ∃ sizes, (d.data.map Prod.snd).mapM shardDim = .ok sizes ∧ sizes.dedup = [n] := by
  have hlen : (d.data.map Prod.snd).length ≠ 0 := by simpa using h.nonempty
  refine ⟨(d.data.map Prod.snd).map fun _ => n,mapM_ok fun v hv => ?_,?_⟩
  · obtain ⟨entry,hentry,rfl⟩ := List.mem_map.mp hv
    exact shardDim_ok (h.rows entry hentry)
  · rw [List.map_const',List.replicate_dedup hlen]

/-- Sharding a batch deals its chunks out in stripes. -/
theorem Uniform.shardByBatchSize_stripes (h : d.Uniform n) {shards chunks size : ℕ}
    (batchSize : Option ℕ) (hn : 0 < n) (hchunk : shards * size = batchSize.getD n)
    (htotal : chunks * batchSize.getD n = n) :
    d.shardByBatchSize shards batchSize false = .ok ((List.range shards).map fun i =>
      d.gathered (stripe (batchSize.getD n) size chunks i)) := by
  have hchunks : 0 < chunks := Nat.pos_of_mul_pos_right (htotal ▸ hn)
  have hpos : 0 < batchSize.getD n := Nat.pos_of_mul_pos_left (htotal ▸ hn)
  have hshards : 0 < shards := Nat.pos_of_mul_pos_right (hchunk ▸ hpos)
  have hsize : 0 < size := Nat.pos_of_mul_pos_left (hchunk ▸ hpos)
  obtain ⟨sizes,hsizes,hdedup⟩ := h.sizes
  have hparts : batchSize.getD n / shards = size := by
    rw [← hchunk,Nat.mul_div_cancel_left _ hshards]
  have hnum : n / batchSize.getD n = chunks := by
    rw [← Nat.mul_div_cancel chunks hpos,htotal]
  have hmod : n % batchSize.getD n = 0 :=
    Nat.mod_eq_zero_of_dvd ⟨chunks,by rw [Nat.mul_comm]; exact htotal.symm⟩
  have hmod' : batchSize.getD n % shards = 0 := Nat.mod_eq_zero_of_dvd ⟨size,hchunk.symm⟩
  have hfill : (List.range shards).mapM (fun shardIdx =>
      fillShard (shardRanges n (batchSize.getD n) size chunks false shardIdx) d.data) =
        .ok ((List.range shards).map fun i =>
          d.gathered (stripe (batchSize.getD n) size chunks i)) := by
    refine mapM_ok fun i hi => ?_
    have hwithin := within_stripe chunks hchunk (List.mem_range.mp hi)
    rw [htotal] at hwithin
    rw [shardRanges_stripe hsize]
    exact h.fillShard_stripe hsize hchunks hwithin
  rw [shardByBatchSize,hsizes]
  simp only [Except.bind,hdedup]
  simp [hpos.ne',hshards.ne',hmod,hmod',hparts,hnum,hfill]

theorem Uniform.shardByBatchSize_ok (h : d.Uniform n) {shards : ℕ} (hn : 0 < n)
    (hdvd : shards ∣ n) :
    d.shardByBatchSize shards none false = .ok ((List.range shards).map fun i =>
      d.gathered (List.range' (i * (n / shards)) (n / shards))) := by
  have hstripes := h.shardByBatchSize_stripes none hn (Nat.mul_div_cancel' hdvd)
    (Nat.one_mul n)
  have hblock (i : ℕ) : stripe n (n / shards) 1 i = List.range' (i * (n / shards)) (n / shards) := by
    simp [stripe]
  simp only [Option.getD_none,hblock] at hstripes
  exact hstripes

theorem Uniform.shardByBatchSize_empty (h : d.Uniform 0) (shards : ℕ) :
    d.shardByBatchSize shards none false = .error .zeroDivisionError := by
  obtain ⟨sizes,hsizes,hdedup⟩ := h.sizes
  rw [shardByBatchSize,hsizes]
  simp only [Except.bind,hdedup]
  rfl

theorem concatValues_ok {v : Value ρ} (hv : v.HasRows n) {ps : List (List ℕ)}
    (hwithin : Within ps.flatten n) (hne : ps.flatten ≠ []) :
    concatValues (ps.map fun p => v.mapRows (gather · p)) = .ok (v.mapRows (gather · ps.flatten)) := by
  obtain ⟨rows,hrows,rfl⟩ := hv
  cases ps with
  | nil => exact absurd rfl hne
  | cons p ps =>
    have hjoin : gather rows p ++ (ps.map (gather rows)).flatten = gather rows (p :: ps).flatten := by
      rw [List.flatten_cons,gather_append,gather_flatten]
    have hrest {f : Value ρ → Except BatchError (List ρ)}
        (hf : ∀ q, f (v.mapRows (gather · q)) = .ok (gather rows q)) :
        (ps.map fun q => v.mapRows (gather · q)).mapM f = .ok (ps.map (gather rows)) := by
      rw [mapM_eq_ok,List.forall₂_map_left_iff,List.forall₂_map_right_iff,List.forall₂_same]
      exact fun q _ => hf q
    cases v with
    | tensor rows' =>
      obtain rfl : rows' = rows := Option.some.inj hrows
      have hpass := hrest (f := tensorRows) fun _ => rfl
      simp only [List.map_cons,Value.mapRows] at hpass ⊢
      rw [concatValues,hpass,Except.map,hjoin]
    | array rows' =>
      obtain rfl : rows' = rows := Option.some.inj hrows
      have hpass := hrest (f := anyRows) fun _ => rfl
      simp only [List.map_cons,Value.mapRows] at hpass ⊢
      rw [concatValues,hpass,Except.map,hjoin]
    | packed tensors dim =>
      obtain rfl : tensors = rows := Option.some.inj hrows
      have hpass := hrest (f := packedRows dim) fun q => by simp [Value.mapRows,packedRows]
      simp only [List.map_cons,Value.mapRows] at hpass ⊢
      rw [concatValues,hpass,Except.bind,hjoin]
      exact Value.packedTensor_ok (gather_ne_nil hwithin hne) dim
    | list items =>
      obtain rfl : items = rows := Option.some.inj hrows
      have hpass := hrest (f := anyRows) fun _ => rfl
      simp only [List.map_cons,Value.mapRows] at hpass ⊢
      rw [concatValues,hpass,Except.map,hjoin]
    | zeroDim x => cases hrows
    | scalar x => cases hrows

theorem lookup_of_mem {data : List (String × Value ρ)} (h : (data.map Prod.fst).Nodup)
    {entry : String × Value ρ} (hmem : entry ∈ data) : data.lookup entry.1 = some entry.2 := by
  induction data with
  | nil => cases hmem
  | cons head data ih =>
    obtain ⟨hhead,htail⟩ := List.nodup_cons.mp h
    rcases List.mem_cons.mp hmem with rfl | hmem
    · rw [List.lookup_cons,beq_self_eq_true]
    · have hkey : entry.1 ∈ data.map Prod.fst := List.mem_map_of_mem hmem
      have hne : (entry.1 == head.1) = false :=
        beq_eq_false_iff_ne.mpr fun heq : entry.1 = head.1 => hhead (heq ▸ hkey)
      rw [List.lookup_cons,hne]
      exact ih htail hmem

/-- The batch of the rows at `idx` as a shard of a packed sharding. -/
def tagged (args : Option SequencePackingArgs) (d : BatchedDataDict ρ) (idx : List ℕ) :
    BatchedDataDict ρ :=
  { d.gathered idx with packingArgs := args }

theorem sameKeys_tagged (args : Option SequencePackingArgs) (p q : List ℕ) :
    (tagged args d p).sameKeys (tagged args d q) = true := by
  have hall (p q : List ℕ) : (tagged args d p).data.all
      (fun entry => ((tagged args d q).get? entry.1).isSome) = true := by
    rw [List.all_eq_true]
    intro entry hentry
    obtain ⟨e,he,rfl⟩ := List.mem_map.mp hentry
    rw [get?,List.lookup_isSome_iff]
    exact ⟨(e.1,e.2.mapRows (gather · q)),List.mem_map_of_mem he,by simp⟩
  rw [sameKeys,hall,hall,Bool.and_self]

theorem Uniform.concat_ok (h : d.Uniform n) (args : Option SequencePackingArgs)
    {ps : List (List ℕ)} (hwithin : Within ps.flatten n) (hne : ps.flatten ≠ []) :
    concat (ps.map (tagged args d)) = .ok (d.gathered ps.flatten) := by
  have hentries : (d.data.map Prod.fst).mapM (concatEntry (ps.map (tagged args d))) =
      .ok (mapRows (gather · ps.flatten) d.data) := by
    rw [mapM_eq_ok,mapRows,List.forall₂_map_left_iff,List.forall₂_map_right_iff,List.forall₂_same]
    intro entry hentry
    have hvalues : (ps.map (tagged args d)).mapM (getItem · entry.1) =
        .ok (ps.map fun p => entry.2.mapRows (gather · p)) := by
      rw [mapM_eq_ok,List.forall₂_map_left_iff,List.forall₂_map_right_iff,List.forall₂_same]
      intro p _
      simp [getItem,get?,tagged,BatchedDataDict.gathered,lookup_mapRows,lookup_of_mem h.keys hentry]
    rw [concatEntry,hvalues,Except.bind,concatValues_ok (h.rows entry hentry) hwithin hne]
    rfl
  have hcollect : ofData (mapRows (gather · ps.flatten) d.data) = d.gathered ps.flatten := by
    simp only [ofData,BatchedDataDict.gathered,h.infer_gathered hwithin]
  cases ps with
  | nil => exact absurd rfl hne
  | cons p ps =>
    cases ps with
    | nil =>
      rw [List.flatten_singleton] at hcollect
      rw [List.map_singleton,concat,List.flatten_singleton,copy]
      exact congrArg Except.ok hcollect
    | cons q ps =>
      have hsame : ((q :: ps).map (tagged args d)).findIdx?
          (fun e => !(tagged args d p).sameKeys e) = none := by
        rw [List.findIdx?_eq_none_iff]
        intro e he
        obtain ⟨r,-,rfl⟩ := List.mem_map.mp he
        rw [sameKeys_tagged,Bool.not_true]
      have hkeys : (tagged args d p).data.map Prod.fst = d.data.map Prod.fst :=
        keys_mapRows _ _
      simp only [List.map_cons] at hsame hentries ⊢
      rw [concat,hsame]
      · simp only [hkeys,hentries]
        exact congrArg Except.ok hcollect
      · simp

section Packing

variable (asLength : ρ → ℕ) (rng : Generator) {args : SequencePackingArgs}

theorem sortOrder_perm (lengths : List ℕ) :
    (sortOrder lengths).Perm (List.range lengths.length) := List.perm_insertionSort _ _

theorem packableLengths_length {n : ℕ} {d : BatchedDataDict ρ} (h : d.Uniform n) {key : String}
    {lengths : List ℕ} (hlengths : d.packableLengths asLength key = .ok lengths) :
    lengths.length = n := by
  obtain ⟨v,hv,hread⟩ := bind_eq_ok.mp hlengths
  rw [getItem] at hv
  split at hv
  · rename_i v' hget
    obtain rfl := Except.ok.inj hv
    obtain ⟨l₁,l₂,hdata,-⟩ := List.lookup_eq_some_iff.mp hget
    obtain ⟨rows,hrows,rfl⟩ := h.rows (key,v') (by rw [hdata]; simp)
    cases v' <;> simp_all [Value.rows?] <;> rw [← hread,List.length_map]
  · cases hv

/-- What the packed sharding returns: the blocks of the rows in order of length. -/
theorem Uniform.shardByBatchSizePacked_ok (h : d.Uniform n) {shards : ℕ} (hn : 0 < n)
    (hdvd : shards ∣ n) {lengths : List ℕ}
    (hlengths : d.packableLengths asLength args.inputLengthsKey = .ok lengths) :
    d.shardByBatchSizePacked asLength shards args = .ok
      (((List.range shards).map fun i => List.range' (i * (n / shards)) (n / shards)).map
        (tagged (some args) (d.gathered (sortOrder lengths))),inverse (sortOrder lengths)) := by
  have hlen := packableLengths_length asLength h hlengths
  have hperm : (sortOrder lengths).Perm (List.range n) := hlen ▸ sortOrder_perm lengths
  have hsize : (sortOrder lengths).length = n := by rw [hperm.length_eq,List.length_range]
  have hne : sortOrder lengths ≠ [] := fun hnil => by
    rw [hnil,List.length_nil] at hsize
    omega
  have hsorted := h.gathered (within_perm hperm)
  rw [hsize] at hsorted
  rw [shardByBatchSizePacked,hlengths]
  simp only [Except.bind,h.select_ok (within_perm hperm) hne,hsorted.shardByBatchSize_ok hn hdvd,
    Except.map,List.map_map]
  rfl

theorem Uniform.shardByBatchSizePacked_empty (h : d.Uniform 0) (shards : ℕ)
    {r : List (BatchedDataDict ρ) × List ℕ} :
    d.shardByBatchSizePacked asLength shards args ≠ .ok r := by
  intro hok
  obtain ⟨lengths,hlengths,hok⟩ := bind_eq_ok.mp hok
  have hlen := packableLengths_length asLength h hlengths
  obtain rfl := List.eq_nil_of_length_eq_zero hlen
  obtain ⟨reordered,hselect,hok⟩ := bind_eq_ok.mp hok
  obtain ⟨shardList,hshards,-⟩ := map_eq_ok.mp hok
  have hwithin : Within (sortOrder []) 0 := within_perm (sortOrder_perm [])
  have hempty : (d.gathered (sortOrder [])).Uniform 0 := h.gathered hwithin
  rw [h.eq_gathered_of_select hwithin hselect,hempty.shardByBatchSize_empty] at hshards
  cases hshards

end Packing

open BinPacking

variable {σ : Type*}

theorem Uniform.size_eq (h : d.Uniform n) : d.size = n := by
  rw [size,h.batchSize,Option.getD_some]

@[simp] theorem length_rowList (d : BatchedDataDict ρ) : d.rowList.length = d.size := by
  simp [rowList]

theorem Uniform.row_gathered (h : d.Uniform n) {idx : List ℕ} (hidx : Within idx n) {j i : ℕ}
    (hj : idx[j]? = some i) : (d.gathered idx).row j = d.row i := by
  funext key
  simp only [row,get?,BatchedDataDict.gathered,lookup_mapRows]
  cases hlookup : d.data.lookup key with
  | none => rfl
  | some v =>
    obtain ⟨l₁,l₂,hdata,-⟩ := List.lookup_eq_some_iff.mp hlookup
    obtain ⟨rows,hrows,rfl⟩ := h.rows (key,v) (by rw [hdata]; simp)
    simp only [Option.map_some,Option.bind_some,Value.rows?_mapRows] at hrows ⊢
    rw [hrows,Option.map_some,Option.bind_some,Option.bind_some,getElem?_gather hidx,hj,
      Option.bind_some]

/-- The rows of a gathered batch are the gathered rows. -/
theorem Uniform.rowList_gathered (h : d.Uniform n) {idx : List ℕ} (hidx : Within idx n) :
    (d.gathered idx).rowList = gather d.rowList idx := by
  have hlen : d.rowList.length = n := by rw [length_rowList,h.size_eq]
  refine List.ext_getElem? fun j => ?_
  rw [getElem?_gather (by rw [hlen]; exact hidx)]
  have hsize : (d.gathered idx).size = idx.length := rfl
  cases hj : idx[j]? with
  | none =>
    have hout := List.getElem?_eq_none_iff.mp hj
    rw [Option.bind_none,List.getElem?_eq_none (by rw [length_rowList,hsize]; exact hout)]
  | some i =>
    have hin : j < idx.length := (List.getElem?_eq_some_iff.mp hj).1
    have hi : i < n := hidx i (List.mem_of_getElem? hj)
    simp [rowList,hsize,h.size_eq,hin,hi,h.row_gathered hidx hj]

theorem Uniform.round_trip (h : d.Uniform n) (hn : 0 < n) (args : Option SequencePackingArgs)
    {order : List ℕ} (hperm : order.Perm (List.range n)) {parts : List (List ℕ)}
    (hparts : parts.flatten = List.range n) :
    ∃ gathered restored, concat (parts.map (tagged args (d.gathered order))) = .ok gathered ∧
      gathered.reorderData (inverse order) = .ok restored ∧ restored.data = d.data := by
  have hlen : order.length = n := by rw [hperm.length_eq,List.length_range]
  have hwithin := within_perm hperm
  have hsorted : (d.gathered order).Uniform n := hlen ▸ h.gathered hwithin
  have hall : Within (List.range n) n := fun i hi => List.mem_range.mp hi
  have hne : parts.flatten ≠ [] := by
    rw [hparts,Ne,List.range_eq_nil]
    omega
  have hconcat := hsorted.concat_ok args (hparts ▸ hall) hne
  have hback : (d.gathered order).gathered (List.range n) = d.gathered order := by
    have hread : gather order (List.range n) = order := hlen ▸ gather_range order
    rw [h.gathered_gathered hwithin _ (hlen ▸ hall),hread]
  rw [hparts,hback] at hconcat
  have hinv := within_perm (inverse_perm hperm)
  have hinvne : inverse order ≠ [] := fun hnil => by
    have hinverse := (inverse_perm hperm).length_eq
    rw [hnil,List.length_nil,List.length_range] at hinverse
    omega
  refine ⟨_,_,hconcat,hsorted.reorderData_ok hinv hinvne,?_⟩
  have hrange := h.gathered_gathered hwithin (inverse order) (hlen ▸ hinv)
  rw [gather_inverse hperm] at hrange
  calc ((d.gathered order).gathered (inverse order)).data
      = (d.gathered (List.range n)).data := by rw [hrange]
    _ = d.data := h.gathered_range

section Packing

variable (asLength : ρ → ℕ) (rng : Generator)

theorem Uniform.computePacks_packs (h : d.Uniform n) {packs : PackList}
    (hpacks : d.computePacks asLength rng = .ok packs) : Packs (List.range n) packs := by
  rw [computePacks] at hpacks
  split at hpacks
  · cases hpacks
  · rename_i args hargs
    obtain ⟨lengths,hlengths,hpacks⟩ := bind_eq_ok.mp hpacks
    have hlen := packableLengths_length asLength h hlengths
    split at hpacks
    · cases hpacks
    · rename_i packs' hrun
      have hsorted := Except.ok.inj hpacks
      have hperm : packs.Perm packs' := hsorted ▸ List.perm_insertionSort _ _
      have hpacked := packSequences_packs hrun
      rw [hlen] at hpacked
      exact ⟨fun p hp => hpacked.nonempty p (hperm.mem_iff.mp hp),hperm.flatten.trans hpacked.perm⟩

theorem Uniform.shardResults_eq (h : d.Uniform n) {f : (String → Option ρ) → σ}
    {emptyLike : List σ → List σ} (hempty : ∀ l, (emptyLike l).length = l.length) {results : List σ}
    (hresults : d.shardResults asLength rng f emptyLike = .ok results) :
    results = d.rowList.map f := by
  obtain ⟨microbatches,hmicro,hrestore⟩ := bind_eq_ok.mp hresults
  obtain ⟨packs,hpacks,hselect⟩ := bind_eq_ok.mp hmicro
  have hpacked := h.computePacks_packs asLength rng hpacks
  have hwithin : ∀ p ∈ packs, Within p n := fun p hp i hi =>
    List.mem_range.mp (hpacked.perm.mem_iff.mp (List.mem_flatten_of_mem hp hi))
  have hmicro : microbatches = packs.map d.gathered :=
    eq_map_of_mapM hselect fun p hp e he => h.eq_gathered_of_select (hwithin p hp) he
  have houtputs : microbatches.flatMap (fun microbatch => microbatch.rowList.map f) =
      gather (d.rowList.map f) packs.flatten := by
    rw [hmicro,gather_flatten,List.flatMap_map,List.flatMap_def]
    congr 1
    refine List.map_congr_left fun p hp => ?_
    rw [h.rowList_gathered (hwithin p hp),gather_map]
  have hperm : packs.flatten.Perm (List.range (d.rowList.map f).length) := by
    rw [List.length_map,length_rowList,h.size_eq]
    exact hpacked.perm
  have hlen : (gather (d.rowList.map f) packs.flatten).length = (d.rowList.map f).length :=
    (gather_perm hperm).length_eq
  simp only [houtputs,restorePackedRowOrder,getPackableSequenceOrder,hpacks,Except.map,
    Except.bind] at hrestore
  split at hrestore
  · cases hrestore
  · rw [← Except.ok.inj hrestore]
    exact scatter_gather hperm (by rw [hempty,hlen])

/-- The blocks of a sharding cover the rows in order. -/
theorem flatten_shards {shards : ℕ} (hdvd : shards ∣ n) :
    ((List.range shards).map fun i => List.range' (i * (n / shards)) (n / shards)).flatten =
      List.range n := by
  rw [flatten_range',Nat.mul_div_cancel' hdvd]

theorem uniform_results (key : String) (rows : List σ) :
    (ofData [(key,Value.tensor rows)]).Uniform rows.length := by
  refine ⟨by simp [ofData],by simp [ofData],?_,rfl⟩
  intro entry hentry
  obtain rfl : entry = (key,.tensor rows) := by simpa [ofData] using hentry
  exact ⟨rows,rfl,rfl⟩

theorem ofData_part (key : String) {rows : List σ} {order p : List ℕ}
    (horder : Within order rows.length) (hp : Within p order.length) :
    ofData [(key,Value.tensor (gather (gather rows order) p))] =
      tagged none ((ofData [(key,Value.tensor rows)]).gathered order) p := by
  have hsize : (gather (gather rows order) p).length = p.length :=
    length_gather (by rw [length_gather horder]; exact hp)
  simp [ofData,inferBatchSize,Value.batchDim,Value.rows?,tagged,BatchedDataDict.gathered,mapRows,
    Value.mapRows,hsize]

theorem Uniform.results_eq (h : d.Uniform n) {order : List ℕ} (hperm : order.Perm (List.range n))
    (args : Option SequencePackingArgs) {parts : List (List ℕ)}
    (hparts : parts.flatten = List.range n) {f : (String → Option ρ) → σ}
    {emptyLike : List σ → List σ} (hempty : ∀ l, (emptyLike l).length = l.length)
    {results : List (List σ)}
    (hresults : (parts.map (tagged args (d.gathered order))).mapM
      (shardResults asLength rng f emptyLike) = .ok results) :
    results = parts.map (gather (gather (d.rowList.map f) order)) := by
  have hlen : order.length = n := by rw [hperm.length_eq,List.length_range]
  have hwithin := within_perm hperm
  have hsorted : (d.gathered order).Uniform n := hlen ▸ h.gathered hwithin
  have hpart : ∀ p ∈ parts, Within p n := fun p hp i hi =>
    List.mem_range.mp (hparts ▸ List.mem_flatten_of_mem hp hi)
  rw [mapM_eq_ok,List.forall₂_map_left_iff,← mapM_eq_ok] at hresults
  refine eq_map_of_mapM hresults fun p hp rows hrows => ?_
  have hshard : (tagged args (d.gathered order) p).Uniform p.length := by
    obtain ⟨hkeys,hne,hall,hsize⟩ := hsorted.gathered (hpart p hp)
    exact ⟨hkeys,hne,hall,hsize⟩
  have hlist : (tagged args (d.gathered order) p).rowList = gather (gather d.rowList order) p := by
    rw [← h.rowList_gathered hwithin,← hsorted.rowList_gathered (hpart p hp)]
    rfl
  rw [hshard.shardResults_eq asLength rng hempty hrows,hlist,gather_map,gather_map]

/-- Gathering the shards and reordering gives the batch back, and results computed per packed
micro-batch arrive at the rows they were computed for. -/
theorem packed_sharding_undone (h : d.Uniform n) {shards : ℕ} (hdvd : shards ∣ n)
    {args : SequencePackingArgs} {lengths : List ℕ}
    (hlengths : d.packableLengths asLength args.inputLengthsKey = .ok lengths)
    (f : (String → Option ρ) → σ) (emptyLike : List σ → List σ)
    (hempty : ∀ l, (emptyLike l).length = l.length) (key : String) :
    (0 < n → ∃ r, d.shardByBatchSizePacked asLength shards args = .ok r) ∧
    ∀ shardList unsortedDataIndices,
      d.shardByBatchSizePacked asLength shards args = .ok (shardList,unsortedDataIndices) →
      (∃ gathered restored, concat shardList = .ok gathered ∧
        gathered.reorderData unsortedDataIndices = .ok restored ∧
        ∀ field, restored.get? field = d.get? field) ∧
      ∀ results, shardList.mapM (shardResults asLength rng f emptyLike) = .ok results →
        ∃ restored, gatherResults key results unsortedDataIndices = .ok restored ∧
          restored.get? key = some (.tensor (d.rowList.map f)) := by
  refine ⟨fun hn => ⟨_,h.shardByBatchSizePacked_ok asLength hn hdvd hlengths⟩,?_⟩
  intro shardList unsortedDataIndices hshards
  rcases Nat.eq_zero_or_pos n with rfl | hn
  · exact absurd hshards (h.shardByBatchSizePacked_empty asLength shards)
  rw [h.shardByBatchSizePacked_ok asLength hn hdvd hlengths] at hshards
  obtain ⟨rfl,rfl⟩ := Prod.mk.inj (Except.ok.inj hshards)
  have hlen := packableLengths_length asLength h hlengths
  have hperm : (sortOrder lengths).Perm (List.range n) := hlen ▸ sortOrder_perm lengths
  refine ⟨?_,?_⟩
  · obtain ⟨gathered,restored,hconcat,hreorder,hdata⟩ :=
      h.round_trip hn (some args) hperm (flatten_shards hdvd)
    exact ⟨gathered,restored,hconcat,hreorder,fun field => by rw [get?,hdata,get?]⟩
  · intro results hresults
    have hrows : (d.rowList.map f).length = n := by rw [List.length_map,length_rowList,h.size_eq]
    have hbatch := uniform_results key (d.rowList.map f)
    rw [hrows] at hbatch
    have hparts := h.results_eq asLength rng hperm (some args) (flatten_shards hdvd) hempty hresults
    obtain ⟨gathered,restored,hconcat,hreorder,hdata⟩ :=
      hbatch.round_trip hn none hperm (flatten_shards hdvd)
    have hresult : results.map (fun rows => ofData [(key,Value.tensor rows)]) =
        ((List.range shards).map fun i => List.range' (i * (n / shards)) (n / shards)).map
          (tagged none ((ofData [(key,Value.tensor (d.rowList.map f))]).gathered
            (sortOrder lengths))) := by
      rw [hparts,List.map_map]
      refine List.map_congr_left fun p hp => ofData_part key ?_ fun i hi => ?_
      · rw [hrows]
        exact within_perm hperm
      · have hmem := List.mem_flatten_of_mem hp hi
        rw [flatten_shards hdvd] at hmem
        rw [hperm.length_eq,List.length_range]
        exact List.mem_range.mp hmem
    refine ⟨restored,?_,?_⟩
    · rw [gatherResults,hresult,hconcat]
      exact hreorder
    · rw [get?,hdata]
      simp [ofData]

def fourRows : BatchedDataDict ℕ :=
  ofData [("input_ids",.list [40,10,30,20]),("input_lengths",.tensor [3,1,2,1])]

def fourRowsArgs : SequencePackingArgs := ⟨3,"input_lengths",some "ffd"⟩

theorem fourRows_uniform : fourRows.Uniform 4 :=
  ⟨by decide,by decide,fun entry hentry => Value.hasRows_iff.mpr (by revert entry; decide),rfl⟩

def fourRowsShards : List (BatchedDataDict ℕ) :=
  [⟨[("input_ids",.list [10,20]),("input_lengths",.tensor [1,1])],some 2,some fourRowsArgs⟩,
    ⟨[("input_ids",.list [30,40]),("input_lengths",.tensor [2,3])],some 2,some fourRowsArgs⟩]

theorem packed_sharding_undone_four :
    fourRows.shardByBatchSizePacked id 2 fourRowsArgs = .ok (fourRowsShards,[3,0,2,1]) ∧
      ∃ restored, gatherResults "logprobs" [[some 10,some 20],[some 30,some 40]] [3,0,2,1] =
          .ok restored ∧
        restored.get? "logprobs" = some (.tensor (fourRows.rowList.map fun row => row "input_ids")) := by
  have hlengths : fourRows.packableLengths id fourRowsArgs.inputLengthsKey = .ok [3,1,2,1] := rfl
  have hall := packed_sharding_undone id zeroGenerator fourRows_uniform (by decide : 2 ∣ 4) hlengths
    (fun row => row "input_ids") id (fun _ => rfl) "logprobs"
  have hshards : fourRows.shardByBatchSizePacked id 2 fourRowsArgs =
      .ok (fourRowsShards,[3,0,2,1]) := by decide
  have hresults : fourRowsShards.mapM (shardResults id zeroGenerator (fun row => row "input_ids") id) =
      .ok [[some 10,some 20],[some 30,some 40]] := by decide
  exact ⟨hshards,(hall.2 _ _ hshards).2 _ hresults⟩

end Packing

end BatchedDataDict
end Distributed
end DockyardRL
