import DockyardRL.Distributed.GlobalBatches

/-! The workers of the inference fleet: the bundles that are tied together, the leaders of these
groups, and a batch that is generated by the leaders.

When the tied groups are the replicas of the model, and a batch comes back complete. -/
namespace DockyardRL
namespace Generation

section

open Distributed

/-- A cluster of equal nodes, and how one replica of the model is spread. -/
structure Fleet where
  nodeCount : ℕ
  gpusPerNode : ℕ
  tensorParallelSize : ℕ
  pipelineParallelSize : ℕ
  nodeCount_pos : 0 < nodeCount
  gpusPerNode_pos : 0 < gpusPerNode
  tensorParallelSize_pos : 0 < tensorParallelSize
  pipelineParallelSize_pos : 0 < pipelineParallelSize
  replicas : tensorParallelSize * pipelineParallelSize ∣ nodeCount * gpusPerNode

abbrev Bundle := ℕ × ℕ

abbrev TiedGroup := ℕ × List ℕ

def TiedGroup.bundles (group : TiedGroup) : List Bundle := group.2.map fun bundle => (group.1,bundle)

namespace Fleet

variable (fleet : Fleet)

def modelParallelSize : ℕ := fleet.tensorParallelSize * fleet.pipelineParallelSize

def worldSize : ℕ := fleet.nodeCount * fleet.gpusPerNode

def dpSize : ℕ := fleet.worldSize / fleet.modelParallelSize

/-- The placement groups of the cluster: none yet, one for each node, or a single one with its
bundles in the order of the hardware. In that, each bundle is on some node. -/
inductive Placement
  | fresh
  | perNode
  | unified (sorted : List ℕ) (nodup : sorted.Nodup) (inside : ∀ i ∈ sorted, i < fleet.worldSize)
    (node : ℕ → ℕ) (node_lt : ∀ i, node i < fleet.nodeCount)

variable {fleet}

/-- The number of bundles in each group of `get_placement_groups`. -/
def Placement.groups : fleet.Placement → List ℕ
  | fresh | perNode => List.replicate fleet.nodeCount fleet.gpusPerNode
  | unified _ _ _ _ _ => [fleet.worldSize]

def Placement.sortedBundleIndices : fleet.Placement → Option (List ℕ)
  | fresh | perNode => none
  | unified sorted _ _ _ _ => some sorted

def Placement.nodeOf : fleet.Placement → Bundle → ℕ
  | fresh, bundle | perNode, bundle => bundle.1
  | unified _ _ _ node _, bundle => node bundle.2

def Placement.bundles (placement : fleet.Placement) : List Bundle :=
  (List.range placement.groups.length).flatMap fun pg =>
    (List.range (placement.groups.getD pg 0)).map fun bundle => (pg,bundle)

variable (fleet)

/-- `requires_unified_placement_group`. -/
def crossNodeTp : Bool := fleet.gpusPerNode < fleet.tensorParallelSize

def fullChunks (size : ℕ) (indices : List ℕ) : List (List ℕ) :=
  (List.range ((indices.length + size - 1) / size)).filterMap fun k =>
    let chunk := (indices.drop (k * size)).take size
    if chunk.length = size then some chunk else none

/-- `VllmGeneration._build_bundle_indices`; the error is the failed assertion. -/
def buildBundleIndices (placement : fleet.Placement) : Except BatchError (List TiedGroup) :=
  if fleet.crossNodeTp then
    if placement.groups.length ≠ 1 then
      .error (.assertionError "Cross-node TP requires a single unified placement group.")
    else
      let indices := match placement.sortedBundleIndices with
        | some sorted => if sorted = [] then List.range fleet.worldSize else sorted
        | none => List.range fleet.worldSize
      .ok ((fullChunks fleet.modelParallelSize indices).map fun chunk => (0,chunk))
  else
    let bundlesPerPg := fleet.worldSize / max fleet.nodeCount 1
    .ok ((List.range placement.groups.length).map fun pg => (pg,List.range bundlesPerPg))

end Fleet

/-- A worker: its group, its place in there and its bundle. -/
structure Worker where
  groupIdx : ℕ
  localRank : ℕ
  bundle : Bundle
  deriving DecidableEq

/-- The loop of `_create_workers_from_bundle_indices`, with the workers and the indices of the
leaders. -/
def createWorkers : ℕ → ℕ → List TiedGroup → List Worker × List ℕ
  | _, _, [] => ([],[])
  | groupIdx, globalRank, group :: groups =>
    let rest := createWorkers (groupIdx + 1) (globalRank + group.2.length) groups
    (group.bundles.mapIdx (fun localRank bundle => ⟨groupIdx,localRank,bundle⟩) ++ rest.1,
      (if group.2 = [] then [] else [globalRank]) ++ rest.2)

section Generate

variable {ρ σ : Type*} (generateRow : (String → Option ρ) → σ) (routes : Bool)

/-- `generate` of a worker. -/
def workerGenerate (shard : BatchedDataDict ρ) : List σ :=
  if shard.size = 0 then [] else shard.rowList.map generateRow

/-- `from_batches` on the results of the shards. The columns are those of the first result; a
result without rows has no column for the routes of experts. -/
def fromBatches : List (List σ) → Except BatchError (List σ)
  | [] => .ok []
  | first :: results =>
    if routes && !first.isEmpty && results.any List.isEmpty then .error (.keyError "routed_experts")
    else .ok (first :: results).flatten

/-- `VllmGeneration.generate`, where each row of the result may come with the routes of experts. -/
def generate (dpSize : ℕ) (workers : List Worker) (leaders : List ℕ) (data : BatchedDataDict ρ) :
    Except BatchError (List σ) :=
  let call (workerIdx : ℕ) (shard : BatchedDataDict ρ) : Except BatchError (List σ) :=
    if workerIdx < workers.length then .ok (workerGenerate generateRow shard)
    else .error .indexError
  if dpSize = 1 then
    match leaders with
    | [] => .error .indexError
    | leader :: _ => call leader data
  else
    (data.shardByBatchSize dpSize none true).bind fun shards =>
      ((shards.zip leaders).mapM fun pair => call pair.2 pair.1).bind (fromBatches routes)

end Generate

end

open Distributed BatchedDataDict Fallible Stripes

theorem createWorkers_leaders {groups : List TiedGroup} (hne : ∀ group ∈ groups, group.2 ≠ [])
    (groupIdx globalRank : ℕ) :
    (createWorkers groupIdx globalRank groups).2.length = groups.length ∧
      ∀ k w, (createWorkers groupIdx globalRank groups).2[k]? = some w →
        ∃ i group bundle, w = globalRank + i ∧ groups[k]? = some group ∧
          group.bundles.head? = some bundle ∧
          (createWorkers groupIdx globalRank groups).1[i]? = some ⟨groupIdx + k,0,bundle⟩ := by
  induction groups generalizing groupIdx globalRank with
  | nil => exact ⟨rfl,fun k w h => by cases h⟩
  | cons group groups ih =>
    obtain ⟨hlen,hleaders⟩ := ih (fun other hother => hne other (List.mem_cons_of_mem _ hother))
      (groupIdx + 1) (globalRank + group.2.length)
    obtain ⟨pg,bundles⟩ := group
    obtain ⟨first,rest,rfl⟩ := List.exists_cons_of_ne_nil (hne (pg,bundles) List.mem_cons_self)
    rw [createWorkers]
    dsimp only
    rw [if_neg (List.cons_ne_nil _ _)]
    refine ⟨by rw [List.singleton_append,List.length_cons,hlen,List.length_cons],?_⟩
    intro k w hk
    cases k with
    | zero =>
      obtain rfl := Option.some.inj hk
      refine ⟨0,(pg,first :: rest),(pg,first),rfl,rfl,rfl,?_⟩
      rw [TiedGroup.bundles,List.map_cons,List.mapIdx_cons]
      rfl
    | succ k =>
      obtain ⟨i,group,bundle,rfl,hgroup,hhead,hworker⟩ := hleaders k w hk
      refine ⟨(first :: rest).length + i,group,bundle,Nat.add_assoc _ _ _,hgroup,hhead,?_⟩
      have hlength : (TiedGroup.bundles (pg,first :: rest)).length = (first :: rest).length :=
        List.length_map _
      rw [List.getElem?_append_right (by rw [List.length_mapIdx,hlength]; exact Nat.le_add_right _ _),
        List.length_mapIdx,hlength,Nat.add_sub_cancel_left,hworker,Nat.add_right_comm groupIdx 1 k]
      rfl

theorem leaders_lt {groups : List TiedGroup} (hne : ∀ group ∈ groups, group.2 ≠ []) :
    ∀ w ∈ (createWorkers 0 0 groups).2, w < (createWorkers 0 0 groups).1.length := by
  intro w hw
  obtain ⟨k,hk⟩ := List.mem_iff_getElem?.mp hw
  obtain ⟨i,group,bundle,rfl,_,_,hworker⟩ := (createWorkers_leaders hne 0 0).2 k w hk
  rw [Nat.zero_add]
  exact (List.getElem?_eq_some_iff.mp hworker).1

section Rows

variable {ρ σ : Type*} (generateRow : (String → Option ρ) → σ) (routes : Bool) {n : ℕ}
  {data : BatchedDataDict ρ}

theorem workerGenerate_eq (shard : BatchedDataDict ρ) :
    workerGenerate generateRow shard = shard.rowList.map generateRow := by
  rw [workerGenerate]
  split_ifs with hsize
  · rw [rowList_of_size_eq_zero hsize]
    rfl
  · rfl

/-- The batch is whole or cut into shards, of which none is empty where the columns differ. -/
def RowsFit (routes : Bool) (dpSize n : ℕ) : Prop :=
  dpSize = 1 ∨ 0 < n ∧ (routes = true → (dpSize - 1) * ((n + dpSize - 1) / dpSize) < n)

theorem shardByBatchSize_uneven_empty (h : data.Uniform 0) (shards : ℕ) :
    data.shardByBatchSize shards none true = .error .zeroDivisionError := by
  obtain ⟨sizes,hsizes,hdedup⟩ := h.sizes
  rw [shardByBatchSize,hsizes]
  simp only [Except.bind,hdedup]
  rfl

theorem generate_sharded (h : data.Uniform n) (hn : 0 < n) {dpSize : ℕ} (hdp : 1 < dpSize)
    {workers : List Worker} {leaders : List ℕ} (hcount : leaders.length = dpSize)
    (hleaders : ∀ w ∈ leaders, w < workers.length) :
    generate generateRow routes dpSize workers leaders data =
      fromBatches routes ((List.range dpSize).map fun i =>
        ((data.rowList.map generateRow).drop (i * ((n + dpSize - 1) / dpSize))).take
          ((n + dpSize - 1) / dpSize)) := by
  obtain ⟨shards,hshards,hrows⟩ := h.shardByBatchSize_uneven hn (Nat.zero_lt_of_lt hdp)
  have hlen : shards.length = leaders.length := by
    rw [hcount,← List.length_map rowList,hrows,List.length_map,List.length_range]
  have hcalls : ((shards.zip leaders).mapM fun pair =>
      if pair.2 < workers.length then
        (.ok (workerGenerate generateRow pair.1) : Except BatchError (List σ))
      else .error .indexError) =
        .ok ((shards.zip leaders).map fun pair => workerGenerate generateRow pair.1) :=
    mapM_ok fun pair hpair => if_pos (hleaders _ (List.of_mem_zip hpair).2)
  have hresults : ((shards.zip leaders).map fun pair => workerGenerate generateRow pair.1) =
      (List.range dpSize).map fun i =>
        ((data.rowList.map generateRow).drop (i * ((n + dpSize - 1) / dpSize))).take
          ((n + dpSize - 1) / dpSize) := by
    have hfst : (shards.zip leaders).map (fun pair => workerGenerate generateRow pair.1) =
        ((shards.zip leaders).map Prod.fst).map (workerGenerate generateRow) := by
      rw [List.map_map]
      rfl
    have hworker : shards.map (workerGenerate generateRow) =
        (shards.map rowList).map (List.map generateRow) := by
      rw [List.map_map]
      exact List.map_congr_left fun shard _ => workerGenerate_eq generateRow shard
    rw [hfst,List.map_fst_zip (Nat.le_of_eq hlen),hworker,hrows,List.map_map]
    refine List.map_congr_left fun i _ => ?_
    show ((data.rowList.drop _).take _).map generateRow = _
    rw [List.map_take,List.map_drop]
  unfold generate
  dsimp only
  rw [if_neg (Nat.ne_of_gt hdp),hshards]
  show Except.bind (List.mapM _ _) _ = _
  rw [hcalls,hresults]
  rfl

theorem fromBatches_cons {first : List σ} (hfirst : first ≠ []) (results : List (List σ)) :
    fromBatches routes (first :: results) =
      if routes = true ∧ (first :: results).any List.isEmpty = true then
        .error (.keyError "routed_experts")
      else .ok (first :: results).flatten := by
  have hhead : first.isEmpty = false := by simpa using hfirst
  have hcond : (routes && !first.isEmpty && results.any List.isEmpty) = true ↔
      routes = true ∧ (first :: results).any List.isEmpty = true := by
    rw [hhead,List.any_cons,hhead]
    simp
  exact if_congr hcond rfl rfl

theorem fromBatches_parts {rows : List σ} (hn : 0 < rows.length) {dpSize : ℕ} (hdp : 1 < dpSize) :
    fromBatches routes ((List.range dpSize).map fun i =>
      (rows.drop (i * ((rows.length + dpSize - 1) / dpSize))).take
        ((rows.length + dpSize - 1) / dpSize)) = .ok rows ↔
      (routes = true → (dpSize - 1) * ((rows.length + dpSize - 1) / dpSize) < rows.length) := by
  generalize hsize : (rows.length + dpSize - 1) / dpSize = size
  have hpos : 0 < size := by
    rw [← hsize]
    exact Nat.div_pos (by omega) (by omega)
  have hcover : rows.length ≤ dpSize * size := by
    have hmod := Nat.div_add_mod (rows.length + dpSize - 1) dpSize
    have hlt := Nat.mod_lt (rows.length + dpSize - 1) (Nat.zero_lt_of_lt hdp)
    rw [hsize] at hmod
    omega
  have hall : ((List.range dpSize).map fun i => (rows.drop (i * size)).take size).flatten = rows := by
    rw [← List.flatMap_def,flatMap_parts,List.take_of_length_le hcover]
  have hempty : (((List.range dpSize).map fun i => (rows.drop (i * size)).take size).any
      List.isEmpty = true) ↔ rows.length ≤ (dpSize - 1) * size := by
    rw [List.any_eq_true]
    constructor
    · rintro ⟨part,hpart,hnil⟩
      obtain ⟨i,hi,rfl⟩ := List.mem_map.mp hpart
      have hi := List.mem_range.mp hi
      rw [List.isEmpty_iff,List.take_eq_nil_iff,List.drop_eq_nil_iff] at hnil
      exact (hnil.resolve_left hpos.ne').trans (Nat.mul_le_mul_right size (by omega))
    · intro hle
      refine ⟨_,List.mem_map.mpr ⟨dpSize - 1,List.mem_range.mpr (by omega),rfl⟩,?_⟩
      rw [List.isEmpty_iff,List.drop_eq_nil_of_le hle,List.take_nil]
  have hfirst : (rows.drop (0 * size)).take size ≠ [] := by
    rw [Nat.zero_mul,List.drop_zero,Ne,List.take_eq_nil_iff,not_or]
    exact ⟨hpos.ne',List.ne_nil_of_length_pos hn⟩
  obtain ⟨more,hmore⟩ := Nat.exists_eq_succ_of_ne_zero (Nat.ne_of_gt (Nat.zero_lt_of_lt hdp))
  have hcons : (List.range dpSize).map (fun i => (rows.drop (i * size)).take size) =
      (rows.drop (0 * size)).take size ::
        (List.range more).map fun i => (rows.drop ((i + 1) * size)).take size := by
    rw [hmore,List.range_succ_eq_map,List.map_cons,List.map_map]
    rfl
  rw [hcons,fromBatches_cons routes hfirst,← hcons,hall]
  by_cases hroutes : routes = true
  · by_cases hle : rows.length ≤ (dpSize - 1) * size
    · rw [if_pos ⟨hroutes,hempty.mpr hle⟩]
      exact iff_of_false (fun h => by cases h) fun h => absurd (h hroutes) (Nat.not_lt.mpr hle)
    · rw [if_neg fun h => hle (hempty.mp h.2)]
      exact iff_of_true rfl fun _ => Nat.not_le.mp hle
  · rw [if_neg fun h => hroutes h.1]
    exact iff_of_true rfl fun h => absurd h hroutes

theorem generate_rows_iff (h : data.Uniform n) {dpSize : ℕ} (hdp : 0 < dpSize)
    {workers : List Worker} {leaders : List ℕ} (hcount : leaders.length = dpSize)
    (hleaders : ∀ w ∈ leaders, w < workers.length) :
    generate generateRow routes dpSize workers leaders data = .ok (data.rowList.map generateRow) ↔
      RowsFit routes dpSize n := by
  have hlen : (data.rowList.map generateRow).length = n := by
    rw [List.length_map,length_rowList,h.size_eq]
  by_cases hone : dpSize = 1
  · subst hone
    obtain ⟨leader,rfl⟩ := List.length_eq_one_iff.mp hcount
    refine iff_of_true ?_ (.inl rfl)
    unfold generate
    dsimp only
    rw [if_pos rfl,if_pos (hleaders leader (List.mem_singleton_self leader)),workerGenerate_eq]
  · have hmany : 1 < dpSize := by omega
    rcases Nat.eq_zero_or_pos n with rfl | hn
    · refine iff_of_false ?_ fun hfit => ?_
      · unfold generate
        dsimp only
        rw [if_neg hone,shardByBatchSize_uneven_empty h]
        exact fun heq => by cases heq
      · exact hfit.elim hone fun hpos => Nat.lt_irrefl 0 hpos.1
    · have hparts := fromBatches_parts routes (by rw [hlen]; exact hn :
        0 < (data.rowList.map generateRow).length) hmany
      rw [hlen] at hparts
      rw [generate_sharded generateRow routes h hn hmany hcount hleaders,hparts,RowsFit]
      constructor
      · exact fun hfit => .inr ⟨hn,hfit⟩
      · exact fun hfit => (hfit.resolve_left hone).2

end Rows

namespace Fleet

variable {fleet : Fleet}

theorem worldSize_pos : 0 < fleet.worldSize := Nat.mul_pos fleet.nodeCount_pos fleet.gpusPerNode_pos

theorem modelParallelSize_pos : 0 < fleet.modelParallelSize :=
  Nat.mul_pos fleet.tensorParallelSize_pos fleet.pipelineParallelSize_pos

theorem dpSize_mul : fleet.dpSize * fleet.modelParallelSize = fleet.worldSize :=
  Nat.div_mul_cancel fleet.replicas

theorem dpSize_pos : 0 < fleet.dpSize := by
  refine Nat.pos_of_ne_zero fun hzero => ?_
  have hmul := fleet.dpSize_mul
  rw [hzero,Nat.zero_mul] at hmul
  exact fleet.worldSize_pos.ne hmul

/-- The groups are the replicas of the model. -/
structure GroupsExact (placement : fleet.Placement) (groups : List TiedGroup) : Prop where
  count : groups.length = fleet.dpSize
  size : ∀ group ∈ groups, group.2.length = fleet.modelParallelSize
  disjoint : (groups.flatMap TiedGroup.bundles).Nodup
  covers : ∀ bundle ∈ placement.bundles, bundle ∈ groups.flatMap TiedGroup.bundles
  oneNode : fleet.modelParallelSize ≤ fleet.gpusPerNode → ∀ group ∈ groups,
    ∀ bundle ∈ group.bundles, ∀ other ∈ group.bundles,
      placement.nodeOf bundle = placement.nodeOf other
  leaders : (createWorkers 0 0 groups).2.length = groups.length ∧
    ∀ k w, (createWorkers 0 0 groups).2[k]? = some w →
      ∃ (group : TiedGroup) (bundle : Bundle), groups[k]? = some group ∧
        group.bundles.head? = some bundle ∧ (createWorkers 0 0 groups).1[w]? = some (⟨k,0,bundle⟩ : Worker)

theorem ne_nil_of_size {groups : List TiedGroup}
    (h : ∀ group ∈ groups, group.2.length = fleet.modelParallelSize) :
    ∀ group ∈ groups, group.2 ≠ [] := fun group hgroup =>
  List.ne_nil_of_length_pos (by rw [h group hgroup]; exact modelParallelSize_pos)

theorem groupsExact_of {placement : fleet.Placement} {groups : List TiedGroup}
    (hcount : groups.length = fleet.dpSize)
    (hsize : ∀ group ∈ groups, group.2.length = fleet.modelParallelSize)
    (hdisjoint : (groups.flatMap TiedGroup.bundles).Nodup)
    (hcovers : ∀ bundle ∈ placement.bundles, bundle ∈ groups.flatMap TiedGroup.bundles)
    (hnode : fleet.modelParallelSize ≤ fleet.gpusPerNode → ∀ group ∈ groups,
      ∀ bundle ∈ group.bundles, ∀ other ∈ group.bundles,
        placement.nodeOf bundle = placement.nodeOf other) : GroupsExact placement groups := by
  refine ⟨hcount,hsize,hdisjoint,hcovers,hnode,?_⟩
  have hleaders := createWorkers_leaders (ne_nil_of_size hsize) 0 0
  refine ⟨hleaders.1,fun k w hk => ?_⟩
  obtain ⟨i,group,bundle,rfl,hgroup,hhead,hworker⟩ := hleaders.2 k w hk
  rw [Nat.zero_add] at hworker ⊢
  exact ⟨group,bundle,hgroup,hhead,hworker⟩

theorem groupsExact_perNode_iff (placement : fleet.Placement)
    (hgroups : placement.groups = List.replicate fleet.nodeCount fleet.gpusPerNode)
    (hnode : ∀ bundle, placement.nodeOf bundle = bundle.1) :
    GroupsExact placement ((List.range fleet.nodeCount).map fun pg =>
      (pg,List.range fleet.gpusPerNode)) ↔ fleet.modelParallelSize = fleet.gpusPerNode := by
  have hmem : ∀ pg < fleet.nodeCount, (pg,List.range fleet.gpusPerNode) ∈
      (List.range fleet.nodeCount).map fun pg => (pg,List.range fleet.gpusPerNode) :=
    fun pg hpg => List.mem_map_of_mem (List.mem_range.mpr hpg)
  constructor
  · intro h
    have hsize := h.size _ (hmem 0 fleet.nodeCount_pos)
    rw [List.length_range] at hsize
    exact hsize.symm
  · intro h
    refine groupsExact_of ?_ ?_ ?_ ?_ ?_
    · rw [List.length_map,List.length_range,dpSize,worldSize,h,
        Nat.mul_div_cancel _ fleet.gpusPerNode_pos]
    · intro group hgroup
      obtain ⟨pg,-,rfl⟩ := List.mem_map.mp hgroup
      rw [List.length_range,h]
    · rw [List.flatMap_map,List.nodup_flatMap]
      refine ⟨fun pg _ => List.nodup_range.map fun a b hab => (Prod.mk.inj hab).2,?_⟩
      refine List.nodup_range.imp fun hne bundle hfst hsnd => hne ?_
      obtain ⟨i,_,rfl⟩ := List.mem_map.mp hfst
      obtain ⟨j,_,hsame⟩ := List.mem_map.mp hsnd
      exact (Prod.mk.inj hsame).1.symm
    · intro bundle hbundle
      obtain ⟨pg,hpg,hbundle⟩ := List.mem_flatMap.mp hbundle
      obtain ⟨i,hi,rfl⟩ := List.mem_map.mp hbundle
      rw [hgroups,List.length_replicate,List.mem_range] at hpg
      rw [hgroups,List.getD_replicate _ hpg] at hi
      exact List.mem_flatMap.mpr ⟨_,hmem pg hpg,List.mem_map_of_mem hi⟩
    · intro _ group hgroup bundle hbundle other hother
      obtain ⟨b,-,rfl⟩ := List.mem_map.mp hbundle
      obtain ⟨o,-,rfl⟩ := List.mem_map.mp hother
      rw [hnode,hnode]

theorem fullChunks_eq {size count : ℕ} (hsize : 0 < size) {indices : List ℕ}
    (hlen : indices.length = count * size) : fullChunks size indices =
      (List.range count).map fun k => (indices.drop (k * size)).take size := by
  have hcount : (indices.length + size - 1) / size = count := by
    rw [hlen]
    have hdiv : (count * size + size - 1) / size = (size - 1 + count * size) / size := by
      congr 1
      omega
    rw [hdiv,Nat.add_mul_div_right _ _ hsize,Nat.div_eq_of_lt (by omega),Nat.zero_add]
  rw [fullChunks,hcount,← List.filterMap_eq_map]
  refine List.filterMap_congr fun k hk => ?_
  have hle : (k + 1) * size ≤ count * size := Nat.mul_le_mul_right size (List.mem_range.mp hk)
  rw [Nat.succ_mul] at hle
  have hfull : ((indices.drop (k * size)).take size).length = size := by
    rw [List.length_take,List.length_drop,hlen]
    omega
  exact if_pos hfull

theorem mem_of_mem_fullChunks {size : ℕ} {indices chunk : List ℕ} (h : chunk ∈ fullChunks size indices)
    {i : ℕ} (hi : i ∈ chunk) : i ∈ indices := by
  obtain ⟨k,-,hchunk⟩ := List.mem_filterMap.mp h
  dsimp only at hchunk
  split_ifs at hchunk
  obtain rfl := Option.some.inj hchunk
  exact List.mem_of_mem_drop (List.mem_of_mem_take hi)

theorem mem_bundles_single (placement : fleet.Placement) (hgroups : placement.groups = [fleet.worldSize])
    (bundle : Bundle) : bundle ∈ placement.bundles ↔ bundle.1 = 0 ∧ bundle.2 < fleet.worldSize := by
  obtain ⟨pg,i⟩ := bundle
  rw [Placement.bundles,hgroups]
  simp [eq_comm,and_comm]

theorem groupsExact_unified_iff (placement : fleet.Placement)
    (hgroups : placement.groups = [fleet.worldSize]) {indices : List ℕ} (hnodup : indices.Nodup)
    (hinside : ∀ i ∈ indices, i < fleet.worldSize)
    (hcross : fleet.gpusPerNode < fleet.tensorParallelSize) :
    GroupsExact placement ((fullChunks fleet.modelParallelSize indices).map fun chunk => (0,chunk)) ↔
      indices.length = fleet.worldSize := by
  have hsub : indices ⊆ List.range fleet.worldSize := fun i hi => List.mem_range.mpr (hinside i hi)
  constructor
  · intro h
    have hall : List.range fleet.worldSize ⊆ indices := by
      intro i hi
      have hcovered := h.covers (0,i)
        ((mem_bundles_single placement hgroups _).mpr ⟨rfl,List.mem_range.mp hi⟩)
      obtain ⟨group,hgroup,hbundle⟩ := List.mem_flatMap.mp hcovered
      obtain ⟨chunk,hchunk,rfl⟩ := List.mem_map.mp hgroup
      obtain ⟨j,hj,heq⟩ := List.mem_map.mp hbundle
      obtain rfl := (Prod.mk.inj heq).2
      exact mem_of_mem_fullChunks hchunk hj
    have hle := (List.nodup_range.subperm hall).length_le
    have hge := (hnodup.subperm hsub).length_le
    rw [List.length_range] at hle hge
    omega
  · intro hlen
    have hperm := (hnodup.subperm hsub).perm_of_length_le (by rw [List.length_range,hlen])
    have hcount : indices.length = fleet.dpSize * fleet.modelParallelSize := by rw [hlen,dpSize_mul]
    have hbundles : ((fullChunks fleet.modelParallelSize indices).map fun chunk =>
        ((0,chunk) : TiedGroup)).flatMap TiedGroup.bundles = indices.map fun i => (0,i) := by
      have hflat : (fullChunks fleet.modelParallelSize indices).flatten = indices := by
        rw [fullChunks_eq modelParallelSize_pos hcount,← List.flatMap_def,Stripes.flatMap_parts,
          List.take_of_length_le (Nat.le_of_eq hcount)]
      rw [List.flatMap_map]
      conv_rhs => rw [← hflat,List.map_flatten,← List.flatMap_def]
      rfl
    refine groupsExact_of ?_ ?_ ?_ ?_ ?_
    · rw [List.length_map,fullChunks_eq modelParallelSize_pos hcount,List.length_map,List.length_range]
    · intro group hgroup
      obtain ⟨chunk,hchunk,rfl⟩ := List.mem_map.mp hgroup
      obtain ⟨k,-,hfull⟩ := List.mem_filterMap.mp hchunk
      dsimp only at hfull
      split_ifs at hfull with hsize
      obtain rfl := Option.some.inj hfull
      exact hsize
    · rw [hbundles]
      exact hnodup.map fun a b hab => (Prod.mk.inj hab).2
    · intro bundle hbundle
      obtain ⟨hpg,hlt⟩ := (mem_bundles_single placement hgroups bundle).mp hbundle
      rw [hbundles]
      exact List.mem_map.mpr ⟨bundle.2,hperm.mem_iff.mpr (List.mem_range.mpr hlt),
        Prod.ext hpg.symm rfl⟩
    · intro hfits
      have hle : fleet.tensorParallelSize ≤ fleet.modelParallelSize :=
        Nat.le_mul_of_pos_right _ fleet.pipelineParallelSize_pos
      omega

theorem groupsExact_oneNode_iff (placement : fleet.Placement)
    (hgroups : placement.groups = [fleet.worldSize])
    (hnode : ∀ bundle, placement.nodeOf bundle < fleet.nodeCount) :
    GroupsExact placement [(0,List.range fleet.gpusPerNode)] ↔
      fleet.modelParallelSize = fleet.gpusPerNode ∧ fleet.nodeCount = 1 := by
  constructor
  · intro h
    have hsize := h.size _ (List.mem_singleton_self _)
    rw [List.length_range] at hsize
    have hpos := fleet.worldSize_pos
    have hlast := h.covers (0,fleet.worldSize - 1)
      ((mem_bundles_single placement hgroups _).mpr ⟨rfl,by omega⟩)
    rw [List.flatMap_singleton] at hlast
    obtain ⟨i,hi,heq⟩ := List.mem_map.mp hlast
    have hi := List.mem_range.mp hi
    have hworld : fleet.nodeCount * fleet.gpusPerNode ≤ 1 * fleet.gpusPerNode := by
      have hlast := (Prod.mk.inj heq).2
      have hdef : fleet.worldSize = fleet.nodeCount * fleet.gpusPerNode := rfl
      omega
    have hnodes := Nat.le_of_mul_le_mul_right hworld fleet.gpusPerNode_pos
    exact ⟨hsize.symm,Nat.le_antisymm hnodes fleet.nodeCount_pos⟩
  · rintro ⟨hsize,hone⟩
    have hworld : fleet.worldSize = fleet.gpusPerNode := by rw [worldSize,hone,Nat.one_mul]
    refine groupsExact_of ?_ ?_ ?_ ?_ ?_
    · rw [dpSize,hworld,hsize,Nat.div_self fleet.gpusPerNode_pos]
      rfl
    · intro group hgroup
      rw [List.mem_singleton.mp hgroup,List.length_range,hsize]
    · rw [List.flatMap_singleton]
      exact List.nodup_range.map fun a b hab => (Prod.mk.inj hab).2
    · intro bundle hbundle
      obtain ⟨hpg,hlt⟩ := (mem_bundles_single placement hgroups bundle).mp hbundle
      rw [List.flatMap_singleton]
      exact List.mem_map.mpr ⟨bundle.2,List.mem_range.mpr (by rw [← hworld]; exact hlt),
        Prod.ext hpg.symm rfl⟩
    · intro _ group _ bundle _ other _
      have hbundle := hnode bundle
      have hother := hnode other
      omega

/-- The replicas are found where they fill the nodes, or where they span nodes and the bundles of
all nodes were put in one group beforehand. -/
def GroupsFit : fleet.Placement → Prop
  | .fresh | .perNode => fleet.modelParallelSize = fleet.gpusPerNode
  | .unified sorted _ _ _ _ =>
    fleet.gpusPerNode < fleet.tensorParallelSize ∧ (sorted = [] ∨ sorted.length = fleet.worldSize) ∨
      fleet.modelParallelSize = fleet.gpusPerNode ∧ fleet.nodeCount = 1

theorem crossNodeTp_iff : fleet.crossNodeTp = true ↔ fleet.gpusPerNode < fleet.tensorParallelSize :=
  decide_eq_true_iff

theorem tensorParallelSize_le : fleet.tensorParallelSize ≤ fleet.modelParallelSize :=
  Nat.le_mul_of_pos_right _ fleet.pipelineParallelSize_pos

theorem modelParallelSize_le_worldSize : fleet.modelParallelSize ≤ fleet.worldSize :=
  Nat.le_of_dvd fleet.worldSize_pos fleet.replicas

theorem bundlesPerPg : fleet.worldSize / max fleet.nodeCount 1 = fleet.gpusPerNode := by
  rw [Nat.max_eq_left fleet.nodeCount_pos,worldSize,Nat.mul_div_cancel_left _ fleet.nodeCount_pos]

theorem exists_groups_perNode_iff (placement : fleet.Placement)
    (hgroups : placement.groups = List.replicate fleet.nodeCount fleet.gpusPerNode)
    (hnode : ∀ bundle, placement.nodeOf bundle = bundle.1) :
    (∃ groups, fleet.buildBundleIndices placement = .ok groups ∧ GroupsExact placement groups) ↔
      fleet.modelParallelSize = fleet.gpusPerNode := by
  by_cases hcross : fleet.gpusPerNode < fleet.tensorParallelSize
  · have hlt : fleet.gpusPerNode < fleet.modelParallelSize := hcross.trans_le tensorParallelSize_le
    have hnodes : placement.groups.length ≠ 1 := by
      rw [hgroups,List.length_replicate]
      intro hone
      have hle := fleet.modelParallelSize_le_worldSize
      rw [worldSize,hone,Nat.one_mul] at hle
      omega
    refine iff_of_false ?_ (Nat.ne_of_gt hlt)
    rintro ⟨groups,hbuild,-⟩
    rw [buildBundleIndices,if_pos (crossNodeTp_iff.mpr hcross),if_pos hnodes] at hbuild
    cases hbuild
  · have hbuild : fleet.buildBundleIndices placement =
        .ok ((List.range fleet.nodeCount).map fun pg => (pg,List.range fleet.gpusPerNode)) := by
      rw [buildBundleIndices,if_neg (fun h => hcross (crossNodeTp_iff.mp h)),bundlesPerPg,hgroups,
        List.length_replicate]
    rw [hbuild,← groupsExact_perNode_iff placement hgroups hnode]
    constructor
    · rintro ⟨groups,hok,hexact⟩
      obtain rfl := Except.ok.inj hok
      exact hexact
    · exact fun h => ⟨_,rfl,h⟩

theorem exists_groups_iff (placement : fleet.Placement) :
    (∃ groups, fleet.buildBundleIndices placement = .ok groups ∧ GroupsExact placement groups) ↔
      GroupsFit placement := by
  cases placement with
  | fresh => exact exists_groups_perNode_iff _ rfl fun _ => rfl
  | perNode => exact exists_groups_perNode_iff _ rfl fun _ => rfl
  | unified sorted nodup inside node node_lt =>
    by_cases hcross : fleet.gpusPerNode < fleet.tensorParallelSize
    · have hne : fleet.modelParallelSize ≠ fleet.gpusPerNode :=
        Nat.ne_of_gt (hcross.trans_le tensorParallelSize_le)
      have hbuild : fleet.buildBundleIndices (.unified sorted nodup inside node node_lt) =
          .ok ((fullChunks fleet.modelParallelSize
            (if sorted = [] then List.range fleet.worldSize else sorted)).map fun chunk => (0,chunk)) := by
        rw [buildBundleIndices,if_pos (crossNodeTp_iff.mpr hcross)]
        exact if_neg fun h => h rfl
      rw [hbuild]
      have hexact : ∀ indices : List ℕ, indices.Nodup → (∀ i ∈ indices, i < fleet.worldSize) →
          ((∃ groups, (.ok ((fullChunks fleet.modelParallelSize indices).map fun chunk => (0,chunk)) :
            Except BatchError (List TiedGroup)) = .ok groups ∧
            GroupsExact (.unified sorted nodup inside node node_lt) groups) ↔
              indices.length = fleet.worldSize) := by
        intro indices hnodup hinside
        rw [← groupsExact_unified_iff (.unified sorted nodup inside node node_lt) rfl hnodup hinside
          hcross]
        constructor
        · rintro ⟨groups,hok,hexact⟩
          obtain rfl := Except.ok.inj hok
          exact hexact
        · exact fun h => ⟨_,rfl,h⟩
      by_cases hnil : sorted = []
      · rw [if_pos hnil,hexact _ List.nodup_range fun i hi => List.mem_range.mp hi]
        exact iff_of_true List.length_range (.inl ⟨hcross,.inl hnil⟩)
      · rw [if_neg hnil,hexact sorted nodup inside]
        constructor
        · exact fun h => .inl ⟨hcross,.inr h⟩
        · rintro (⟨-,h⟩ | ⟨h,-⟩)
          · exact h.resolve_left hnil
          · exact absurd h hne
    · have hbuild : fleet.buildBundleIndices (.unified sorted nodup inside node node_lt) =
          .ok [(0,List.range fleet.gpusPerNode)] := by
        rw [buildBundleIndices,if_neg (fun h => hcross (crossNodeTp_iff.mp h)),bundlesPerPg]
        rfl
      rw [hbuild]
      have hfit := groupsExact_oneNode_iff (.unified sorted nodup inside node node_lt) rfl
        fun bundle => node_lt bundle.2
      constructor
      · rintro ⟨groups,hok,hexact⟩
        obtain rfl := Except.ok.inj hok
        exact .inr (hfit.mp hexact)
      · rintro (⟨h,-⟩ | h)
        · exact absurd h hcross
        · exact ⟨_,rfl,hfit.mpr h⟩

variable {ρ σ : Type*} (generateRow : (String → Option ρ) → σ) (routes : Bool) {n : ℕ}
  {data : BatchedDataDict ρ}

/-- The groups are the replicas, and their leaders give back every row of a batch in its place. -/
def DataParallelExact (placement : fleet.Placement) (data : BatchedDataDict ρ) : Prop :=
  ∃ groups, fleet.buildBundleIndices placement = .ok groups ∧ GroupsExact placement groups ∧
    generate generateRow routes fleet.dpSize (createWorkers 0 0 groups).1
      (createWorkers 0 0 groups).2 data = .ok (data.rowList.map generateRow)

def twoReplicas : Fleet := ⟨1,2,1,1,Nat.one_pos,Nat.two_pos,Nat.one_pos,Nat.one_pos,⟨2,rfl⟩⟩

def twoNodes : Fleet := ⟨2,2,2,1,Nat.two_pos,Nat.two_pos,Nat.two_pos,Nat.one_pos,⟨2,rfl⟩⟩

end Fleet

end Generation
end DockyardRL
