import DockyardRL.Distributed.SegmentNodes
import Mathlib.Data.String.Basic

/-! The bundles of a placement group in the order of the topology. The order is by the least rank of
the domain, the rank and the GPU; neither the node nor the domain decides a tie. -/
namespace DockyardRL
namespace Distributed

open Collect SortByKey Consecutive

structure Bundle where
  gpuId : ℤ
  nvlinkDomain : String
  topoRank : ℤ
  nodeId : String
  deriving DecidableEq

structure BundleInfo extends Bundle where
  idx : ℕ
  deriving DecidableEq

inductive BundleError
  | gpusPerNodeRequired
  | zeroDivision
  deriving DecidableEq

def bundleInfos (bundleData : List Bundle) : List BundleInfo :=
  bundleData.zipIdx.map fun b => { b.1 with idx := b.2 }

def hasTopology (bundleData : List Bundle) : Bool :=
  bundleData.any fun b => b.nvlinkDomain ≠ nvlinkDomainUnknown ∨ b.topoRank ≠ topoRankUnknown

def usableNodes (segmentSize : ℕ) (bundles : List BundleInfo) : ℕ :=
  (bundles.map fun b => b.nodeId).toFinset.card / segmentSize * segmentSize

/-- `filtered`: of every domain the first bundles, as many as complete segments have. -/
def keepSegments (segmentSize gpusPerNode : ℕ) (infos : List BundleInfo) : List BundleInfo :=
  (collect (infos.map fun info => (info.nvlinkDomain,info))).entries.flatMap fun entry =>
    (sortByKey (fun x => toLex (x.topoRank,x.gpuId)) entry.2).take
      (usableNodes segmentSize entry.2 * gpusPerNode)

def minTopoRankStep (ranks : Dict String ℤ) (info : BundleInfo) : Dict String ℤ :=
  match ranks.get? info.nvlinkDomain with
  | none => ranks.set info.nvlinkDomain info.topoRank
  | some cur => if info.topoRank < cur then ranks.set info.nvlinkDomain info.topoRank else ranks

def domainToMinTopoRank (infos : List BundleInfo) : Dict String ℤ :=
  infos.foldl minTopoRankStep .empty

def topologyKey (infos : List BundleInfo) (x : BundleInfo) : ℤ ×ₗ ℤ ×ₗ ℤ :=
  toLex (((domainToMinTopoRank infos).get? x.nvlinkDomain).getD 0,toLex (x.topoRank,x.gpuId))

def keptInfos (segmentSize gpusPerNode : Option ℕ) (infos : List BundleInfo) : List BundleInfo :=
  match segmentSize with
  | none => infos
  | some segmentSize => keepSegments segmentSize (gpusPerNode.getD 0) infos

def sortBundleIndicesByTopology (bundleData : List Bundle) (segmentSize gpusPerNode : Option ℕ) :
    Except BundleError (List ℕ) :=
  if segmentSize.isSome ∧ gpusPerNode.isNone then .error .gpusPerNodeRequired
  else if bundleData = [] then .ok []
  else if hasTopology bundleData = false then
    .ok ((sortByKey (fun x => toLex (x.nodeId,x.gpuId)) (bundleInfos bundleData)).map BundleInfo.idx)
  else if segmentSize = some 0 then .error .zeroDivision
  else
    let infos := keptInfos segmentSize gpusPerNode (bundleInfos bundleData)
    .ok ((sortByKey (topologyKey infos) infos).map BundleInfo.idx)

def picked (bundleData : List Bundle) (order : List ℕ) : List BundleInfo :=
  order.filterMap fun i => bundleData[i]?.map fun b => { b with idx := i }

def domainNodes (infos : List BundleInfo) (d : String) : Finset String :=
  ((infos.filter fun x => x.nvlinkDomain = d).map fun x => x.nodeId).toFinset

/-- Nodes and segments are whole in an order of bundles. -/
structure KeepsWhole (bundleData : List Bundle) (segmentSize : Option ℕ) (order : List ℕ) : Prop where
  nodup : order.Nodup
  lt_length : ∀ i ∈ order, i < bundleData.length
  nodes : ∀ node, Together (fun x => x.nodeId = node) (picked bundleData order)
  ascending : (picked bundleData order).Pairwise fun a b => a.nodeId = b.nodeId → a.gpuId < b.gpuId
  domains : ∀ d ≠ nvlinkDomainUnknown,
    Together (fun x => x.nvlinkDomain = d) (picked bundleData order)
  all : segmentSize = none → ∀ i < bundleData.length, i ∈ order
  segments : ∀ s ∈ segmentSize, ∀ d ≠ nvlinkDomainUnknown,
    (domainNodes (picked bundleData order) d).card =
      (domainNodes (bundleInfos bundleData) d).card / s * s
  whole : ∀ s ∈ segmentSize, ∀ x ∈ picked bundleData order, ∀ y ∈ bundleInfos bundleData,
    y.nodeId = x.nodeId → y ∈ picked bundleData order

/-- Every node has one domain, one rank and bundles with different GPUs. -/
structure WellFormed (bundleData : List Bundle) : Prop where
  sameNode : ∀ a ∈ bundleData, ∀ b ∈ bundleData, a.nodeId = b.nodeId →
    a.nvlinkDomain = b.nvlinkDomain ∧ a.topoRank = b.topoRank
  gpus : bundleData.Pairwise fun a b => a.nodeId = b.nodeId → a.gpuId ≠ b.gpuId

def leastRank (infos : List BundleInfo) (d : String) : Option ℤ :=
  ((infos.filter fun x => x.nvlinkDomain = d).map fun x => x.topoRank).min?

/-- What decides between bundles that compare equal: the first bundle of the domain, when domains are
cut one by one, and the index. -/
def position (bundleData : List Bundle) (segmentSize : Option ℕ) (x : BundleInfo) : ℕ ×ₗ ℕ :=
  toLex (if segmentSize.isSome then (bundleData.map fun b => b.nvlinkDomain).idxOf x.nvlinkDomain else 0,
    x.idx)

/-- The nodes whose bundles are the first of a domain, as many as complete segments have; for a known
domain as many nodes as well. -/
structure CutsWhole (infos : List BundleInfo) (segmentSize gpusPerNode : ℕ) (nodes : Finset String)
    (d : String) : Prop where
  count : (infos.filter fun x => x.nvlinkDomain = d).countP (fun x => x.nodeId ∈ nodes) =
    min (usableNodes segmentSize (infos.filter fun x => x.nvlinkDomain = d) * gpusPerNode)
      (infos.filter fun x => x.nvlinkDomain = d).length
  first : ∀ a ∈ infos, ∀ b ∈ infos, a.nvlinkDomain = d → b.nvlinkDomain = d → a.nodeId ∈ nodes →
    b.nodeId ∉ nodes → toLex (a.topoRank,toLex (a.gpuId,a.idx)) < toLex (b.topoRank,toLex (b.gpuId,b.idx))
  card : d ≠ nvlinkDomainUnknown → (domainNodes infos d ∩ nodes).card =
    (domainNodes infos d).card / segmentSize * segmentSize

/-- No bundle of another node, or of another domain, lies between two bundles that compare equal in
what comes before the GPU, or before the rank. -/
structure NoneBetween (kept : List BundleInfo) (place : BundleInfo → ℕ ×ₗ ℕ) : Prop where
  nodes : ∀ a ∈ kept, ∀ b ∈ kept, ∀ c ∈ kept, c.nodeId = a.nodeId →
    leastRank kept b.nvlinkDomain = leastRank kept a.nvlinkDomain → b.topoRank = a.topoRank →
      toLex (a.gpuId,place a) < toLex (b.gpuId,place b) →
        toLex (b.gpuId,place b) < toLex (c.gpuId,place c) → b.nodeId = a.nodeId
  domains : ∀ a ∈ kept, ∀ b ∈ kept, ∀ c ∈ kept, c.nvlinkDomain = a.nvlinkDomain →
    a.nvlinkDomain ≠ nvlinkDomainUnknown →
    leastRank kept b.nvlinkDomain = leastRank kept a.nvlinkDomain →
      toLex (a.topoRank,toLex (a.gpuId,place a)) < toLex (b.topoRank,toLex (b.gpuId,place b)) →
        toLex (b.topoRank,toLex (b.gpuId,place b)) < toLex (c.topoRank,toLex (c.gpuId,place c)) →
          b.nvlinkDomain = a.nvlinkDomain

/-- Without a topology, or when the cut splits no node and nothing lies between. -/
def StaysWhole (bundleData : List Bundle) (segmentSize gpusPerNode : Option ℕ) : Prop :=
  hasTopology bundleData = false ∨ ∃ nodes : Finset String,
    (segmentSize = none → ∀ x ∈ bundleInfos bundleData, x.nodeId ∈ nodes) ∧
    (∀ s ∈ segmentSize, ∀ d, CutsWhole (bundleInfos bundleData) s (gpusPerNode.getD 0) nodes d) ∧
    NoneBetween ((bundleInfos bundleData).filter fun x => x.nodeId ∈ nodes)
      (position bundleData segmentSize)

theorem mem_bundleInfos {bundleData : List Bundle} {x : BundleInfo} :
    x ∈ bundleInfos bundleData ↔ bundleData[x.idx]? = some x.toBundle := by
  rw [bundleInfos,List.mem_map]
  constructor
  · rintro ⟨b,hb,rfl⟩
    exact List.mem_zipIdx_iff_getElem?.mp hb
  · intro hx
    exact ⟨(x.toBundle,x.idx),List.mem_zipIdx_iff_getElem?.mpr hx,rfl⟩

theorem pairwise_bundleInfos (bundleData : List Bundle) :
    (bundleInfos bundleData).Pairwise fun a b => a.idx < b.idx := by
  rw [bundleInfos,List.pairwise_map]
  exact List.pairwise_map.mp (by simpa [List.zipIdx_map_snd] using List.pairwise_lt_range')

theorem picked_map_idx {bundleData : List Bundle} {infos : List BundleInfo}
    (h : ∀ x ∈ infos, x ∈ bundleInfos bundleData) :
    picked bundleData (infos.map BundleInfo.idx) = infos := by
  rw [picked,List.filterMap_map]
  have hsome : ∀ x ∈ infos, ((fun i => bundleData[i]?.map fun b => { b with idx := i }) ∘
      BundleInfo.idx) x = some x := by
    intro x hx
    simp [mem_bundleInfos.mp (h x hx)]
  rw [List.filterMap_congr hsome,List.filterMap_some]

theorem min?_concat (l : List ℤ) (a : ℤ) :
    (l ++ [a]).min? = some (l.min?.elim a fun cur => min cur a) := by
  cases l with
  | nil => rfl
  | cons b l => rw [List.cons_append,List.min?_cons',List.min?_cons',List.foldl_append]; rfl

theorem get?_domainToMinTopoRank (infos : List BundleInfo) (d : String) :
    (domainToMinTopoRank infos).get? d = leastRank infos d := by
  induction infos using List.reverseRecOn with
  | nil => rfl
  | append_singleton infos x ih =>
    have hstep : domainToMinTopoRank (infos ++ [x]) = minTopoRankStep (domainToMinTopoRank infos) x := by
      rw [domainToMinTopoRank,List.foldl_append]
      rfl
    have hother : x.nvlinkDomain ≠ d → leastRank (infos ++ [x]) d = leastRank infos d := by
      intro hne
      rw [leastRank,List.filter_append,List.filter_cons_of_neg (by simpa using hne),List.filter_nil,
        List.append_nil]
      rfl
    have hsame : x.nvlinkDomain = d → leastRank (infos ++ [x]) d =
        some ((leastRank infos d).elim x.topoRank fun cur => min cur x.topoRank) := by
      intro heq
      rw [leastRank,List.filter_append,List.filter_cons_of_pos (by simpa using heq),List.filter_nil,
        List.map_append,List.map_singleton,min?_concat]
      rfl
    rw [hstep,minTopoRankStep]
    by_cases hd : x.nvlinkDomain = d
    · subst hd
      rw [hsame rfl,ih]
      cases hcur : leastRank infos x.nvlinkDomain with
      | none => rw [Dict.get?_set_self]; rfl
      | some cur =>
        dsimp only [Option.elim]
        split_ifs with hlt
        · rw [Dict.get?_set_self,min_eq_right hlt.le]
        · rw [ih,hcur,min_eq_left (not_lt.mp hlt)]
    · rw [hother hd,← ih]
      split
      · exact Dict.get?_set_of_ne _ _ (Ne.symm hd)
      · split_ifs
        · exact Dict.get?_set_of_ne _ _ (Ne.symm hd)
        · rfl

theorem leastRank_congr {infos infos' : List BundleInfo} (h : ∀ x, x ∈ infos ↔ x ∈ infos') :
    leastRank infos = leastRank infos' := by
  refine funext fun d => Option.ext fun r => ?_
  rw [leastRank,leastRank,List.min?_eq_some_iff,List.min?_eq_some_iff]
  simp only [List.mem_map,List.mem_filter,h]

theorem valuesOf_domain (infos : List BundleInfo) (d : String) :
    valuesOf (infos.map fun info => (info.nvlinkDomain,info)) d =
      infos.filter fun x => x.nvlinkDomain = d := by
  rw [valuesOf,List.filter_map,List.map_map]
  exact List.map_id _

def domainCut (segmentSize gpusPerNode : ℕ) (infos : List BundleInfo) (d : String) : List BundleInfo :=
  (sortByKey (fun x => toLex (x.topoRank,x.gpuId)) (infos.filter fun x => x.nvlinkDomain = d)).take
    (usableNodes segmentSize (infos.filter fun x => x.nvlinkDomain = d) * gpusPerNode)

theorem keepSegments_eq (segmentSize gpusPerNode : ℕ) (infos : List BundleInfo) :
    keepSegments segmentSize gpusPerNode infos =
      (collect (infos.map fun info => (info.nvlinkDomain,info))).keys.flatMap
        (domainCut segmentSize gpusPerNode infos) := by
  rw [keepSegments,Dict.keys,List.flatMap_map]
  refine List.flatMap_congr fun entry hentry => ?_
  rw [(mem_entries_collect.mp hentry).2,valuesOf_domain]
  rfl

theorem domain_of_mem_domainCut {segmentSize gpusPerNode : ℕ} {infos : List BundleInfo} {d : String}
    {x : BundleInfo} (h : x ∈ domainCut segmentSize gpusPerNode infos d) :
    x ∈ infos ∧ x.nvlinkDomain = d := by
  have hmem := List.mem_filter.mp ((sortByKey_perm _ _).mem_iff.mp (List.mem_of_mem_take h))
  exact ⟨hmem.1,of_decide_eq_true hmem.2⟩

theorem mem_keepSegments {segmentSize gpusPerNode : ℕ} {infos : List BundleInfo} {x : BundleInfo} :
    x ∈ keepSegments segmentSize gpusPerNode infos ↔
      x ∈ domainCut segmentSize gpusPerNode infos x.nvlinkDomain := by
  rw [keepSegments_eq,List.mem_flatMap]
  constructor
  · rintro ⟨d,-,hx⟩
    rwa [(domain_of_mem_domainCut hx).2]
  · intro hx
    refine ⟨x.nvlinkDomain,mem_keys_collect.mpr ?_,hx⟩
    rw [List.map_map]
    exact List.mem_map_of_mem (domain_of_mem_domainCut hx).1

theorem pairwise_domain (bundleData : List Bundle) (d : String) :
    (sortByKey (fun x => toLex (x.topoRank,x.gpuId))
      ((bundleInfos bundleData).filter fun x => x.nvlinkDomain = d)).Pairwise fun a b =>
        toLex (a.topoRank,toLex (a.gpuId,a.idx)) < toLex (b.topoRank,toLex (b.gpuId,b.idx)) := by
  refine (pairwise_sortByKey_of_pairwise ((pairwise_bundleInfos bundleData).filter _)).imp ?_
  simp only [Prod.Lex.toLex_lt_toLex,EmbeddingLike.apply_eq_iff_eq,Prod.mk.injEq]
  rintro a b ((hrank | hgpu) | ⟨⟨hrank,hgpu⟩,hidx⟩)
  · exact .inl hrank
  · exact .inr ⟨hgpu.1,.inl hgpu.2⟩
  · exact .inr ⟨hrank,.inr ⟨hgpu,hidx⟩⟩

def orderKey (kept : List BundleInfo) (place : BundleInfo → ℕ ×ₗ ℕ) (x : BundleInfo) :
    ℤ ×ₗ ℤ ×ₗ ℤ ×ₗ ℕ ×ₗ ℕ :=
  toLex (((domainToMinTopoRank kept).get? x.nvlinkDomain).getD 0,
    toLex (x.topoRank,toLex (x.gpuId,place x)))

section Order

variable {bundleData : List Bundle} {segmentSize gpusPerNode : Option ℕ}

theorem pairwise_keptInfos :
    (keptInfos segmentSize gpusPerNode (bundleInfos bundleData)).Pairwise fun a b =>
      a.topoRank = b.topoRank → a.gpuId = b.gpuId →
        position bundleData segmentSize a < position bundleData segmentSize b := by
  cases segmentSize with
  | none =>
    refine (pairwise_bundleInfos bundleData).imp fun hidx _ _ => ?_
    exact Prod.Lex.toLex_lt_toLex.mpr (.inr ⟨rfl,hidx⟩)
  | some s =>
    rw [keptInfos,keepSegments_eq,List.pairwise_flatMap]
    constructor
    · intro d _
      refine ((pairwise_domain bundleData d).sublist (List.take_sublist _ _)).imp_of_mem ?_
      intro a b ha hb hlt hrank hgpu
      have hidx : a.idx < b.idx := by simpa [Prod.Lex.toLex_lt_toLex,hrank,hgpu] using hlt
      have hdomain := (domain_of_mem_domainCut ha).2.trans (domain_of_mem_domainCut hb).2.symm
      exact Prod.Lex.toLex_lt_toLex.mpr (.inr ⟨by rw [hdomain],hidx⟩)
    · refine (pairwise_keys_collect _).imp fun {d e} hlt a ha b hb _ _ => ?_
      have hdomains : ((bundleInfos bundleData).map fun info => (info.nvlinkDomain,info)).map Prod.fst =
          bundleData.map fun b => b.nvlinkDomain := by
        conv_rhs => rw [← List.zipIdx_map_fst 0 bundleData]
        rw [List.map_map,bundleInfos,List.map_map,List.map_map]
        rfl
      rw [hdomains,← (domain_of_mem_domainCut ha).2,← (domain_of_mem_domainCut hb).2] at hlt
      exact Prod.Lex.toLex_lt_toLex.mpr (.inl hlt)

theorem pairwise_sorted : (sortByKey (topologyKey (keptInfos segmentSize gpusPerNode
      (bundleInfos bundleData))) (keptInfos segmentSize gpusPerNode (bundleInfos bundleData))).Pairwise
    fun a b => orderKey (keptInfos segmentSize gpusPerNode (bundleInfos bundleData))
      (position bundleData segmentSize) a <
        orderKey (keptInfos segmentSize gpusPerNode (bundleInfos bundleData))
          (position bundleData segmentSize) b := by
  refine (pairwise_sortByKey_of_pairwise pairwise_keptInfos).imp ?_
  simp only [topologyKey,orderKey,Prod.Lex.toLex_lt_toLex,EmbeddingLike.apply_eq_iff_eq,Prod.mk.injEq]
  rintro a b ((hleast | ⟨hleast,hrank | ⟨hrank,hgpu⟩⟩) | ⟨⟨hleast,hrank,hgpu⟩,hplace⟩)
  · exact .inl hleast
  · exact .inr ⟨hleast,.inl hrank⟩
  · exact .inr ⟨hleast,.inr ⟨hrank,.inl hgpu⟩⟩
  · exact .inr ⟨hleast,.inr ⟨hrank,.inr ⟨hgpu,hplace hrank hgpu⟩⟩⟩

theorem mem_of_mem_keptInfos {infos : List BundleInfo} {x : BundleInfo}
    (h : x ∈ keptInfos segmentSize gpusPerNode infos) : x ∈ infos := by
  cases segmentSize with
  | none => exact h
  | some s => exact (domain_of_mem_domainCut (mem_keepSegments.mp h)).1

end Order

theorem exists_leastRank {kept : List BundleInfo} {x : BundleInfo} (h : x ∈ kept) :
    ∃ r, leastRank kept x.nvlinkDomain = some r := by
  refine Option.isSome_iff_exists.mp (List.isSome_min?_of_mem (a := x.topoRank) ?_)
  exact List.mem_map_of_mem (List.mem_filter.mpr ⟨h,decide_eq_true rfl⟩)

theorem leastRank_eq_iff {kept : List BundleInfo} {a b : BundleInfo} (ha : a ∈ kept) (hb : b ∈ kept) :
    ((domainToMinTopoRank kept).get? b.nvlinkDomain).getD 0 =
        ((domainToMinTopoRank kept).get? a.nvlinkDomain).getD 0 ↔
      leastRank kept b.nvlinkDomain = leastRank kept a.nvlinkDomain := by
  rw [get?_domainToMinTopoRank,get?_domainToMinTopoRank]
  obtain ⟨r,hr⟩ := exists_leastRank ha
  obtain ⟨r',hr'⟩ := exists_leastRank hb
  rw [hr,hr',Option.getD_some,Option.getD_some,Option.some.injEq]

theorem orderKey_between_iff {kept : List BundleInfo} {place : BundleInfo → ℕ ×ₗ ℕ}
    {a b c : BundleInfo} (ha : a ∈ kept) (hb : b ∈ kept) (hdomain : c.nvlinkDomain = a.nvlinkDomain) :
    (orderKey kept place a < orderKey kept place b ∧ orderKey kept place b < orderKey kept place c) ↔
      leastRank kept b.nvlinkDomain = leastRank kept a.nvlinkDomain ∧
        toLex (a.topoRank,toLex (a.gpuId,place a)) < toLex (b.topoRank,toLex (b.gpuId,place b)) ∧
        toLex (b.topoRank,toLex (b.gpuId,place b)) < toLex (c.topoRank,toLex (c.gpuId,place c)) := by
  rw [orderKey,orderKey,orderKey,hdomain,lex_between_iff,leastRank_eq_iff ha hb]

theorem WellFormed.same {bundleData : List Bundle} (hwell : WellFormed bundleData) {a b : BundleInfo}
    (ha : a ∈ bundleInfos bundleData) (hb : b ∈ bundleInfos bundleData) (h : a.nodeId = b.nodeId) :
    a.nvlinkDomain = b.nvlinkDomain ∧ a.topoRank = b.topoRank :=
  hwell.sameNode _ (List.mem_of_getElem? (mem_bundleInfos.mp ha)) _
    (List.mem_of_getElem? (mem_bundleInfos.mp hb)) h

theorem WellFormed.gpu_ne {bundleData : List Bundle} (hwell : WellFormed bundleData)
    {a b : BundleInfo} (ha : a ∈ bundleInfos bundleData) (hb : b ∈ bundleInfos bundleData)
    (hne : a ≠ b) : a.nodeId = b.nodeId → a.gpuId ≠ b.gpuId := by
  have hpairs : (bundleInfos bundleData).Pairwise fun a b => a.nodeId = b.nodeId → a.gpuId ≠ b.gpuId := by
    have hgpus := hwell.gpus
    rw [← List.zipIdx_map_fst 0 bundleData,List.pairwise_map] at hgpus
    exact List.pairwise_map.mpr hgpus
  have hsymm : Std.Symm fun a b : BundleInfo => a.nodeId = b.nodeId → a.gpuId ≠ b.gpuId :=
    ⟨fun _ _ h heq => (h heq.symm).symm⟩
  exact hpairs.forall ha hb hne

section Whole

variable {bundleData : List Bundle} {kept sorted : List BundleInfo} {place : BundleInfo → ℕ ×ₗ ℕ}

theorem together_iff_noneBetween (hwell : WellFormed bundleData)
    (hkept : ∀ x ∈ kept, x ∈ bundleInfos bundleData) (hmem : ∀ x, x ∈ sorted ↔ x ∈ kept)
    (hsorted : sorted.Pairwise fun a b => orderKey kept place a < orderKey kept place b) :
    ((∀ node, Together (fun x => x.nodeId = node) sorted) ∧
      ∀ d ≠ nvlinkDomainUnknown, Together (fun x => x.nvlinkDomain = d) sorted) ↔
        NoneBetween kept place := by
  simp only [together_iff hsorted,hmem]
  constructor
  · rintro ⟨hnodes,hdomains⟩
    refine ⟨fun a ha b hb c hc hnode hleast hrank hab hbc => ?_,?_⟩
    · obtain ⟨hdomain,hrank'⟩ := hwell.same (hkept c hc) (hkept a ha) hnode
      have hbetween := (orderKey_between_iff ha hb hdomain).mpr
        ⟨hleast,by rw [hrank',lex_between_iff]; exact ⟨hrank,hab,hbc⟩⟩
      exact hnodes a.nodeId a ha b hb c hc hbetween.1 hbetween.2 rfl hnode
    · intro a ha b hb c hc hdomain hknown hleast hab hbc
      have hbetween := (orderKey_between_iff ha hb hdomain).mpr ⟨hleast,hab,hbc⟩
      exact hdomains _ hknown a ha b hb c hc hbetween.1 hbetween.2 rfl hdomain
  · intro hnone
    refine ⟨?_,?_⟩
    · rintro node a ha b hb c hc hab hbc rfl hnode
      obtain ⟨hdomain,hrank⟩ := hwell.same (hkept c hc) (hkept a ha) hnode
      obtain ⟨hleast,hbetween⟩ := (orderKey_between_iff ha hb hdomain).mp ⟨hab,hbc⟩
      rw [hrank,lex_between_iff] at hbetween
      exact hnone.nodes a ha b hb c hc hnode hleast hbetween.1 hbetween.2.1 hbetween.2.2
    · rintro d hknown a ha b hb c hc hab hbc rfl hdomain
      obtain ⟨hleast,hbetween⟩ := (orderKey_between_iff ha hb hdomain).mp ⟨hab,hbc⟩
      exact hnone.domains a ha b hb c hc hdomain hknown hleast hbetween.1 hbetween.2

theorem ascending_sorted (hwell : WellFormed bundleData)
    (hmem : ∀ x ∈ sorted, x ∈ bundleInfos bundleData)
    (hsorted : sorted.Pairwise fun a b => orderKey kept place a < orderKey kept place b) :
    sorted.Pairwise fun a b => a.nodeId = b.nodeId → a.gpuId < b.gpuId := by
  refine hsorted.imp_of_mem fun {a b} ha hb hlt hnode => ?_
  obtain ⟨hdomain,hrank⟩ := hwell.same (hmem a ha) (hmem b hb) hnode
  have hne : a ≠ b := fun heq => (heq ▸ hlt).false
  have hgpu := hwell.gpu_ne (hmem a ha) (hmem b hb) hne hnode
  simp only [orderKey,Prod.Lex.toLex_lt_toLex,hdomain,hrank,lt_irrefl,true_and,false_or,hgpu,
    false_and,or_false] at hlt
  exact hlt

end Whole

theorem NoneBetween.congr {kept kept' : List BundleInfo} {place : BundleInfo → ℕ ×ₗ ℕ}
    (h : ∀ x, x ∈ kept ↔ x ∈ kept') : NoneBetween kept place ↔ NoneBetween kept' place := by
  have hleast := leastRank_congr h
  constructor
  · rintro ⟨hnodes,hdomains⟩
    simp only [h,hleast] at hnodes hdomains
    exact ⟨hnodes,hdomains⟩
  · rintro ⟨hnodes,hdomains⟩
    simp only [← h,← hleast] at hnodes hdomains
    exact ⟨hnodes,hdomains⟩

theorem unknown_of_not_hasTopology {bundleData : List Bundle} (h : hasTopology bundleData = false)
    {x : BundleInfo} (hx : x ∈ bundleInfos bundleData) : x.nvlinkDomain = nvlinkDomainUnknown := by
  have hnot := List.any_eq_false.mp h x.toBundle (List.mem_of_getElem? (mem_bundleInfos.mp hx))
  by_contra hne
  exact hnot (decide_eq_true (.inl hne))

theorem mem_map_idx {bundleData : List Bundle} {sorted : List BundleInfo}
    (hmem : ∀ x, x ∈ sorted ↔ x ∈ bundleInfos bundleData) {i : ℕ} (hi : i < bundleData.length) :
    i ∈ sorted.map BundleInfo.idx := by
  refine List.mem_map.mpr ⟨{ bundleData[i] with idx := i },(hmem _).mpr ?_,rfl⟩
  exact mem_bundleInfos.mpr (List.getElem?_eq_getElem hi)

theorem nodup_map_idx {bundleData : List Bundle} {sorted : List BundleInfo} (hnodup : sorted.Nodup)
    (hmem : ∀ x ∈ sorted, x ∈ bundleInfos bundleData) : (sorted.map BundleInfo.idx).Nodup := by
  refine List.Nodup.map_on (fun a ha b hb hidx => ?_) hnodup
  have ha := mem_bundleInfos.mp (hmem a ha)
  have hb := mem_bundleInfos.mp (hmem b hb)
  rw [hidx,hb] at ha
  obtain ⟨a,i⟩ := a
  obtain ⟨b,j⟩ := b
  exact (congrArg₂ BundleInfo.mk (Option.some.inj ha) hidx.symm).symm

theorem lt_length_of_mem {bundleData : List Bundle} {sorted : List BundleInfo}
    (hmem : ∀ x ∈ sorted, x ∈ bundleInfos bundleData) :
    ∀ i ∈ sorted.map BundleInfo.idx, i < bundleData.length := by
  intro i hi
  obtain ⟨x,hx,rfl⟩ := List.mem_map.mp hi
  exact (List.getElem?_eq_some_iff.mp (mem_bundleInfos.mp (hmem x hx))).1

theorem keepsWhole_of_not_hasTopology {bundleData : List Bundle} {segmentSize : Option ℕ}
    (hwell : WellFormed bundleData) (h : hasTopology bundleData = false) :
    KeepsWhole bundleData segmentSize
      ((sortByKey (fun x => toLex (x.nodeId,x.gpuId)) (bundleInfos bundleData)).map BundleInfo.idx) := by
  set sorted := sortByKey (fun x => toLex (x.nodeId,x.gpuId)) (bundleInfos bundleData) with hdef
  have hmem : ∀ x, x ∈ sorted ↔ x ∈ bundleInfos bundleData := fun x => (sortByKey_perm _ _).mem_iff
  have hsub : ∀ x ∈ sorted, x ∈ bundleInfos bundleData := fun x => (hmem x).mp
  have hsorted : sorted.Pairwise fun a b =>
      toLex (a.nodeId,toLex (a.gpuId,a.idx)) < toLex (b.nodeId,toLex (b.gpuId,b.idx)) := by
    refine (pairwise_sortByKey_of_pairwise (pairwise_bundleInfos bundleData)).imp ?_
    simp only [Prod.Lex.toLex_lt_toLex,EmbeddingLike.apply_eq_iff_eq,Prod.mk.injEq]
    rintro a b ((hnode | hgpu) | ⟨⟨hnode,hgpu⟩,hidx⟩)
    · exact .inl hnode
    · exact .inr ⟨hgpu.1,.inl hgpu.2⟩
    · exact .inr ⟨hnode,.inr ⟨hgpu,hidx⟩⟩
  have hpicked := picked_map_idx hsub
  have hnone : ∀ {infos : List BundleInfo} {d : String}, (∀ x ∈ infos, x ∈ bundleInfos bundleData) →
      d ≠ nvlinkDomainUnknown → domainNodes infos d = ∅ := by
    intro infos d hinfos hd
    rw [domainNodes,List.filter_eq_nil_iff.mpr]
    · rfl
    · intro x hx heq
      exact hd ((of_decide_eq_true heq).symm.trans (unknown_of_not_hasTopology h (hinfos x hx)))
  refine ⟨nodup_map_idx (nodup_of_pairwise_lt hsorted) hsub,lt_length_of_mem hsub,?_,?_,?_,
    fun _ i hi => mem_map_idx hmem hi,?_,?_⟩ <;> rw [hpicked]
  · intro node
    rw [together_iff hsorted]
    rintro a - b - c - hab hbc rfl hnode
    have hbetween := And.intro hab hbc
    rw [hnode,lex_between_iff] at hbetween
    exact hbetween.1
  · refine hsorted.imp_of_mem fun {a b} ha hb hlt hnode => ?_
    have hne : a ≠ b := fun heq => (heq ▸ hlt).false
    have hgpu := hwell.gpu_ne (hsub a ha) (hsub b hb) hne hnode
    simp only [Prod.Lex.toLex_lt_toLex,hnode,lt_irrefl,true_and,false_or,hgpu,false_and,
      or_false] at hlt
    exact hlt
  · intro d hd a b c hsublist ha
    have hmema := hsub a (hsublist.subset (by simp))
    exact absurd (ha.symm.trans (unknown_of_not_hasTopology h hmema)) hd
  · intro s _ d hd
    rw [hnone hsub hd,hnone (fun _ hx => hx) hd]
    simp
  · intro s _ x _ y hy _
    exact (hmem y).mpr hy

section Topology

variable {bundleData : List Bundle} {segmentSize gpusPerNode : Option ℕ} {nodes : Finset String}

theorem mem_domain_iff {d : String} {a : BundleInfo} :
    a ∈ sortByKey (fun x => toLex (x.topoRank,x.gpuId))
      ((bundleInfos bundleData).filter fun x => x.nvlinkDomain = d) ↔
        a ∈ bundleInfos bundleData ∧ a.nvlinkDomain = d := by
  rw [(sortByKey_perm _ _).mem_iff,List.mem_filter,decide_eq_true_iff]

theorem domainCut_eq_filter_iff {s g : ℕ} {d : String} :
    domainCut s g (bundleInfos bundleData) d =
        (sortByKey (fun x => toLex (x.topoRank,x.gpuId))
          ((bundleInfos bundleData).filter fun x => x.nvlinkDomain = d)).filter
            (fun x => x.nodeId ∈ nodes) ↔
      ((bundleInfos bundleData).filter fun x => x.nvlinkDomain = d).countP (fun x => x.nodeId ∈ nodes) =
        min (usableNodes s ((bundleInfos bundleData).filter fun x => x.nvlinkDomain = d) * g)
          ((bundleInfos bundleData).filter fun x => x.nvlinkDomain = d).length ∧
      ∀ a ∈ bundleInfos bundleData, ∀ b ∈ bundleInfos bundleData, a.nvlinkDomain = d →
        b.nvlinkDomain = d → a.nodeId ∈ nodes → b.nodeId ∉ nodes →
          toLex (a.topoRank,toLex (a.gpuId,a.idx)) < toLex (b.topoRank,toLex (b.gpuId,b.idx)) := by
  rw [domainCut,take_eq_filter_iff (pairwise_domain bundleData d),(sortByKey_perm _ _).countP_eq,
    (sortByKey_perm _ _).length_eq]
  simp only [mem_domain_iff]
  refine and_congr_right fun _ => ?_
  constructor
  · intro h a ha b hb had hbd
    exact h a ⟨ha,had⟩ b ⟨hb,hbd⟩
  · intro h a ha b hb
    exact h a ha.1 b hb.1 ha.2 hb.2

theorem mem_keptInfos_of_cutsWhole
    (hall : segmentSize = none → ∀ x ∈ bundleInfos bundleData, x.nodeId ∈ nodes)
    (hcuts : ∀ s ∈ segmentSize, ∀ d,
      CutsWhole (bundleInfos bundleData) s (gpusPerNode.getD 0) nodes d) (x : BundleInfo) :
    x ∈ keptInfos segmentSize gpusPerNode (bundleInfos bundleData) ↔
      x ∈ (bundleInfos bundleData).filter fun x => x.nodeId ∈ nodes := by
  rw [List.mem_filter,decide_eq_true_iff]
  cases segmentSize with
  | none => exact ⟨fun hx => ⟨hx,hall rfl x hx⟩,fun hx => hx.1⟩
  | some s =>
    have hcut := domainCut_eq_filter_iff.mpr
      ⟨(hcuts s rfl x.nvlinkDomain).count,(hcuts s rfl x.nvlinkDomain).first⟩
    rw [keptInfos,mem_keepSegments,hcut,List.mem_filter,mem_domain_iff,and_iff_left rfl,
      decide_eq_true_iff]

theorem domainNodes_inter {kept : List BundleInfo}
    (hmem : ∀ x, x ∈ kept ↔ x ∈ (bundleInfos bundleData).filter fun x => x.nodeId ∈ nodes)
    (d : String) : domainNodes kept d = domainNodes (bundleInfos bundleData) d ∩ nodes := by
  ext node
  simp only [domainNodes,Finset.mem_inter,List.mem_toFinset,List.mem_map,List.mem_filter,hmem,
    decide_eq_true_eq]
  constructor
  · rintro ⟨x,⟨⟨hx,hnode⟩,hd⟩,rfl⟩
    exact ⟨⟨x,⟨hx,hd⟩,rfl⟩,hnode⟩
  · rintro ⟨⟨x,⟨hx,hd⟩,rfl⟩,hnode⟩
    exact ⟨x,⟨⟨hx,hnode⟩,hd⟩,rfl⟩

theorem cutsWhole_of_mem {s g : ℕ}
    (hmem : ∀ x, x ∈ keepSegments s g (bundleInfos bundleData) ↔
      x ∈ (bundleInfos bundleData).filter fun x => x.nodeId ∈ nodes)
    (hcard : ∀ d ≠ nvlinkDomainUnknown,
      (domainNodes (keepSegments s g (bundleInfos bundleData)) d).card =
        (domainNodes (bundleInfos bundleData) d).card / s * s) (d : String) :
    CutsWhole (bundleInfos bundleData) s g nodes d := by
  have hcut : domainCut s g (bundleInfos bundleData) d =
      (sortByKey (fun x => toLex (x.topoRank,x.gpuId))
        ((bundleInfos bundleData).filter fun x => x.nvlinkDomain = d)).filter
          (fun x => x.nodeId ∈ nodes) := by
    refine take_eq_filter_of_mem (pairwise_domain bundleData d) fun a ha => ?_
    obtain ⟨hinfo,rfl⟩ := mem_domain_iff.mp ha
    have hkept := hmem a
    rw [mem_keepSegments,List.mem_filter,decide_eq_true_iff,and_iff_right hinfo] at hkept
    exact hkept
  obtain ⟨hcount,hfirst⟩ := domainCut_eq_filter_iff.mp hcut
  refine ⟨hcount,hfirst,fun hd => ?_⟩
  rw [← domainNodes_inter hmem,hcard d hd]

theorem keepsWhole_sorted_iff (hwell : WellFormed bundleData) :
    KeepsWhole bundleData segmentSize ((sortByKey (topologyKey (keptInfos segmentSize gpusPerNode
        (bundleInfos bundleData))) (keptInfos segmentSize gpusPerNode
          (bundleInfos bundleData))).map BundleInfo.idx) ↔
      ∃ nodes : Finset String,
        (segmentSize = none → ∀ x ∈ bundleInfos bundleData, x.nodeId ∈ nodes) ∧
        (∀ s ∈ segmentSize, ∀ d, CutsWhole (bundleInfos bundleData) s (gpusPerNode.getD 0) nodes d) ∧
        NoneBetween ((bundleInfos bundleData).filter fun x => x.nodeId ∈ nodes)
          (position bundleData segmentSize) := by
  set kept := keptInfos segmentSize gpusPerNode (bundleInfos bundleData) with hdef
  set sorted := sortByKey (topologyKey kept) kept with hsorteddef
  have hperm : ∀ x, x ∈ sorted ↔ x ∈ kept := fun x => (sortByKey_perm _ _).mem_iff
  have hkept : ∀ x ∈ kept, x ∈ bundleInfos bundleData := fun x => mem_of_mem_keptInfos
  have hsub : ∀ x ∈ sorted, x ∈ bundleInfos bundleData := fun x hx => hkept x ((hperm x).mp hx)
  have hsorted : sorted.Pairwise fun a b => orderKey kept (position bundleData segmentSize) a <
      orderKey kept (position bundleData segmentSize) b := pairwise_sorted
  have hpicked := picked_map_idx hsub
  have htogether := together_iff_noneBetween hwell hkept hperm hsorted
  have hcardSorted : ∀ d, domainNodes sorted d = domainNodes kept d := by
    intro d
    ext node
    simp only [domainNodes,List.mem_toFinset,List.mem_map,List.mem_filter,hperm]
  constructor
  · intro hwhole
    have hmem : ∀ x, x ∈ kept ↔
        x ∈ (bundleInfos bundleData).filter fun x => x.nodeId ∈ (kept.map fun x => x.nodeId).toFinset := by
      intro x
      rw [List.mem_filter,decide_eq_true_iff,List.mem_toFinset]
      refine ⟨fun hx => ⟨hkept x hx,List.mem_map_of_mem hx⟩,?_⟩
      rintro ⟨hinfo,hnode⟩
      obtain ⟨y,hy,hsame⟩ := List.mem_map.mp hnode
      cases hseg : segmentSize with
      | none => rwa [hdef,hseg]
      | some s =>
        have hclosed := hwhole.whole s hseg
        rw [hpicked] at hclosed
        exact (hperm x).mp (hclosed y ((hperm y).mpr hy) x hinfo hsame.symm)
    refine ⟨(kept.map fun x => x.nodeId).toFinset,?_,?_,?_⟩
    · intro hnone x hx
      rw [hdef,hnone]
      exact List.mem_toFinset.mpr (List.mem_map_of_mem hx)
    · rintro s hs d
      have hcard := hwhole.segments s hs
      rw [hpicked] at hcard
      obtain rfl := Option.mem_def.mp hs
      exact cutsWhole_of_mem hmem (fun d hd => (congrArg _ (hcardSorted d)).symm.trans (hcard d hd)) d
    · refine (NoneBetween.congr hmem).mp (htogether.mp ⟨?_,?_⟩)
      · have hnodes := hwhole.nodes
        rwa [hpicked] at hnodes
      · have hdomains := hwhole.domains
        rwa [hpicked] at hdomains
  · rintro ⟨nodes,hall,hcuts,hnone⟩
    have hmem : ∀ x, x ∈ kept ↔ x ∈ (bundleInfos bundleData).filter fun x => x.nodeId ∈ nodes :=
      mem_keptInfos_of_cutsWhole hall hcuts
    obtain ⟨hnodes,hdomains⟩ := htogether.mpr ((NoneBetween.congr hmem).mpr hnone)
    refine ⟨nodup_map_idx (nodup_of_pairwise_lt hsorted) hsub,lt_length_of_mem hsub,?_,?_,?_,?_,?_,?_⟩
    · rwa [hpicked]
    · rw [hpicked]
      exact ascending_sorted hwell hsub hsorted
    · rwa [hpicked]
    · intro hnone i hi
      refine mem_map_idx (fun x => (hperm x).trans ?_) hi
      rw [hdef,hnone]
      exact Iff.rfl
    · intro s hs d hd
      rw [hpicked,hcardSorted,domainNodes_inter hmem]
      exact (hcuts s hs d).card hd
    · intro s hs x hx y hy hnode
      rw [hpicked] at hx ⊢
      have hx := (hmem x).mp ((hperm x).mp hx)
      refine (hperm y).mpr ((hmem y).mpr (List.mem_filter.mpr ⟨hy,?_⟩))
      rw [hnode]
      exact (List.mem_filter.mp hx).2

end Topology

/-- Nodes and segments stay whole without a topology, and else exactly when the cut of every domain
splits no node and no bundle lies between bundles that the order is to keep together. -/
theorem keepsWhole_iff {bundleData : List Bundle} {segmentSize gpusPerNode : Option ℕ}
    {order : List ℕ} (hwell : WellFormed bundleData)
    (h : sortBundleIndicesByTopology bundleData segmentSize gpusPerNode = .ok order) :
    KeepsWhole bundleData segmentSize order ↔ StaysWhole bundleData segmentSize gpusPerNode := by
  rw [sortBundleIndicesByTopology] at h
  split_ifs at h with hgpus hnil htopology hzero
  · obtain rfl := Except.ok.inj h
    subst hnil
    exact iff_of_true (keepsWhole_of_not_hasTopology hwell rfl) (.inl rfl)
  · obtain rfl := Except.ok.inj h
    exact iff_of_true (keepsWhole_of_not_hasTopology hwell htopology) (.inl htopology)
  · obtain rfl := Except.ok.inj h
    rw [StaysWhole,or_iff_right htopology]
    exact keepsWhole_sorted_iff hwell

def unrankedBundles : List Bundle :=
  [⟨0,"nvlink_domain_A",-1,"n0"⟩,⟨1,"nvlink_domain_A",-1,"n0"⟩,⟨0,"nvlink_domain_A",-1,"n1"⟩,
    ⟨1,"nvlink_domain_A",-1,"n1"⟩]

/-- Three nodes of one domain, of which two make a segment, and one of another. -/
def rankedBundles : List Bundle :=
  [⟨1,"nvlink_domain_A",1,"n1"⟩,⟨0,"nvlink_domain_B",3,"n3"⟩,⟨1,"nvlink_domain_A",0,"n0"⟩,
    ⟨0,"nvlink_domain_A",2,"n2"⟩,⟨0,"nvlink_domain_A",1,"n1"⟩,⟨1,"nvlink_domain_A",2,"n2"⟩,
    ⟨0,"nvlink_domain_A",0,"n0"⟩,⟨1,"nvlink_domain_B",3,"n3"⟩]

theorem cutsWhole_ranked (d : String) : CutsWhole (bundleInfos rankedBundles) 2 2 {"n0","n1"} d := by
  have hdomains : ∀ x ∈ bundleInfos rankedBundles,
      x.nvlinkDomain = "nvlink_domain_A" ∨ x.nvlinkDomain = "nvlink_domain_B" := by decide
  by_cases hA : d = "nvlink_domain_A"
  · subst hA
    exact ⟨by decide +kernel,by decide +kernel,by decide +kernel⟩
  by_cases hB : d = "nvlink_domain_B"
  · subst hB
    exact ⟨by decide +kernel,by decide +kernel,by decide +kernel⟩
  have hnone : (bundleInfos rankedBundles).filter (fun x => x.nvlinkDomain = d) = [] := by
    refine List.filter_eq_nil_iff.mpr fun x hx hd => ?_
    rcases hdomains x hx with h | h
    · exact hA ((of_decide_eq_true hd).symm.trans h)
    · exact hB ((of_decide_eq_true hd).symm.trans h)
  refine ⟨by rw [hnone]; rfl,fun a ha b _ hda => ?_,fun _ => by rw [domainNodes,hnone]; rfl⟩
  have hmem : a ∈ (bundleInfos rankedBundles).filter fun x => x.nvlinkDomain = d :=
    List.mem_filter.mpr ⟨ha,decide_eq_true hda⟩
  rw [hnone] at hmem
  cases hmem

theorem keepsWhole_ranked : KeepsWhole rankedBundles (some 2) [6,2,4,0] := by
  refine (@keepsWhole_iff _ _ (some 2) _ ⟨by decide,by decide⟩ (by decide +kernel)).mpr
    (.inr ⟨{"n0","n1"},fun h => (Option.some_ne_none 2 h).elim,fun s hs d => ?_,?_⟩)
  · obtain rfl := Option.mem_some_iff.mp hs
    exact cutsWhole_ranked d
  · exact ⟨by decide +kernel,by decide +kernel⟩

/-- Bundles of two nodes without ranks are interleaved. -/
theorem unranked_interleaved : ∃ bundleData order, WellFormed bundleData ∧
    (∀ b ∈ bundleData, bundleData.countP (fun c => c.nodeId = b.nodeId) ≤ 2) ∧
    sortBundleIndicesByTopology bundleData (some 1) (some 2) = .ok order ∧
      ¬KeepsWhole bundleData (some 1) order := by
  refine ⟨unrankedBundles,[0,2,1,3],⟨by decide,by decide⟩,by decide,by decide,fun hwhole => ?_⟩
  have hnode := hwhole.nodes "n0" _ _ _ (List.sublist_append_left _ [_]) rfl rfl
  exact absurd hnode (by decide)

end Distributed
end DockyardRL
