import DockyardRL.Lib.Chunks
import DockyardRL.Lib.Grouping
import Mathlib.Data.Nat.ModEq

/-! Nodes of a cluster for a role: whole segments of the NVLink domains, in the order of the
topological ranks. -/
namespace DockyardRL
namespace Distributed

open Collect SortByKey

/-- `NVLINK_DOMAIN_UNKNOWN`. -/
def nvlinkDomainUnknown : String := "unknown"

/-- `TOPO_RANK_UNKNOWN`. -/
def topoRankUnknown : ℤ := -1

abbrev Topology := Dict String (String × ℤ)

inductive SegmentError
  | valueError (numNodes segmentSize : ℕ)
  | resourceInsufficiency (numSegmentsNeeded segmentSize : ℕ) (domainSummary : List (String × ℕ))
      (numNodes : ℕ)
  deriving DecidableEq

namespace Topology

variable (topology : Topology)

def knownNodes : List (String × String × ℤ) :=
  topology.entries.filterMap fun entry =>
    if entry.2.1 = nvlinkDomainUnknown then none else some (entry.2.1,entry.1,entry.2.2)

/-- `domain_nodes`, the nodes of every domain sorted by their ranks. -/
def domainNodes : Dict String (List (String × ℤ)) :=
  (collect topology.knownNodes).mapValues (sortByKey Prod.snd)

def sortedDomains : List (String × List (String × ℤ)) :=
  sortByKey (fun item => ((item.2.head?.map Prod.snd).getD 0 : ℤ)) topology.domainNodes.entries

end Topology

/-- The loop over the domains. -/
def selectLoop (segmentSize numSegmentsNeeded : ℕ) :
    List (String × List (String × ℤ)) → List String → ℕ → List String × ℕ
  | [],selectedNodeIds,segmentsTaken => (selectedNodeIds,segmentsTaken)
  | (_,nodes) :: domains,selectedNodeIds,segmentsTaken =>
    if numSegmentsNeeded ≤ segmentsTaken then (selectedNodeIds,segmentsTaken)
    else
      let segmentsToTake := min (nodes.length / segmentSize) (numSegmentsNeeded - segmentsTaken)
      selectLoop segmentSize numSegmentsNeeded domains
        (selectedNodeIds ++ (nodes.take (segmentsToTake * segmentSize)).map Prod.fst)
        (segmentsTaken + segmentsToTake)

def selectSegmentNodes (topology : Topology) (segmentSize numNodes : ℕ) :
    Except SegmentError (List String × List String) :=
  if numNodes % segmentSize ≠ 0 then .error (.valueError numNodes segmentSize)
  else
    let numSegmentsNeeded := numNodes / segmentSize
    let (selectedNodeIds,segmentsTaken) :=
      selectLoop segmentSize numSegmentsNeeded topology.sortedDomains [] 0
    if segmentsTaken < numSegmentsNeeded then
      .error (.resourceInsufficiency numSegmentsNeeded segmentSize
        (topology.sortedDomains.map fun item => (item.1,item.2.length)) numNodes)
    else .ok (selectedNodeIds,topology.keys.filter fun nid => nid ∉ selectedNodeIds)

/-- `prepare_segment_topology` for a given topology: the domain every selected node is pinned to, and
the other nodes. -/
def prepareSegmentTopology (segmentSize : Option ℕ) (numNodes : ℕ) (topology : Topology) :
    Except SegmentError (Option (List String) × List String × Topology) :=
  match segmentSize with
  | none => .ok (none,[],.empty)
  | some segmentSize =>
    if topology.entries.any fun entry => entry.2.1 ≠ nvlinkDomainUnknown then
      (selectSegmentNodes topology segmentSize numNodes).map fun nodes =>
        (some (nodes.1.filterMap fun nid => (topology.get? nid).map Prod.fst),nodes.2,topology)
    else .ok (none,topology.keys,topology)

namespace Topology

variable (topology : Topology)

def domain (nid : String) : String := ((topology.get? nid).map Prod.fst).getD nvlinkDomainUnknown

def knownDomains : Finset String :=
  (topology.entries.map fun entry => entry.2.1).toFinset.erase nvlinkDomainUnknown

def nodesByRank (d : String) : List String :=
  (sortByKey (fun entry => entry.2.2) (topology.entries.filter fun entry => entry.2.1 = d)).map Prod.fst

def segments (segmentSize : ℕ) : ℕ :=
  ∑ d ∈ topology.knownDomains, (topology.nodesByRank d).length / segmentSize

def restrict (nids : List String) : Topology where
  entries := topology.entries.filter fun entry => entry.1 ∈ nids
  nodup := topology.nodup.sublist (List.filter_sublist.map Prod.fst)

variable {topology}

theorem valuesOf_knownNodes {d : String} (hd : d ≠ nvlinkDomainUnknown) :
    valuesOf topology.knownNodes d =
      (topology.entries.filter fun entry => entry.2.1 = d).map fun entry => (entry.1,entry.2.2) := by
  rw [knownNodes]
  induction topology.entries with
  | nil => rfl
  | cons entry entries ih =>
    rw [valuesOf] at ih ⊢
    by_cases hunknown : entry.2.1 = nvlinkDomainUnknown
    · have hne : entry.2.1 ≠ d := fun heq => hd (heq.symm.trans hunknown)
      rw [List.filterMap_cons_none (by rw [if_pos hunknown]),ih,
        List.filter_cons_of_neg (by simpa using hne)]
    · rw [List.filterMap_cons_some (by rw [if_neg hunknown])]
      by_cases heq : entry.2.1 = d
      · rw [List.filter_cons_of_pos (by simpa using heq),List.filter_cons_of_pos (by simpa using heq),
          List.map_cons,List.map_cons,ih]
      · rw [List.filter_cons_of_neg (by simpa using heq),List.filter_cons_of_neg (by simpa using heq),
          ih]

theorem mem_knownDomains {d : String} :
    d ∈ topology.knownDomains ↔ d ≠ nvlinkDomainUnknown ∧ d ∈ topology.knownNodes.map Prod.fst := by
  rw [knownDomains,Finset.mem_erase,List.mem_toFinset]
  refine and_congr_right fun hd => ?_
  rw [knownNodes,List.mem_map,List.mem_map]
  constructor
  · rintro ⟨entry,hentry,rfl⟩
    exact ⟨_,List.mem_filterMap.mpr ⟨entry,hentry,if_neg hd⟩,rfl⟩
  · rintro ⟨known,hknown,rfl⟩
    obtain ⟨entry,hentry,hsome⟩ := List.mem_filterMap.mp hknown
    split_ifs at hsome
    obtain rfl := Option.some.inj hsome
    exact ⟨entry,hentry,rfl⟩

theorem known_of_mem {d : String} (h : d ∈ topology.knownNodes.map Prod.fst) :
    d ≠ nvlinkDomainUnknown := by
  obtain ⟨known,hknown,rfl⟩ := List.mem_map.mp h
  obtain ⟨entry,-,hsome⟩ := List.mem_filterMap.mp hknown
  split_ifs at hsome with hunknown
  obtain rfl := Option.some.inj hsome
  exact hunknown

theorem mem_sortedDomains {item : String × List (String × ℤ)} :
    item ∈ topology.sortedDomains ↔ item.1 ∈ topology.knownDomains ∧
      item.2 = sortByKey Prod.snd (valuesOf topology.knownNodes item.1) := by
  rw [sortedDomains,(sortByKey_perm _ _).mem_iff,domainNodes,Dict.mapValues,List.mem_map,
    mem_knownDomains]
  constructor
  · rintro ⟨entry,hentry,rfl⟩
    obtain ⟨hkey,hvalues⟩ := mem_entries_collect.mp hentry
    exact ⟨⟨known_of_mem hkey,hkey⟩,by rw [hvalues]⟩
  · rintro ⟨⟨-,hkey⟩,hnodes⟩
    exact ⟨_,mem_entries_collect.mpr ⟨hkey,rfl⟩,Prod.ext rfl hnodes.symm⟩

theorem nodup_sortedDomains : (topology.sortedDomains.map Prod.fst).Nodup :=
  ((sortByKey_perm _ _).map Prod.fst).nodup_iff.mpr topology.domainNodes.nodup

theorem map_fst_nodes {d : String} (hd : d ≠ nvlinkDomainUnknown) :
    (sortByKey (Prod.snd : String × ℤ → ℤ) (valuesOf topology.knownNodes d)).map Prod.fst =
      topology.nodesByRank d := by
  rw [valuesOf_knownNodes hd,nodesByRank,sortByKey,sortByKey,
    ← List.map_insertionSort (fun a b : String × String × ℤ => a.2.2 ≤ b.2.2) (fun a b => a.2 ≤ b.2)
      (fun entry : String × String × ℤ => (entry.1,entry.2.2)) _ fun _ _ _ _ => Iff.rfl,List.map_map]
  rfl

theorem available_sortedDomains (segmentSize : ℕ) :
    available segmentSize topology.sortedDomains = topology.segments segmentSize := by
  have hkeys : (topology.sortedDomains.map Prod.fst).toFinset = topology.knownDomains := by
    ext d
    rw [List.mem_toFinset,List.mem_map]
    constructor
    · rintro ⟨item,hitem,rfl⟩
      exact (mem_sortedDomains.mp hitem).1
    · intro hd
      exact ⟨(d,sortByKey Prod.snd (valuesOf topology.knownNodes d)),
        mem_sortedDomains.mpr ⟨hd,rfl⟩,rfl⟩
  rw [segments,← hkeys,List.sum_toFinset _ nodup_sortedDomains,List.map_map,available]
  refine congrArg List.sum (List.map_congr_left fun item hitem => ?_)
  obtain ⟨hd,hnodes⟩ := mem_sortedDomains.mp hitem
  rw [Function.comp_apply,← map_fst_nodes (mem_knownDomains.mp hd).1,← hnodes,List.length_map]

end Topology

theorem selectLoop_eq (segmentSize numSegmentsNeeded : ℕ)
    (domains : List (String × List (String × ℤ))) (selected : List String) (taken : ℕ) :
    selectLoop segmentSize numSegmentsNeeded domains selected taken =
      (selected ++ ((takeSegments segmentSize (numSegmentsNeeded - taken) domains).flatMap
          Prod.snd).map Prod.fst,
        taken + min (available segmentSize domains) (numSegmentsNeeded - taken)) := by
  induction domains generalizing selected taken with
  | nil => simp [selectLoop,takeSegments,available]
  | cons item domains ih =>
    obtain ⟨d,nodes⟩ := item
    rw [selectLoop]
    by_cases henough : numSegmentsNeeded ≤ taken
    · have hlength := @length_takeSegments String (String × ℤ) segmentSize 0 ((d,nodes) :: domains)
      rw [Nat.min_zero,Nat.zero_mul,List.length_eq_zero_iff] at hlength
      rw [if_pos henough,Nat.sub_eq_zero_of_le henough,hlength]
      simp
    · have hsum : available segmentSize ((d,nodes) :: domains) =
          nodes.length / segmentSize + available segmentSize domains := List.sum_cons
      rw [if_neg henough,ih,takeSegments,List.flatMap_cons,List.map_append,hsum,← Nat.sub_sub,
        List.append_assoc]
      exact Prod.ext rfl (by dsimp only; omega)

section Selection

variable {topology : Topology} {segmentSize numNodes : ℕ}

def takenNodes (topology : Topology) (segmentSize needed : ℕ) : List String :=
  ((takeSegments segmentSize needed topology.sortedDomains).flatMap Prod.snd).map Prod.fst

theorem selectSegmentNodes_eq (hdvd : segmentSize ∣ numNodes) :
    selectSegmentNodes topology segmentSize numNodes =
      if topology.segments segmentSize < numNodes / segmentSize then
        .error (.resourceInsufficiency (numNodes / segmentSize) segmentSize
          (topology.sortedDomains.map fun item => (item.1,item.2.length)) numNodes)
      else .ok (takenNodes topology segmentSize (numNodes / segmentSize),
        topology.keys.filter fun nid =>
          nid ∉ takenNodes topology segmentSize (numNodes / segmentSize)) := by
  have hmod : ¬numNodes % segmentSize ≠ 0 := by simpa using Nat.mod_eq_zero_of_dvd hdvd
  rw [selectSegmentNodes,if_neg hmod]
  dsimp only
  rw [selectLoop_eq,Topology.available_sortedDomains]
  simp only [Nat.zero_add,Nat.sub_zero,List.nil_append]
  refine if_congr ?_ rfl rfl
  omega

theorem Topology.domain_of_mem {nid d : String} (h : nid ∈ topology.nodesByRank d) :
    topology.domain nid = d ∧ nid ∈ topology.keys := by
  obtain ⟨entry,hentry,rfl⟩ := List.mem_map.mp h
  obtain ⟨hmem,hd⟩ := List.mem_filter.mp ((sortByKey_perm _ _).mem_iff.mp hentry)
  refine ⟨?_,List.mem_map_of_mem hmem⟩
  rw [Topology.domain,Dict.mem_entries_iff.mp hmem]
  exact of_decide_eq_true hd

theorem Topology.nodup_nodesByRank (d : String) : (topology.nodesByRank d).Nodup := by
  rw [Topology.nodesByRank,((sortByKey_perm _ _).map Prod.fst).nodup_iff]
  exact topology.nodup.sublist (List.filter_sublist.map Prod.fst)

theorem taken_facts {needed : ℕ} {taken : String × List (String × ℤ)}
    (h : taken ∈ takeSegments segmentSize needed topology.sortedDomains) :
    taken.1 ∈ topology.knownDomains ∧ taken.2.map Prod.fst <+: topology.nodesByRank taken.1 ∧
      ∃ segments ≤ (topology.nodesByRank taken.1).length / segmentSize,
        (taken.2.map Prod.fst).length = segments * segmentSize := by
  obtain ⟨item,hitem,hd,hlead,hsegments⟩ := exists_of_mem_takeSegments h
  obtain ⟨hknown,hnodes⟩ := Topology.mem_sortedDomains.mp hitem
  have hmap : item.2.map Prod.fst = topology.nodesByRank taken.1 := by
    rw [hnodes,Topology.map_fst_nodes (Topology.mem_knownDomains.mp hknown).1,hd]
  rw [← hmap,List.length_map,List.length_map,hd]
  exact ⟨hknown,hlead.map Prod.fst,hsegments⟩

theorem takenNodes_eq (needed : ℕ) : takenNodes topology segmentSize needed =
    (takeSegments segmentSize needed topology.sortedDomains).flatMap
      fun taken => taken.2.map Prod.fst := by
  rw [takenNodes,List.map_flatMap]

theorem domain_of_mem_takenNodes {needed : ℕ} {nid : String}
    (h : nid ∈ takenNodes topology segmentSize needed) :
    topology.domain nid ∈ topology.knownDomains ∧ nid ∈ topology.keys := by
  rw [takenNodes_eq] at h
  obtain ⟨taken,htaken,hnid⟩ := List.mem_flatMap.mp h
  obtain ⟨hknown,hlead,-⟩ := taken_facts htaken
  obtain ⟨hd,hkey⟩ := Topology.domain_of_mem (hlead.subset hnid)
  exact ⟨hd ▸ hknown,hkey⟩

theorem nodup_takenNodes (needed : ℕ) : (takenNodes topology segmentSize needed).Nodup := by
  rw [takenNodes_eq,List.nodup_flatMap]
  refine ⟨fun taken htaken => ?_,?_⟩
  · exact (Topology.nodup_nodesByRank _).sublist (taken_facts htaken).2.1.sublist
  · have hkeys : (takeSegments segmentSize needed topology.sortedDomains).Pairwise
        fun a b => a.1 ≠ b.1 := by
      have hnodup := @Topology.nodup_sortedDomains topology
      rw [← @keys_takeSegments String (String × ℤ) segmentSize needed] at hnodup
      exact List.pairwise_map.mp hnodup
    refine hkeys.imp_of_mem fun ha hb hne => ?_
    intro nid hnid hnid'
    refine hne ?_
    rw [← (Topology.domain_of_mem ((taken_facts ha).2.1.subset hnid)).1,
      ← (Topology.domain_of_mem ((taken_facts hb).2.1.subset hnid')).1]

theorem exists_taken {needed : ℕ} {d : String} (hd : d ∈ topology.knownDomains) :
    ∃ taken ∈ takeSegments segmentSize needed topology.sortedDomains, taken.1 = d ∧
      (takenNodes topology segmentSize needed).filter (fun nid => topology.domain nid = d) =
        taken.2.map Prod.fst := by
  have hkey : d ∈ (takeSegments segmentSize needed topology.sortedDomains).map Prod.fst := by
    rw [keys_takeSegments,List.mem_map]
    exact ⟨(d,sortByKey Prod.snd (valuesOf topology.knownNodes d)),
      Topology.mem_sortedDomains.mpr ⟨hd,rfl⟩,rfl⟩
  obtain ⟨taken,htaken,rfl⟩ := List.mem_map.mp hkey
  refine ⟨taken,htaken,rfl,?_⟩
  have hlabel : ∀ item ∈ topology.sortedDomains, ∀ node ∈ item.2,
      topology.domain node.1 = item.1 := by
    intro item hitem node hnode
    obtain ⟨hknown,hnodes⟩ := Topology.mem_sortedDomains.mp hitem
    refine (Topology.domain_of_mem ?_).1
    rw [← Topology.map_fst_nodes (Topology.mem_knownDomains.mp hknown).1,← hnodes]
    exact List.mem_map_of_mem hnode
  have hfilter := @filter_takeSegments String (String × ℤ) _ segmentSize
    (fun node => topology.domain node.1) needed topology.sortedDomains
    Topology.nodup_sortedDomains hlabel taken htaken
  rw [takenNodes,List.filter_map]
  exact congrArg (List.map Prod.fst) hfilter

theorem length_takenNodes (needed : ℕ) : (takenNodes topology segmentSize needed).length =
    min (topology.segments segmentSize) needed * segmentSize := by
  rw [takenNodes,List.length_map,length_takeSegments,Topology.available_sortedDomains]

theorem isPrefix_filter_takenNodes {needed : ℕ} {d : String} (hd : d ∈ topology.knownDomains) :
    (takenNodes topology segmentSize needed).filter (fun nid => topology.domain nid = d) <+:
      topology.nodesByRank d := by
  obtain ⟨taken,htaken,rfl,hfilter⟩ := exists_taken hd
  rw [hfilter]
  exact (taken_facts htaken).2.1

theorem dvd_length_filter_takenNodes {needed : ℕ} {d : String} (hd : d ∈ topology.knownDomains) :
    segmentSize ∣
      ((takenNodes topology segmentSize needed).filter fun nid => topology.domain nid = d).length := by
  obtain ⟨taken,htaken,rfl,hfilter⟩ := exists_taken hd
  obtain ⟨segments,-,hlength⟩ := (taken_facts htaken).2.2
  rw [hfilter,hlength]
  exact Nat.dvd_mul_left segmentSize segments

theorem exists_blocks (hsize : 0 < segmentSize) (needed : ℕ) :
    ∃ blocks : List (String × List String),
      takenNodes topology segmentSize needed = blocks.flatMap Prod.snd ∧
        ∀ block ∈ blocks, block.1 ∈ topology.knownDomains ∧ block.2.length = segmentSize ∧
          ∀ nid ∈ block.2, topology.domain nid = block.1 := by
  refine ⟨(takeSegments segmentSize needed topology.sortedDomains).flatMap fun taken =>
    (Chunks.chunks segmentSize (taken.2.map Prod.fst)).map (Prod.mk taken.1),?_,?_⟩
  · rw [takenNodes_eq,List.flatMap_assoc]
    refine List.flatMap_congr fun taken _ => ?_
    rw [List.flatMap_map]
    exact ((Chunks.flatten_chunks hsize _).symm.trans List.flatMap_id.symm)
  · intro block hblock
    obtain ⟨taken,htaken,hchunk⟩ := List.mem_flatMap.mp hblock
    obtain ⟨chunk,hmem,rfl⟩ := List.mem_map.mp hchunk
    obtain ⟨hknown,hlead,segments,-,hlength⟩ := taken_facts htaken
    refine ⟨hknown,Chunks.length_of_mem_chunks hsize (hlength ▸ Nat.dvd_mul_left _ _) hmem,?_⟩
    intro nid hnid
    have hall : nid ∈ taken.2.map Prod.fst := by
      rw [← Chunks.flatten_chunks hsize (taken.2.map Prod.fst)]
      exact List.mem_flatten_of_mem hmem hnid
    exact (Topology.domain_of_mem (hlead.subset hall)).1

/-- Whole segments of known domains, the first nodes of every domain by their ranks, and the other
nodes of the topology. -/
structure IsSelection (topology : Topology) (segmentSize numNodes : ℕ)
    (selected remaining : List String) : Prop where
  length_eq : selected.length = numNodes
  nodup : selected.Nodup
  blocks : ∃ blocks : List (String × List String), selected = blocks.flatMap Prod.snd ∧
    ∀ block ∈ blocks, block.1 ∈ topology.knownDomains ∧ block.2.length = segmentSize ∧
      ∀ nid ∈ block.2, topology.domain nid = block.1
  isPrefix : ∀ d ∈ topology.knownDomains,
    selected.filter (fun nid => topology.domain nid = d) <+: topology.nodesByRank d
  subset : ∀ nid ∈ selected, nid ∈ topology.keys
  remaining_eq : remaining = topology.keys.filter fun nid => nid ∉ selected

theorem isSelection_takenNodes (hsize : 0 < segmentSize) (hdvd : segmentSize ∣ numNodes)
    (henough : numNodes / segmentSize ≤ topology.segments segmentSize) :
    IsSelection topology segmentSize numNodes (takenNodes topology segmentSize (numNodes / segmentSize))
      (topology.keys.filter fun nid =>
        nid ∉ takenNodes topology segmentSize (numNodes / segmentSize)) where
  length_eq := by rw [length_takenNodes,Nat.min_eq_right henough,Nat.div_mul_cancel hdvd]
  nodup := nodup_takenNodes _
  blocks := exists_blocks hsize _
  isPrefix _ hd := isPrefix_filter_takenNodes hd
  subset _ hnid := (domain_of_mem_takenNodes hnid).2
  remaining_eq := rfl

theorem subset_of_selectSegmentNodes {selected remaining : List String}
    (h : selectSegmentNodes topology segmentSize numNodes = .ok (selected,remaining)) :
    ∀ nid ∈ selected, nid ∈ topology.keys := by
  have hdvd : segmentSize ∣ numNodes := by
    by_contra hnot
    rw [selectSegmentNodes,if_pos fun hmod => hnot (Nat.dvd_of_mod_eq_zero hmod)] at h
    cases h
  rw [selectSegmentNodes_eq hdvd] at h
  split_ifs at h
  obtain ⟨rfl,rfl⟩ := Prod.mk.inj (Except.ok.inj h)
  exact fun nid hnid => (domain_of_mem_takenNodes hnid).2

theorem Topology.mem_keys_restrict {nids : List String} {nid : String} :
    nid ∈ (topology.restrict nids).keys ↔ nid ∈ topology.keys ∧ nid ∈ nids := by
  rw [Dict.keys,Topology.restrict,Dict.keys,List.mem_map,List.mem_map]
  constructor
  · rintro ⟨entry,hentry,rfl⟩
    obtain ⟨hmem,hnid⟩ := List.mem_filter.mp hentry
    exact ⟨⟨entry,hmem,rfl⟩,of_decide_eq_true hnid⟩
  · rintro ⟨⟨entry,hentry,rfl⟩,hnid⟩
    exact ⟨entry,List.mem_filter.mpr ⟨hentry,decide_eq_true hnid⟩,rfl⟩

theorem Topology.length_nodesByRank (d : String) : (topology.nodesByRank d).length =
    topology.entries.countP fun entry => entry.2.1 = d := by
  rw [Topology.nodesByRank,List.length_map,(sortByKey_perm _ _).length_eq,List.countP_eq_length_filter]

theorem filter_selected_perm {selected : List String} (hnodup : selected.Nodup)
    (hsubset : ∀ nid ∈ selected, nid ∈ topology.keys) (d : String) :
    (selected.filter fun nid => topology.domain nid = d).Perm
      (((topology.entries.filter fun entry => entry.1 ∈ selected).filter
        fun entry => entry.2.1 = d).map Prod.fst) := by
  have hdomain : ∀ entry ∈ topology.entries, topology.domain entry.1 = entry.2.1 := by
    intro entry hentry
    rw [Topology.domain,Dict.mem_entries_iff.mp hentry]
    rfl
  refine (List.perm_ext_iff_of_nodup (hnodup.filter _) ?_).mpr fun nid => ?_
  · exact topology.nodup.sublist ((List.filter_sublist.trans List.filter_sublist).map Prod.fst)
  · simp only [List.mem_filter,List.mem_map,decide_eq_true_eq]
    constructor
    · rintro ⟨hselected,hd⟩
      obtain ⟨entry,hentry,rfl⟩ := List.mem_map.mp (hsubset nid hselected)
      exact ⟨entry,⟨⟨hentry,hselected⟩,(hdomain entry hentry).symm.trans hd⟩,rfl⟩
    · rintro ⟨entry,⟨⟨hentry,hselected⟩,hd⟩,rfl⟩
      exact ⟨hselected,(hdomain entry hentry).trans hd⟩

theorem length_nodesByRank_restrict {selected : List String} (hnodup : selected.Nodup)
    (hsubset : ∀ nid ∈ selected, nid ∈ topology.keys) (d : String) :
    (topology.nodesByRank d).length =
      (selected.filter fun nid => topology.domain nid = d).length +
        ((topology.restrict (topology.keys.filter fun nid => nid ∉ selected)).nodesByRank d).length := by
  rw [Topology.length_nodesByRank,Topology.length_nodesByRank,(filter_selected_perm hnodup hsubset d).length_eq,
    List.length_map,← List.countP_eq_length_filter,Topology.restrict,
    List.countP_eq_countP_filter_add _ _ fun entry => decide (entry.1 ∈ selected)]
  refine congrArg (_ + ·) (congrArg (List.countP _) (List.filter_congr fun entry hentry => ?_))
  have hkey : entry.1 ∈ topology.keys := List.mem_map_of_mem hentry
  simp [List.mem_filter,hkey]

theorem Topology.nodesByRank_eq_nil {d : String} (hd : d ∉ topology.knownDomains)
    (hknown : d ≠ nvlinkDomainUnknown) : topology.nodesByRank d = [] := by
  refine List.eq_nil_of_length_eq_zero ?_
  rw [Topology.length_nodesByRank,List.countP_eq_zero]
  intro entry hentry heq
  refine hd (Finset.mem_erase.mpr ⟨hknown,List.mem_toFinset.mpr ?_⟩)
  exact List.mem_map.mpr ⟨entry,hentry,of_decide_eq_true heq⟩

theorem Topology.knownDomains_restrict_subset (nids : List String) :
    (topology.restrict nids).knownDomains ⊆ topology.knownDomains := by
  refine Finset.erase_subset_erase _ fun d hd => ?_
  obtain ⟨entry,hentry,rfl⟩ := List.mem_map.mp (List.mem_toFinset.mp hd)
  exact List.mem_toFinset.mpr (List.mem_map_of_mem (List.mem_filter.mp hentry).1)

theorem segments_restrict {selected remaining : List String}
    (h : IsSelection topology segmentSize numNodes selected remaining)
    (hknown : ∀ nid ∈ selected, topology.domain nid ∈ topology.knownDomains)
    (hwhole : ∀ d ∈ topology.knownDomains,
      segmentSize ∣ (selected.filter fun nid => topology.domain nid = d).length) :
    topology.segments segmentSize =
      numNodes / segmentSize + (topology.restrict remaining).segments segmentSize := by
  have hparts := length_nodesByRank_restrict h.nodup h.subset
  rw [← h.remaining_eq] at hparts
  have hleft : (topology.restrict remaining).segments segmentSize =
      ∑ d ∈ topology.knownDomains, ((topology.restrict remaining).nodesByRank d).length / segmentSize := by
    refine Finset.sum_subset (Topology.knownDomains_restrict_subset remaining) fun d hd hgone => ?_
    rw [Topology.nodesByRank_eq_nil hgone (Finset.ne_of_mem_erase hd),List.length_nil,Nat.zero_div]
  have htotal : ∑ d ∈ topology.knownDomains,
      (selected.filter fun nid => topology.domain nid = d).length = numNodes :=
    (sum_length_filter hknown).trans h.length_eq
  rw [Topology.segments,hleft,← htotal,Nat.sum_div hwhole,← Finset.sum_add_distrib]
  refine Finset.sum_congr rfl fun d hd => ?_
  rw [hparts d,Nat.add_div_of_dvd_right (hwhole d hd)]

theorem selectSegmentNodes_restrict {numNodes' : ℕ} (hsize : 0 < segmentSize)
    (hdvd : segmentSize ∣ numNodes) (hdvd' : segmentSize ∣ numNodes')
    (henough : (numNodes + numNodes') / segmentSize ≤ topology.segments segmentSize) :
    ∃ nodes, selectSegmentNodes (topology.restrict (topology.keys.filter fun nid =>
      nid ∉ takenNodes topology segmentSize (numNodes / segmentSize))) segmentSize numNodes' =
        .ok nodes := by
  rw [Nat.add_div_of_dvd_right hdvd] at henough
  have hsegments := segments_restrict
    (isSelection_takenNodes hsize hdvd (le_trans (Nat.le_add_right _ _) henough))
    (fun nid hnid => (domain_of_mem_takenNodes hnid).1) fun d hd => dvd_length_filter_takenNodes hd
  rw [selectSegmentNodes_eq hdvd',if_neg (by omega)]
  exact ⟨_,rfl⟩

/-- Selecting nodes fails when the known domains have too few segments. Else it gives whole segments
and the other nodes, from which a second role is served without a node twice. -/
theorem selectSegmentNodes_complete (hsize : 0 < segmentSize) (hdvd : segmentSize ∣ numNodes) :
    ((∃ domainSummary, selectSegmentNodes topology segmentSize numNodes =
        .error (.resourceInsufficiency (numNodes / segmentSize) segmentSize domainSummary numNodes)) ↔
      topology.segments segmentSize < numNodes / segmentSize) ∧
    (¬topology.segments segmentSize < numNodes / segmentSize →
      ∃ selected remaining,
        selectSegmentNodes topology segmentSize numNodes = .ok (selected,remaining) ∧
        IsSelection topology segmentSize numNodes selected remaining ∧
        (∀ segmentSize' numNodes' selected' remaining',
          selectSegmentNodes (topology.restrict remaining) segmentSize' numNodes' =
            .ok (selected',remaining') → selected.Disjoint selected') ∧
        ∀ numNodes', segmentSize ∣ numNodes' →
          (numNodes + numNodes') / segmentSize ≤ topology.segments segmentSize →
          ∃ nodes, selectSegmentNodes (topology.restrict remaining) segmentSize numNodes' =
            .ok nodes) := by
  rw [selectSegmentNodes_eq hdvd]
  constructor
  · by_cases hfew : topology.segments segmentSize < numNodes / segmentSize
    · rw [if_pos hfew]
      exact iff_of_true ⟨_,rfl⟩ hfew
    · rw [if_neg hfew]
      exact iff_of_false (fun h => by obtain ⟨_,h⟩ := h; cases h) hfew
  · intro hfew
    rw [if_neg hfew]
    refine ⟨_,_,rfl,isSelection_takenNodes hsize hdvd (Nat.not_lt.mp hfew),?_,?_⟩
    · intro segmentSize' numNodes' selected' remaining' hsecond nid hnid hnid'
      have hkey := Topology.mem_keys_restrict.mp (subset_of_selectSegmentNodes hsecond nid hnid')
      exact of_decide_eq_true (List.mem_filter.mp hkey.2).2 hnid
    · intro numNodes' hdvd' henough
      exact selectSegmentNodes_restrict hsize hdvd hdvd' henough

/-- Two nodes of one domain are the segment that is selected; that of the third is unknown. -/
theorem selectSegmentNodes_complete_two :
    0 < 2 ∧ 2 ∣ 2 ∧
      ∃ selected remaining,
        selectSegmentNodes (Dict.ofEntries [("n0",("unknown",-1)),("n1",("nvlink_domain_A",1)),
          ("n2",("nvlink_domain_A",0))]) 2 2 = .ok (selected,remaining) ∧ selected.length = 2 := by
  have hcomplete := (@selectSegmentNodes_complete (Dict.ofEntries [("n0",("unknown",-1)),
    ("n1",("nvlink_domain_A",1)),("n2",("nvlink_domain_A",0))]) 2 2 (by decide) (by decide)).2
    (by decide)
  obtain ⟨selected,remaining,hrun,hselection,-⟩ := hcomplete
  exact ⟨by decide,by decide,selected,remaining,hrun,hselection.length_eq⟩

end Selection
end Distributed
end DockyardRL
