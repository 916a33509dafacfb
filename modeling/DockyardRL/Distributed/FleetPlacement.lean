import DockyardRL.Distributed.SegmentNodes

/-! The cluster that is built for a fleet: its nodes with their GPUs, and the NVLink domains that the
nodes are pinned to. -/
namespace DockyardRL
namespace Distributed

inductive FleetRole
  | trainer | inference | sandbox
  deriving DecidableEq

def FleetRole.ofName : String → Option FleetRole
  | "trainer" => some .trainer
  | "inference" => some .inference
  | "sandbox" => some .sandbox
  | _ => none

/-- What `__post_init__` of `FleetSpec` raises, check by check. -/
inductive FleetError
  | unknownRole (role : String)
  | numNodes (numNodes : ℤ)
  | gpusPerNode (gpusPerNode : ℤ)
  | segmentSize (segmentSize : ℤ)
  | sandboxSegments
  | indivisible (numNodes segmentSize : ℤ)
  | sandboxGpus
  | noGpus (role : String)
  deriving DecidableEq

/-- `FleetSpec` as `__post_init__` lets it through. -/
structure FleetSpec where
  role : FleetRole
  numNodes : ℕ
  gpusPerNode : ℕ
  placementStrategy : String
  maxColocatedWorkerGroups : ℤ
  name : String
  segmentSize : Option ℕ
  numNodes_pos : 0 < numNodes
  gpusPerNode_pos : role ≠ .sandbox → 0 < gpusPerNode
  segments : ∀ size ∈ segmentSize, 0 < size ∧ role ≠ .sandbox ∧ size ∣ numNodes

/-- The checks of `segment_size`. -/
def segmentCheck (role : FleetRole) (numNodes : ℤ) : Option ℤ → Option FleetError
  | none => none
  | some size =>
    if size < 1 then some (.segmentSize size)
    else if role = .sandbox then some .sandboxSegments
    else if numNodes % size ≠ 0 then some (.indivisible numNodes size)
    else none

theorem segmentCheck_eq_none {role : FleetRole} {numNodes : ℤ} {segmentSize : Option ℤ}
    (hnodes : ¬numNodes < 1) (h : segmentCheck role numNodes segmentSize = none) :
    ∀ size ∈ segmentSize.map Int.toNat, 0 < size ∧ role ≠ .sandbox ∧ size ∣ numNodes.toNat := by
  rintro _ hmem
  obtain ⟨size,rfl,rfl⟩ := Option.map_eq_some_iff.mp hmem
  rw [segmentCheck] at h
  split_ifs at h with hsize hrole hdvd
  refine ⟨by omega,hrole,?_⟩
  rw [← Int.natCast_dvd_natCast,Int.toNat_of_nonneg (by omega),Int.toNat_of_nonneg (by omega)]
  exact Int.dvd_of_emod_eq_zero (not_not.mp hdvd)

/-- The constructor of `FleetSpec`. -/
def FleetSpec.init (role : String) (numNodes gpusPerNode : ℤ) (placementStrategy : String)
    (maxColocatedWorkerGroups : ℤ) (name : String) (segmentSize : Option ℤ) :
    Except FleetError FleetSpec :=
  match FleetRole.ofName role with
  | none => .error (.unknownRole role)
  | some known =>
    if hnodes : numNodes < 1 then .error (.numNodes numNodes)
    else if hgpus : gpusPerNode < 0 then .error (.gpusPerNode gpusPerNode)
    else match hcheck : segmentCheck known numNodes segmentSize with
      | some e => .error e
      | none =>
        if known = .sandbox ∧ gpusPerNode ≠ 0 then .error .sandboxGpus
        else if hzero : known ≠ .sandbox ∧ gpusPerNode = 0 then .error (.noGpus role)
        else .ok
          { role := known
            numNodes := numNodes.toNat
            gpusPerNode := gpusPerNode.toNat
            placementStrategy := placementStrategy
            maxColocatedWorkerGroups := maxColocatedWorkerGroups
            name := if name = "" then "dockyard-" ++ role else name
            segmentSize := segmentSize.map Int.toNat
            numNodes_pos := by omega
            gpusPerNode_pos := fun hrole => by
              have hne : gpusPerNode ≠ 0 := fun h => hzero ⟨hrole,h⟩
              omega
            segments := segmentCheck_eq_none hnodes hcheck }

inductive ClusterError
  | noGpus
  | constraints (constraints nodes : ℕ)
  | segments (error : SegmentError)
  deriving DecidableEq

/-- `RayVirtualCluster`; the constraint of a node is the domain it is pinned to. -/
structure VirtualCluster where
  bundleCtPerNodeList : List ℕ
  useGpus : Bool
  maxColocatedWorkerGroups : ℤ
  numGpusPerNode : ℕ
  name : String
  placementGroupStrategy : String
  segmentSize : Option ℕ
  nodeResourceConstraints : Option (List String)

/-- The assertions of its constructor. -/
def VirtualCluster.init (cluster : VirtualCluster) : Except ClusterError VirtualCluster :=
  if cluster.useGpus ∧ cluster.numGpusPerNode = 0 then .error .noGpus
  else match cluster.nodeResourceConstraints with
    | none => .ok cluster
    | some constraints =>
      if constraints.length ≠ cluster.bundleCtPerNodeList.length then
        .error (.constraints constraints.length cluster.bundleCtPerNodeList.length)
      else .ok cluster

/-- `build_cluster`, with the topology that Ray reports. -/
def buildCluster (spec : FleetSpec) (topology : Topology) : Except ClusterError VirtualCluster :=
  match spec.role with
  | .sandbox =>
    VirtualCluster.init ⟨[spec.numNodes],false,spec.maxColocatedWorkerGroups,0,spec.name,
      spec.placementStrategy,none,none⟩
  | _ =>
    match prepareSegmentTopology spec.segmentSize spec.numNodes topology with
    | .error e => .error (.segments e)
    | .ok (constraints,_,_) =>
      VirtualCluster.init ⟨List.replicate spec.numNodes spec.gpusPerNode,true,
        spec.maxColocatedWorkerGroups,spec.gpusPerNode,spec.name,spec.placementStrategy,spec.segmentSize,
        constraints⟩

/-- Pins for the nodes of a fleet: whole segments of known domains, none of which is asked for more
nodes than it has. -/
structure Pins (topology : Topology) (segmentSize numNodes : ℕ) (pins : List String) : Prop where
  length_eq : pins.length = numNodes
  whole : ∃ domains : List String, pins = domains.flatMap (List.replicate segmentSize)
  known : ∀ d ∈ pins, d ∈ topology.knownDomains
  available : ∀ d, pins.count d ≤ topology.entries.countP fun entry => entry.2.1 = d

theorem IsSelection.pins {topology : Topology} {segmentSize numNodes : ℕ} {selected remaining : List String}
    (h : IsSelection topology segmentSize numNodes selected remaining) :
    Pins topology segmentSize numNodes (selected.map topology.domain) := by
  obtain ⟨blocks,hselected,hblocks⟩ := h.blocks
  have hmap : selected.map topology.domain =
      (blocks.map Prod.fst).flatMap (List.replicate segmentSize) := by
    rw [hselected,List.map_flatMap,List.flatMap_map]
    refine List.flatMap_congr fun block hblock => ?_
    obtain ⟨-,hlength,hdomain⟩ := hblocks block hblock
    exact List.eq_replicate_iff.mpr ⟨by rw [List.length_map,hlength],fun d hd => by
      obtain ⟨nid,hnid,rfl⟩ := List.mem_map.mp hd
      exact hdomain nid hnid⟩
  have hknown : ∀ d ∈ selected.map topology.domain, d ∈ topology.knownDomains := by
    intro d hd
    rw [hmap] at hd
    obtain ⟨d',hd',heq⟩ := List.mem_flatMap.mp hd
    obtain ⟨block,hblock,rfl⟩ := List.mem_map.mp hd'
    rw [List.eq_of_mem_replicate heq]
    exact (hblocks block hblock).1
  refine ⟨by rw [List.length_map,h.length_eq],⟨_,hmap⟩,hknown,fun d => ?_⟩
  by_cases hd : d ∈ selected.map topology.domain
  · have hle := (h.isPrefix d (hknown d hd)).length_le
    rw [Topology.length_nodesByRank] at hle
    rwa [List.count,List.countP_map,List.countP_eq_length_filter]
  · rw [List.count_eq_zero_of_not_mem hd]
    exact Nat.zero_le _

/-- A fleet with segments is built just when the known domains have enough of them; its nodes then have
their GPUs and are pinned to whole segments, and otherwise the shortage is the error. -/
theorem buildCluster_pins (spec : FleetSpec) {segmentSize : ℕ} (hsize : spec.segmentSize = some segmentSize)
    {topology : Topology} (hknown : ∃ entry ∈ topology.entries, entry.2.1 ≠ nvlinkDomainUnknown) :
    (spec.numNodes / segmentSize ≤ topology.segments segmentSize ∧
      ∃ cluster pins, buildCluster spec topology = .ok cluster ∧
        cluster.bundleCtPerNodeList = List.replicate spec.numNodes spec.gpusPerNode ∧
        cluster.nodeResourceConstraints = some pins ∧ Pins topology segmentSize spec.numNodes pins) ∨
    (topology.segments segmentSize < spec.numNodes / segmentSize ∧
      ∃ domainSummary, buildCluster spec topology = .error (.segments (.resourceInsufficiency
        (spec.numNodes / segmentSize) segmentSize domainSummary spec.numNodes))) := by
  obtain ⟨hpos,hrole,hdvd⟩ := spec.segments segmentSize hsize
  have hgpus := spec.gpusPerNode_pos hrole
  have hany : (topology.entries.any fun entry => entry.2.1 ≠ nvlinkDomainUnknown) = true := by
    simpa using hknown
  have hbuild : buildCluster spec topology =
      match prepareSegmentTopology (some segmentSize) spec.numNodes topology with
      | .error e => .error (.segments e)
      | .ok (constraints,_,_) =>
        VirtualCluster.init ⟨List.replicate spec.numNodes spec.gpusPerNode,true,
          spec.maxColocatedWorkerGroups,spec.gpusPerNode,spec.name,spec.placementStrategy,some segmentSize,
          constraints⟩ := by
    rw [buildCluster,hsize]
    cases hcase : spec.role with
    | sandbox => exact absurd hcase hrole
    | trainer => rfl
    | inference => rfl
  rw [hbuild,prepareSegmentTopology,if_pos hany,selectSegmentNodes_eq hdvd]
  by_cases hshort : topology.segments segmentSize < spec.numNodes / segmentSize
  · rw [if_pos hshort]
    exact .inr ⟨hshort,_,rfl⟩
  · rw [if_neg hshort]
    have hselection := isSelection_takenNodes hpos hdvd (Nat.le_of_not_lt hshort)
    have hpins := hselection.pins
    have hread : ((takenNodes topology segmentSize (spec.numNodes / segmentSize)).filterMap fun nid =>
        (topology.get? nid).map Prod.fst) =
          (takenNodes topology segmentSize (spec.numNodes / segmentSize)).map topology.domain := by
      rw [← List.filterMap_eq_map]
      refine List.filterMap_congr fun nid hnid => ?_
      obtain ⟨entry,hget⟩ := Option.isSome_iff_exists.mp
        (Dict.mem_keys_iff.mp (hselection.subset nid hnid))
      simp [Topology.domain,hget]
    refine .inl ⟨Nat.le_of_not_lt hshort,
      ⟨List.replicate spec.numNodes spec.gpusPerNode,true,spec.maxColocatedWorkerGroups,spec.gpusPerNode,
        spec.name,spec.placementStrategy,some segmentSize,
        some ((takenNodes topology segmentSize (spec.numNodes / segmentSize)).map topology.domain)⟩,
      _,?_,rfl,rfl,hpins⟩
    simp only [Except.map,VirtualCluster.init,hread,hgpus.ne',and_false,if_false,hpins.length_eq,
      List.length_replicate,ne_eq,not_true_eq_false]

/-- Two domains of two nodes each, and a node that is in none. -/
def twoDomains : Topology := Dict.ofEntries [("n0",("unknown",-1)),("n1",("nvlink_domain_A",1)),
  ("n2",("nvlink_domain_B",0)),("n3",("nvlink_domain_A",0)),("n4",("nvlink_domain_B",1))]

theorem buildCluster_pins_two :
    ∃ spec, FleetSpec.init "trainer" 4 8 "SPREAD" 1 "" (some 2) = .ok spec ∧ spec.segmentSize = some 2 ∧
      ∃ cluster pins, buildCluster spec twoDomains = .ok cluster ∧
        cluster.nodeResourceConstraints = some pins ∧ pins.length = 4 := by
  refine ⟨_,rfl,rfl,?_⟩
  obtain ⟨-,cluster,pins,hbuild,-,hconstraints,hpins⟩ | ⟨hshort,-⟩ := @buildCluster_pins
    ⟨.trainer,4,8,"SPREAD",1,"dockyard-trainer",some 2,by decide,by decide,by decide⟩ 2 rfl twoDomains
    ⟨("n1",("nvlink_domain_A",1)),by decide,by decide⟩
  · exact ⟨cluster,pins,hbuild,hconstraints,hpins.length_eq⟩
  · exact absurd hshort (by decide)

end Distributed
end DockyardRL
