import DockyardRL.Moe.DenseMixture

/-! The dispatch of the JAX models. The counts are exchanged first; the rows then go through an
exchange in which the sender says where they are written.

Where the JAX dispatch writes its rows. The exchanges keep the rows when every device writes to the
right place, and only then is the mixture computed. -/
namespace DockyardRL
namespace JaxMoe

open Exchange Gather Moe Ragged

/-- The devices of the expert-parallel axis; each owns `le` experts. -/
structure Mesh where
  ep : ℕ
  le : ℕ
  ep_pos : 0 < ep
  le_pos : 0 < le

/-- The experts of the rows of a device. -/
structure TopkExpertIds (topK numExperts : ℕ) where
  rows : List (List ℕ)
  rows_topK : ∀ row ∈ rows, row.length = topK
  rows_distinct : ∀ row ∈ rows, row.Nodup
  rows_lt : ∀ row ∈ rows, ∀ e ∈ row, e < numExperts

def counts (numExperts : ℕ) (topkExpertIds : List (List ℕ)) : List ℕ :=
  (List.range numExperts).map fun e =>
    (topkExpertIds.flatten.map fun i => if i = e then 1 else 0).sum

def expertMajorPermutation (countsRankMajor : List ℕ) (epSize : ℕ) : List ℕ :=
  let segmentLens := (transpose (reshape epSize countsRankMajor)).flatten
  let segInputStarts := (transpose (reshape epSize (starts countsRankMajor))).flatten
  let segIds := repeatInterleave segmentLens
  let outputStarts := starts segmentLens
  (List.range countsRankMajor.sum).map fun i =>
    segInputStarts.getD (segIds.getD i 0) 0 + i - outputStarts.getD (segIds.getD i 0) 0

def localExpertCounts (countsRankMajor : List ℕ) (epSize : ℕ) : List ℕ :=
  (transpose (reshape epSize countsRankMajor)).map List.sum

/-- `jax.lax.all_to_all` of one row for each device, tiled. -/
def allToAll {β : Type} (n : ℕ) (operand : ℕ → List (List β)) (j : ℕ) : List (List β) :=
  (List.range n).map fun r => (operand r).getD j []

section Sizes

variable (mesh : Mesh)

/-- `send_sizes` of a device. -/
def sendSizes (ids : List (List ℕ)) : List ℕ :=
  (reshape mesh.ep (counts (mesh.ep * mesh.le) ids)).map List.sum

/-- `recv_counts_rank_major` of device `j`. -/
def recvCounts (ids : ℕ → List (List ℕ)) (j : ℕ) : List (List ℕ) :=
  allToAll mesh.ep (fun r => reshape mesh.ep (counts (mesh.ep * mesh.le) (ids r))) j

/-- `recv_sizes` of device `j`. -/
def recvSizes (ids : ℕ → List (List ℕ)) (j : ℕ) : List ℕ := (recvCounts mesh ids j).map List.sum

end Sizes

/-- Without expert parallelism all but the first field are empty, and not read. -/
structure AllToAllDispatchMetadata (R : Type) where
  localMetadata : LocalDispatchMetadata R
  permutedIndices : List ℕ
  recvShape : ℕ
  sendSizes : List ℕ
  recvSizes : List ℕ

section Dispatcher

variable {R M : Type} {topK : ℕ} (mesh : Mesh)

/-- `AllToAllTokenDispatcher.dispatch` on the devices of the axis. -/
def AllToAllTokenDispatcher.dispatch [SMul R M] [Zero M] (scoreBeforeExperts : Bool)
    (routing : ℕ → Routing R M topK (mesh.ep * mesh.le)) (r : ℕ) :
    List M × List ℕ × AllToAllDispatchMetadata R :=
  let ids := fun r => (routing r).topkExpertIds
  let reordered := localReorder scoreBeforeExperts (routing r)
  let localMeta : LocalDispatchMetadata R := ⟨reordered.2.1,reordered.2.2⟩
  if mesh.ep = 1 then
    (reordered.1,counts (mesh.ep * mesh.le) (ids r),⟨localMeta,[],reordered.1.length,[],[]⟩)
  else
    let recv := raggedAllToAll mesh.ep (fun r => (localReorder scoreBeforeExperts (routing r)).1)
      (fun r => List.replicate (recvSizes mesh ids r).sum 0) (fun r => starts (sendSizes mesh (ids r)))
      (fun r => sendSizes mesh (ids r)) (fun r => starts (recvSizes mesh ids r)) r
    let countsFlat := (recvCounts mesh ids r).flatten
    let perm := expertMajorPermutation countsFlat mesh.ep
    (gather recv perm,localExpertCounts countsFlat mesh.ep,
      ⟨localMeta,perm,recv.length,sendSizes mesh (ids r),recvSizes mesh ids r⟩)

/-- `AllToAllTokenDispatcher.combine` on the devices of the axis. -/
def AllToAllTokenDispatcher.combine [SMul R M] [AddCommMonoid M] (scoreBeforeExperts : Bool)
    (routed : ℕ → List M) (metadata : ℕ → AllToAllDispatchMetadata R) (x : ℕ → List M) (r : ℕ) :
    List M :=
  if mesh.ep = 1 then
    scoreAndAdd scoreBeforeExperts (routed r) (metadata r).localMetadata (x r)
  else
    let unperm := fun r => scatter (List.replicate (metadata r).recvShape 0)
      (metadata r).permutedIndices (routed r)
    let back := raggedAllToAll mesh.ep unperm
      (fun r => List.replicate (metadata r).sendSizes.sum 0) (fun r => starts (metadata r).recvSizes)
      (fun r => (metadata r).recvSizes) (fun r => starts (metadata r).sendSizes) r
    scoreAndAdd scoreBeforeExperts back (metadata r).localMetadata (x r)

def expertParallelForward [SMul R M] [AddCommMonoid M] (scoreBeforeExperts : Bool)
    (expert : ℕ → M → M) (routing : ℕ → Routing R M topK (mesh.ep * mesh.le)) : ℕ → List M :=
  let dispatched := AllToAllTokenDispatcher.dispatch mesh scoreBeforeExperts routing
  AllToAllTokenDispatcher.combine mesh scoreBeforeExperts
    (fun r => applyExperts expert (List.range' (r * mesh.le) mesh.le) (dispatched r).1
      (dispatched r).2.1) (fun r => (dispatched r).2.2) fun r => (routing r).x

/-- `LocalTokenDispatcher`, with all experts on the device. -/
def localForward [SMul R M] [AddCommMonoid M] {numExperts : ℕ} (scoreBeforeExperts : Bool)
    (expert : ℕ → M → M) (routing : Routing R M topK numExperts) : List M :=
  let reordered := localReorder scoreBeforeExperts routing
  scoreAndAdd scoreBeforeExperts
    (applyExperts expert (List.range numExperts) reordered.1
      (counts numExperts routing.topkExpertIds)) ⟨reordered.2.1,reordered.2.2⟩ routing.x

end Dispatcher

section Property

variable (mesh : Mesh) {topK : ℕ}

/-- In both exchanges every row of the output is written once. -/
def RowsKept (ids : ℕ → List (List ℕ)) : Prop :=
  ∀ j < mesh.ep,
    (written mesh.ep (fun r => sendSizes mesh (ids r)) (fun r => starts (recvSizes mesh ids r))
      j).Perm (List.range (recvSizes mesh ids j).sum) ∧
    (written mesh.ep (fun r => recvSizes mesh ids r) (fun r => starts (sendSizes mesh (ids r)))
      j).Perm (List.range (sendSizes mesh (ids j)).sum)

/-- Whatever the rows, the scores and the experts are, the mixture is computed. -/
def ComputesDense (ids : ℕ → TopkExpertIds topK (mesh.ep * mesh.le)) : Prop :=
  RowsKept mesh (fun r => (ids r).rows) ∧
  ∀ (R M : Type) [Semiring R] [AddCommMonoid M] [Module R M] (scoreBeforeExperts : Bool)
    (expert : ℕ → M → M), (scoreBeforeExperts = true →
      ∀ e (score : R) row, expert e (score • row) = score • expert e row) →
    ∀ routing : ℕ → Routing R M topK (mesh.ep * mesh.le),
      (∀ r, (routing r).topkExpertIds = (ids r).rows) → ∀ r < mesh.ep,
        expertParallelForward mesh scoreBeforeExperts expert routing r =
          denseMixture expert (routing r) ∧
        denseMixture expert (routing r) = localForward scoreBeforeExperts expert (routing r)

/-- The number of rows that a device sends to device `j`. -/
def load (le : ℕ) (ids : List (List ℕ)) (j : ℕ) : ℕ := ids.flatten.countP fun e => e / le = j

/-- A device writes its rows to another one where the rows of that other device are in its own
output. Wherever rows are sent, this has to be their place. -/
def Placed (n : ℕ) (size : ℕ → ℕ → ℕ) : Prop :=
  ∀ r < n, ∀ j < n, 0 < size r j →
    ((List.range j).map fun i => size i r).sum = ((List.range r).map fun i => size i j).sum ∧
    ((List.range r).map fun i => size j i).sum = ((List.range j).map fun i => size r i).sum

end Property

section Sizes

variable {mesh : Mesh}

theorem counts_eq (numExperts : ℕ) (ids : List (List ℕ)) :
    counts numExperts ids = (List.range numExperts).map fun e => ids.flatten.count e := by
  refine List.map_congr_left fun e _ => ?_
  induction ids.flatten with
  | nil => rfl
  | cons i l ih =>
    rw [List.map_cons,List.sum_cons,ih,List.count_cons,Nat.add_comm]
    by_cases h : i = e <;> simp [h]

/-- The experts of a device are those with one quotient. -/
theorem sum_count_experts {w : ℕ} (hw : 0 < w) (j : ℕ) (l : List ℕ) :
    ((List.range w).map fun e => l.count (j * w + e)).sum = l.countP fun e => e / w = j := by
  induction l with
  | nil => simp
  | cons i l ih =>
    have hone : ((List.range w).map fun e => if i = j * w + e then 1 else 0).sum =
        if i / w = j then 1 else 0 := by
      have hdiv := Nat.div_add_mod i w
      have hother : ∀ e, e ≠ i % w → e ∈ List.range w → (if i = j * w + e then 1 else 0) = 0 := by
        intro e hne he
        refine if_neg fun h => hne ?_
        rw [h,Nat.mul_comm,Nat.mul_add_mod,Nat.mod_eq_of_lt (List.mem_range.mp he)]
      rw [List.sum_map_eq_nsmul_single (i % w) _ hother,
        List.count_eq_one_of_mem List.nodup_range (List.mem_range.mpr (Nat.mod_lt i hw)),one_nsmul]
      refine if_congr ⟨fun h => ?_,fun h => ?_⟩ rfl rfl
      · rw [h,Nat.mul_comm,Nat.mul_add_div hw,Nat.div_eq_of_lt (Nat.mod_lt i hw),Nat.add_zero]
      · rw [← h,Nat.mul_comm]
        exact hdiv.symm
    have hsum : ((List.range w).map fun e => (i :: l).count (j * w + e)).sum =
        ((List.range w).map fun e => l.count (j * w + e)).sum +
          ((List.range w).map fun e => if i = j * w + e then 1 else 0).sum := by
      rw [← List.sum_map_add]
      refine congrArg List.sum (List.map_congr_left fun e _ => ?_)
      rw [List.count_cons]
      simp
    rw [hsum,ih,hone,List.countP_cons]
    simp

theorem reshape_counts (ids : List (List ℕ)) :
    reshape mesh.ep (counts (mesh.ep * mesh.le) ids) = (List.range mesh.ep).map fun j =>
      (List.range mesh.le).map fun e => ids.flatten.count (j * mesh.le + e) := by
  have hlength : (counts (mesh.ep * mesh.le) ids).length = mesh.ep * mesh.le := by simp [counts]
  rw [reshape_eq mesh.ep_pos hlength,counts_eq]
  refine List.map_congr_left fun j hj => List.map_congr_left fun e he => ?_
  exact getD_range_map _ 0 (index_lt (List.mem_range.mp hj) (List.mem_range.mp he))

theorem sendSizes_eq (ids : List (List ℕ)) :
    sendSizes mesh ids = (List.range mesh.ep).map (load mesh.le ids) := by
  rw [sendSizes,reshape_counts,List.map_map]
  exact List.map_congr_left fun j _ => sum_count_experts mesh.le_pos j _

theorem recvCounts_eq (ids : ℕ → List (List ℕ)) {j : ℕ} (hj : j < mesh.ep) :
    recvCounts mesh ids j = (List.range mesh.ep).map fun r =>
      (List.range mesh.le).map fun e => (ids r).flatten.count (j * mesh.le + e) := by
  refine List.map_congr_left fun r _ => ?_
  dsimp only
  rw [reshape_counts,getD_range_map _ _ hj]

theorem recvSizes_eq (ids : ℕ → List (List ℕ)) {j : ℕ} (hj : j < mesh.ep) :
    recvSizes mesh ids j = (List.range mesh.ep).map fun r => load mesh.le (ids r) j := by
  rw [recvSizes,recvCounts_eq ids hj,List.map_map]
  exact List.map_congr_left fun r _ => sum_count_experts mesh.le_pos j _

/-- Where device `r` writes its rows to device `j`, on the way out and on the way back. -/
theorem getD_starts_recvSizes (ids : ℕ → List (List ℕ)) {r j : ℕ} (hr : r < mesh.ep)
    (hj : j < mesh.ep) : (starts (recvSizes mesh ids r)).getD j 0 =
      ((List.range j).map fun i => load mesh.le (ids i) r).sum := by
  rw [recvSizes_eq ids hr,getD_starts (by simpa using hj),take_range_map _ hj.le]

theorem getD_starts_sendSizes (ids : ℕ → List (List ℕ)) {r j : ℕ} (hj : j < mesh.ep) :
    (starts (sendSizes mesh (ids r))).getD j 0 =
      ((List.range j).map fun i => load mesh.le (ids r) i).sum := by
  rw [sendSizes_eq,getD_starts (by simpa using hj),take_range_map _ hj.le]

theorem rowsKept_of_placed {ids : ℕ → List (List ℕ)}
    (h : Placed mesh.ep fun r j => load mesh.le (ids r) j) : RowsKept mesh ids := by
  refine fun j hj => ⟨?_,?_⟩
  · have hpositions := flatMap_range'_eq (n := mesh.ep)
      (fun r => (starts (recvSizes mesh ids r)).getD j 0)
      (fun r => load mesh.le (ids r) j) fun r hr hpos => by
        rw [getD_starts_recvSizes ids hr hj]
        exact (h r hr j hj hpos).1
    rw [recvSizes_eq ids hj,← hpositions,written]
    refine List.Perm.of_eq (List.flatMap_congr fun r _ => ?_)
    rw [sendSizes_eq,getD_range_map _ 0 hj]
  · have hpositions := flatMap_range'_eq (n := mesh.ep)
      (fun r => (starts (sendSizes mesh (ids r))).getD j 0)
      (fun r => load mesh.le (ids j) r) fun r hr hpos => by
        rw [getD_starts_sendSizes ids hj]
        exact (h j hj r hr hpos).2
    rw [sendSizes_eq,← hpositions,written]
    refine List.Perm.of_eq (List.flatMap_congr fun r hr => ?_)
    rw [recvSizes_eq ids (List.mem_range.mp hr),getD_range_map _ 0 hj]

end Sizes

theorem expertMajorPermutation_eq {n w : ℕ} (hn : 0 < n) {c : List ℕ} (hc : c.length = n * w) :
    expertMajorPermutation c n = columnRuns n w c := by
  have hpermuted := permutedIndices_eq hn ([] : List ℕ) hc
  have hlength : (repeatInterleave (transpose (reshape n c)).flatten).length = c.sum := by
    have hruns := (columnRuns_perm hc).length_eq
    rw [List.length_range,← hpermuted] at hruns
    rw [← hruns]
    exact (List.length_map _).trans List.length_range |>.symm
  rw [← hpermuted,expertMajorPermutation,← hlength]
  rfl

section Rows

variable {R M : Type} [Semiring R] [AddCommMonoid M] [Module R M] {topK : ℕ} {mesh : Mesh}
  (scoreBeforeExperts : Bool) (routing : ℕ → Routing R M topK (mesh.ep * mesh.le))

/-- The rows of device `r` for the experts of device `d`. -/
def segment (r d : ℕ) : List M :=
  (List.range mesh.le).flatMap fun l => sentTo scoreBeforeExperts routing r (d * mesh.le + l)

theorem length_segment (r d : ℕ) : (segment scoreBeforeExperts routing r d).length =
    load mesh.le (routing r).topkExpertIds d := by
  rw [segment,length_flatMap_range,load,← sum_count_experts mesh.le_pos]
  refine congrArg List.sum (List.map_congr_left fun l _ => ?_)
  rw [sentTo,List.length_map,(routing r).count_ids]

theorem reordered_segments (r : ℕ) : (localReorder scoreBeforeExperts (routing r)).1 =
    (List.range mesh.ep).flatMap (segment scoreBeforeExperts routing r) := by
  rw [reordered_eq,← range_mul_flatMap]
  rfl

theorem sendSizes_segments (r : ℕ) : sendSizes mesh (routing r).topkExpertIds =
    (List.range mesh.ep).map fun d => (segment scoreBeforeExperts routing r d).length := by
  rw [sendSizes_eq]
  exact List.map_congr_left fun d _ => (length_segment scoreBeforeExperts routing r d).symm

theorem recvSizes_segments {d : ℕ} (hd : d < mesh.ep) :
    recvSizes mesh (fun r => (routing r).topkExpertIds) d =
      (List.range mesh.ep).map fun r => (segment scoreBeforeExperts routing r d).length := by
  rw [recvSizes_eq _ hd]
  exact List.map_congr_left fun r _ => (length_segment scoreBeforeExperts routing r d).symm

theorem recvCounts_segments {d : ℕ} (hd : d < mesh.ep) :
    (recvCounts mesh (fun r => (routing r).topkExpertIds) d).flatten =
      (List.range (mesh.ep * mesh.le)).map fun p =>
        (arrived mesh.le (sentTo scoreBeforeExperts routing) d p).length := by
  rw [map_length_arrived,recvCounts_eq _ hd,List.flatten_eq_flatMap,List.flatMap_map]
  refine List.flatMap_congr fun r _ => List.map_congr_left fun l _ => ?_
  rw [sentTo,List.length_map,(routing r).count_ids]

/-- What the first exchange leaves on device `d`. -/
def received (d : ℕ) : List M :=
  (List.range mesh.ep).foldl (fun out r => scatter out
    (List.range' ((starts (recvSizes mesh (fun r => (routing r).topkExpertIds) r)).getD d 0)
      (segment scoreBeforeExperts routing r d).length) (segment scoreBeforeExperts routing r d))
    (List.replicate (recvSizes mesh (fun r => (routing r).topkExpertIds) d).sum 0)

theorem length_received (d : ℕ) : (received scoreBeforeExperts routing d).length =
    (recvSizes mesh (fun r => (routing r).topkExpertIds) d).sum := by
  rw [received,length_foldl_scatter,List.length_replicate]

/-- The dispatch, whatever the first exchange leaves. -/
theorem dispatch_eq (hep : mesh.ep ≠ 1) {d : ℕ} (hd : d < mesh.ep) :
    AllToAllTokenDispatcher.dispatch mesh scoreBeforeExperts routing d =
      (gather (received scoreBeforeExperts routing d) (columnRuns mesh.ep mesh.le
          (recvCounts mesh (fun r => (routing r).topkExpertIds) d).flatten),
        localExpertCounts (recvCounts mesh (fun r => (routing r).topkExpertIds) d).flatten mesh.ep,
        ⟨⟨(routing d).order.map (· / topK),(routing d).order.map (routing d).scoreOf⟩,
          columnRuns mesh.ep mesh.le
            (recvCounts mesh (fun r => (routing r).topkExpertIds) d).flatten,
          (received scoreBeforeExperts routing d).length,
          sendSizes mesh (routing d).topkExpertIds,
          recvSizes mesh (fun r => (routing r).topkExpertIds) d⟩) := by
  have hlength : (recvCounts mesh (fun r => (routing r).topkExpertIds) d).flatten.length =
      mesh.ep * mesh.le := by
    rw [recvCounts_segments scoreBeforeExperts routing hd,List.length_map,List.length_range]
  unfold AllToAllTokenDispatcher.dispatch
  dsimp only
  rw [if_neg hep,raggedAllToAll_segments _ _ (segment scoreBeforeExperts routing)
    (fun r _ => reordered_segments scoreBeforeExperts routing r)
    (fun r _ => sendSizes_segments scoreBeforeExperts routing r) (fun _ _ => rfl) hd,
    expertMajorPermutation_eq mesh.ep_pos hlength,(routing d).localReorder_eq]
  rfl

theorem received_of_placed (h : Placed mesh.ep fun r j => load mesh.le (routing r).topkExpertIds j)
    {d : ℕ} (hd : d < mesh.ep) : received scoreBeforeExperts routing d =
      (List.range mesh.ep).flatMap fun r => segment scoreBeforeExperts routing r d := by
  refine foldl_scatter_eq ?_ fun r hr hpos => ?_
  · rw [List.length_replicate,recvSizes_segments scoreBeforeExperts routing hd]
  · rw [length_segment] at hpos
    rw [getD_starts_recvSizes _ hr hd,(h r hr d hd hpos).1]
    simp only [length_segment]

def behindExperts (expert : ℕ → M → M) (r d : ℕ) : List M :=
  (List.range mesh.le).flatMap fun l =>
    (sentTo scoreBeforeExperts routing r (d * mesh.le + l)).map (expert (d * mesh.le + l))

theorem length_behindExperts (expert : ℕ → M → M) (r d : ℕ) :
    (behindExperts scoreBeforeExperts routing expert r d).length =
      load mesh.le (routing r).topkExpertIds d := by
  rw [← length_segment scoreBeforeExperts routing,behindExperts,segment,
    length_flatMap_range,length_flatMap_range]
  simp only [List.length_map]

theorem dispatch_of_placed (hep : mesh.ep ≠ 1)
    (h : Placed mesh.ep fun r j => load mesh.le (routing r).topkExpertIds j) {d : ℕ}
    (hd : d < mesh.ep) :
    AllToAllTokenDispatcher.dispatch mesh scoreBeforeExperts routing d =
      ((held scoreBeforeExperts routing d).1,(held scoreBeforeExperts routing d).2.1,
        ⟨(held scoreBeforeExperts routing d).2.2.toLocalDispatchMetadata,
          (held scoreBeforeExperts routing d).2.2.permutedIndices,
          (held scoreBeforeExperts routing d).2.2.inputShape,
          sendSizes mesh (routing d).topkExpertIds,
          recvSizes mesh (fun r => (routing r).topkExpertIds) d⟩) := by
  have hlength : ((List.range (mesh.ep * mesh.le)).map fun p =>
      (arrived mesh.le (sentTo scoreBeforeExperts routing) d p).length).length =
        mesh.ep * mesh.le := by
    rw [List.length_map,List.length_range]
  have hsegments := permute_segments (w := mesh.le) mesh.ep_pos
    (arrived mesh.le (sentTo scoreBeforeExperts routing) d)
  have hindices := permutedIndices_eq mesh.ep_pos
    ((List.range (mesh.ep * mesh.le)).flatMap
      (arrived mesh.le (sentTo scoreBeforeExperts routing) d)) hlength
  have hrows := congrArg Permuted.rows hsegments
  have hcounts := congrArg Permuted.perExpert hsegments
  have hcolumns : ∀ l ∈ List.range mesh.le, ((List.range mesh.ep).flatMap fun r =>
      arrived mesh.le (sentTo scoreBeforeExperts routing) d (r * mesh.le + l)) =
        (List.range mesh.ep).flatMap fun r =>
          sentTo scoreBeforeExperts routing r (d * mesh.le + l) := fun l hl =>
    List.flatMap_congr fun r _ => arrived_apply _ d r (List.mem_range.mp hl)
  have hrecv : ((List.range mesh.ep).flatMap fun r => segment scoreBeforeExperts routing r d) =
      (List.range (mesh.ep * mesh.le)).flatMap
        (arrived mesh.le (sentTo scoreBeforeExperts routing) d) := (flatMap_arrived _ d).symm
  rw [dispatch_eq scoreBeforeExperts routing hep hd,
    received_of_placed scoreBeforeExperts routing h hd,
    recvCounts_segments scoreBeforeExperts routing hd,hrecv]
  have hgather : gather ((List.range (mesh.ep * mesh.le)).flatMap
      (arrived mesh.le (sentTo scoreBeforeExperts routing) d)) (columnRuns mesh.ep mesh.le
        ((List.range (mesh.ep * mesh.le)).map fun p =>
          (arrived mesh.le (sentTo scoreBeforeExperts routing) d p).length)) =
      (held scoreBeforeExperts routing d).1 := by
    rw [← hindices]
    exact hrows.trans (List.flatMap_congr hcolumns)
  have hgroups : localExpertCounts ((List.range (mesh.ep * mesh.le)).map fun p =>
      (arrived mesh.le (sentTo scoreBeforeExperts routing) d p).length) mesh.ep =
        (held scoreBeforeExperts routing d).2.1 :=
    hcounts.trans (List.map_congr_left fun l hl => congrArg List.length (hcolumns l hl))
  rw [hgather,hgroups]
  rfl

/-- One device that owns all the experts. -/
theorem localForward_dense {numExperts : ℕ} {expert : ℕ → M → M}
    (hexpert : scoreBeforeExperts = true →
      ∀ e (score : R) row, expert e (score • row) = score • expert e row)
    (routing : Routing R M topK numExperts) :
    localForward scoreBeforeExperts expert routing = denseMixture expert routing := by
  have hcounts : counts numExperts routing.topkExpertIds =
      numTokensPerExpert numExperts routing.topkExpertIds := by
    rw [counts_eq,routing.numTokensPerExpert_eq]
    exact List.map_congr_left fun e _ => routing.count_ids e
  rw [← localForward_eq hexpert routing,localForward,hcounts]
  rfl

/-- The second exchange, whatever is in the segments. -/
theorem combine_segments (hep : mesh.ep ≠ 1) {routed x : ℕ → List M}
    {metadata : ℕ → AllToAllDispatchMetadata R} (seg : ℕ → ℕ → List M)
    (hunperm : ∀ d < mesh.ep, scatter (List.replicate (metadata d).recvShape 0)
      (metadata d).permutedIndices (routed d) = (List.range mesh.ep).flatMap (seg d))
    (hsizes : ∀ d < mesh.ep, (metadata d).recvSizes =
      (List.range mesh.ep).map fun r => (seg d r).length) {r : ℕ} (hr : r < mesh.ep) :
    AllToAllTokenDispatcher.combine mesh scoreBeforeExperts routed metadata x r =
      scoreAndAdd scoreBeforeExperts ((List.range mesh.ep).foldl (fun out d => scatter out
        (List.range' ((starts (metadata d).sendSizes).getD r 0) (seg d r).length) (seg d r))
          (List.replicate (metadata r).sendSizes.sum 0)) (metadata r).localMetadata (x r) := by
  unfold AllToAllTokenDispatcher.combine
  dsimp only
  rw [if_neg hep,raggedAllToAll_segments _ _ seg hunperm hsizes (fun _ _ => rfl) hr]

theorem forward_of_placed {expert : ℕ → M → M}
    (hexpert : scoreBeforeExperts = true →
      ∀ e (score : R) row, expert e (score • row) = score • expert e row)
    (h : Placed mesh.ep fun r j => load mesh.le (routing r).topkExpertIds j) {r : ℕ}
    (hr : r < mesh.ep) :
    expertParallelForward mesh scoreBeforeExperts expert routing r =
      denseMixture expert (routing r) := by
  by_cases hep : mesh.ep = 1
  · have hzero : r = 0 := by omega
    have hrange : List.range (mesh.ep * mesh.le) = List.range mesh.le := by rw [hep,Nat.one_mul]
    rw [← localForward_dense scoreBeforeExperts hexpert (routing r)]
    simp only [expertParallelForward,AllToAllTokenDispatcher.combine,
      AllToAllTokenDispatcher.dispatch,if_pos hep,localForward]
    rw [hzero,Nat.zero_mul,← List.range_eq_range',hrange]
  · have hdispatch := fun d (hd : d < mesh.ep) =>
      dispatch_of_placed scoreBeforeExperts routing hep h hd
    have hlength := fun r d => length_behindExperts scoreBeforeExperts routing expert r d
    rw [expertParallelForward,combine_segments scoreBeforeExperts hep
      (fun d r => behindExperts scoreBeforeExperts routing expert r d)
      (fun d hd => ?_) (fun d hd => ?_) hr]
    · rw [foldl_scatter_eq ?_ fun d hd hpos => ?_,← (routing r).scoreAndAdd_order hexpert,
        hdispatch r hr,held]
      · exact congrArg (scoreAndAdd scoreBeforeExperts · _ _) (returned_slots expert r)
      · rw [List.length_replicate,hdispatch r hr,sendSizes_eq]
        simp only [hlength]
      · rw [hlength] at hpos
        rw [hdispatch d hd]
        dsimp only
        rw [getD_starts_sendSizes (fun r => (routing r).topkExpertIds) hr,(h r hr d hd hpos).2]
        simp only [hlength]
    · have hback := @unpermute_experts R M _ _ _ topK mesh.ep mesh.le scoreBeforeExperts routing expert
        (fun _ => (0 : M)) d
      rw [unpermute,List.map_const',List.length_range] at hback
      have hexperts := applyExperts_segments (w := mesh.le) expert d fun l =>
        (List.range mesh.ep).flatMap fun r =>
          sentTo scoreBeforeExperts routing r (d * mesh.le + l)
      rw [hdispatch d hd,held]
      dsimp only
      rw [hexperts]
      exact hback
    · rw [hdispatch d hd]
      dsimp only
      rw [recvSizes_eq _ hd]
      simp only [hlength]

end Rows

end JaxMoe
end DockyardRL
