import Mathlib.Algebra.Order.Ring.Int
import Mathlib.Algebra.Ring.Int.Defs
import DockyardRL.Lib.Fallible
import DockyardRL.Moe.Dispatch

/-! The mixture is computed: by one rank that owns all the experts, and by a group of ranks that
exchange their rows. -/
namespace DockyardRL
namespace Moe

open Exchange Gather

section Segments

variable {M : Type} {n w : ℕ}

theorem getD_flatten_map {α : Type} (g : ℕ → ℕ → α) (d : α) {i j : ℕ} (hi : i < n) (hj : j < w) :
    ((List.range n).map fun i => (List.range w).map fun j => g i j).flatten.getD (i * w + j) d =
      g i j := by
  have hrows : ∀ row ∈ (List.range n).map fun i => (List.range w).map fun j => g i j,
      row.length = w := by
    intro row hrow
    obtain ⟨i,-,rfl⟩ := List.mem_map.mp hrow
    rw [List.length_map,List.length_range]
  rw [getD_flatten_rows hrows d hj,getD_range_map _ _ hi,getD_range_map _ d hj]

/-- The indices are the runs of the segments, expert by expert. -/
theorem permutedIndices_eq (hn : 0 < n) (rows : List M) {counts : List ℕ}
    (hcounts : counts.length = n * w) :
    (permute n rows counts).permutedIndices = columnRuns n w counts := by
  have hlens := transpose_reshape hn hcounts
  have hbegins := transpose_reshape hn ((length_starts counts).trans hcounts)
  have hlength : ((List.range w).map fun j =>
      (List.range n).map fun i => counts.getD (i * w + j) 0).flatten.length = w * n := by
    have hrows : ∀ row ∈ (List.range w).map fun j =>
        (List.range n).map fun i => counts.getD (i * w + j) 0, row.length = n := by
      intro row hrow
      obtain ⟨j,-,rfl⟩ := List.mem_map.mp hrow
      rw [List.length_map,List.length_range]
    rw [length_flatten_rows hrows,List.length_map,List.length_range]
  unfold permute
  dsimp only
  rw [hlens,hbegins,positions_eq_runs,hlength,← range_mul_flatMap,columnRuns]
  refine List.flatMap_congr fun j hj => List.flatMap_congr fun i hi => ?_
  rw [getD_flatten_map _ 0 (List.mem_range.mp hj) (List.mem_range.mp hi),
    getD_flatten_map _ 0 (List.mem_range.mp hj) (List.mem_range.mp hi)]

theorem unpermute_permute (hn : 0 < n) (empty : ℕ → M) {rows : List M} {counts : List ℕ}
    (hcounts : counts.length = n * w) (hrows : rows.length = counts.sum) :
    unpermute empty (permute n rows counts).rows (permute n rows counts).inputShape
      (permute n rows counts).permutedIndices = rows := by
  have hperm := columnRuns_perm hcounts
  rw [← hrows] at hperm
  rw [← permutedIndices_eq hn rows hcounts] at hperm
  exact scatter_gather hperm (by rw [List.length_map,List.length_range]; rfl)

/-- The segments that arrive from the ranks, put in the order of the experts. -/
theorem permute_segments (hn : 0 < n) (f : ℕ → List M) :
    permute n ((List.range (n * w)).flatMap f) ((List.range (n * w)).map fun p => (f p).length) =
      ⟨((List.range (n * w)).flatMap f).length,
        (List.range w).flatMap fun j => (List.range n).flatMap fun i => f (i * w + j),
        columnRuns n w ((List.range (n * w)).map fun p => (f p).length),
        (List.range w).map fun j => ((List.range n).flatMap fun i => f (i * w + j)).length⟩ := by
  have hlen : ((List.range (n * w)).map fun p => (f p).length).length = n * w := by
    rw [List.length_map,List.length_range]
  have hidx := permutedIndices_eq hn ((List.range (n * w)).flatMap f) hlen
  have hrows := gather_columnRuns (n := n) (w := w) f
  have hsums : (transpose (reshape n ((List.range (n * w)).map fun p => (f p).length))).map List.sum =
      (List.range w).map fun j => ((List.range n).flatMap fun i => f (i * w + j)).length := by
    rw [transpose_reshape hn hlen,List.map_map]
    refine List.map_congr_left fun j hj => ?_
    rw [length_flatMap_range]
    refine congrArg List.sum (List.map_congr_left fun i hi => ?_)
    exact getD_range_map _ 0 (index_lt (List.mem_range.mp hi) (List.mem_range.mp hj))
  rw [← hidx] at hrows ⊢
  rw [← hrows,← hsums]
  rfl

theorem unpermute_segments (empty : ℕ → M) {f g : ℕ → List M}
    (hlen : ∀ p < n * w, (g p).length = (f p).length) :
    unpermute empty ((List.range w).flatMap fun j => (List.range n).flatMap fun i => g (i * w + j))
      ((List.range (n * w)).flatMap f).length
      (columnRuns n w ((List.range (n * w)).map fun p => (f p).length)) =
        (List.range (n * w)).flatMap g := by
  have hcounts : ((List.range (n * w)).map fun p => (f p).length) =
      (List.range (n * w)).map fun p => (g p).length :=
    List.map_congr_left fun p hp => (hlen p (List.mem_range.mp hp)).symm
  have hlength : ((List.range (n * w)).flatMap f).length = ((List.range (n * w)).flatMap g).length := by
    rw [length_flatMap_range,length_flatMap_range,hcounts]
  have hperm : (columnRuns n w ((List.range (n * w)).map fun p => (g p).length)).Perm
      (List.range ((List.range (n * w)).flatMap g).length) := by
    rw [length_flatMap_range]
    exact columnRuns_perm (by rw [List.length_map,List.length_range])
  rw [hcounts,hlength,← gather_columnRuns g]
  exact scatter_gather hperm (by rw [List.length_map,List.length_range])

/-- Expert `e` of a rank is applied to its own rows. -/
theorem applyExperts_segments (expert : ℕ → M → M) (d : ℕ) (f : ℕ → List M) :
    applyExperts expert (List.range' (d * w) w) ((List.range w).flatMap f)
      ((List.range w).map fun j => (f j).length) =
        (List.range w).flatMap fun j => (f j).map (expert (d * w + j)) := by
  rw [applyExperts,List.length_map,List.length_range]
  refine List.flatMap_congr fun j hj => ?_
  have hj := List.mem_range.mp hj
  rw [part_segments f hj,List.getD_eq_getElem _ _ (by rwa [List.length_range']),List.getElem_range',
    Nat.one_mul]

/-- The segments that arrive at rank `d` of what rank `r` sends to expert `e`. -/
def arrived (w : ℕ) (f : ℕ → ℕ → List M) (d p : ℕ) : List M := f (p / w) (d * w + p % w)

theorem arrived_apply (f : ℕ → ℕ → List M) (d i : ℕ) {j : ℕ} (hj : j < w) :
    arrived w f d (i * w + j) = f i (d * w + j) := by
  rw [arrived,Nat.mul_comm i w,Nat.mul_add_div (by omega),Nat.mul_add_mod,Nat.div_eq_of_lt hj,
    Nat.mod_eq_of_lt hj,Nat.add_zero]

theorem flatMap_arrived (f : ℕ → ℕ → List M) (d : ℕ) :
    (List.range (n * w)).flatMap (arrived w f d) =
      (List.range n).flatMap fun r => (List.range w).flatMap fun l => f r (d * w + l) := by
  rw [← range_mul_flatMap]
  refine List.flatMap_congr fun r _ => List.flatMap_congr fun l hl => ?_
  exact arrived_apply f d r (List.mem_range.mp hl)

theorem map_range_mul (g : ℕ → ℕ) : (List.range (n * w)).map g =
    (List.range n).flatMap fun i => (List.range w).map fun j => g (i * w + j) := by
  rw [List.map_eq_flatMap,← range_mul_flatMap]
  simp only [← List.map_eq_flatMap]

theorem map_length_arrived (f : ℕ → ℕ → List M) (d : ℕ) :
    ((List.range (n * w)).map fun p => (arrived w f d p).length) =
      (List.range n).flatMap fun r => (List.range w).map fun l => (f r (d * w + l)).length := by
  rw [map_range_mul]
  refine List.flatMap_congr fun r _ => List.map_congr_left fun l hl => ?_
  rw [arrived_apply f d r (List.mem_range.mp hl)]

theorem sums_of_reshape (hn : 0 < n) (g : ℕ → ℕ) :
    (reshape n ((List.range (n * w)).map g)).map List.sum =
      (List.range n).map fun i => ((List.range w).map fun j => g (i * w + j)).sum := by
  have hlen : ((List.range (n * w)).map g).length = n * w := by
    rw [List.length_map,List.length_range]
  rw [reshape_eq hn hlen,List.map_map]
  refine List.map_congr_left fun i hi => congrArg List.sum (List.map_congr_left fun j hj => ?_)
  exact getD_range_map _ 0 (index_lt (List.mem_range.mp hi) (List.mem_range.mp hj))

end Segments

section Group

variable {R M : Type} [Semiring R] [AddCommMonoid M] [Module R M] {topK n w : ℕ}
  {scoreBeforeExperts : Bool} {routing : ℕ → Routing R M topK (n * w)}

def sentTo (scoreBeforeExperts : Bool) (routing : ℕ → Routing R M topK (n * w)) (r e : ℕ) : List M :=
  ((routing r).slots e).map ((routing r).sent scoreBeforeExperts)

theorem counts_eq (scoreBeforeExperts : Bool) (r : ℕ) :
    numTokensPerExpert (n * w) (routing r).topkExpertIds =
      (List.range (n * w)).map fun e => (sentTo scoreBeforeExperts routing r e).length := by
  rw [(routing r).numTokensPerExpert_eq]
  refine List.map_congr_left fun e _ => ?_
  rw [sentTo,List.length_map]

theorem reordered_eq (r : ℕ) : (localReorder scoreBeforeExperts (routing r)).1 =
    (List.range (n * w)).flatMap (sentTo scoreBeforeExperts routing r) := by
  rw [(routing r).localReorder_eq]
  exact List.map_flatMap

/-- What a rank holds after the dispatch. -/
def held (scoreBeforeExperts : Bool) (routing : ℕ → Routing R M topK (n * w)) (d : ℕ) :
    List M × List ℕ × AllToAllDispatchMetadata R :=
  let f := sentTo scoreBeforeExperts routing
  ((List.range w).flatMap fun l => (List.range n).flatMap fun r => f r (d * w + l),
    (List.range w).map fun l => ((List.range n).flatMap fun r => f r (d * w + l)).length,
    { tokenIndices := (routing d).order.map (· / topK)
      topkScores := (routing d).order.map (routing d).scoreOf
      inputShape := ((List.range (n * w)).flatMap (arrived w f d)).length
      permutedIndices := columnRuns n w ((List.range (n * w)).map fun p => (arrived w f d p).length)
      inputSplits := (List.range n).map fun r =>
        ((List.range w).flatMap fun l => f d (r * w + l)).length
      outputSplits := (List.range n).map fun r =>
        ((List.range w).flatMap fun l => f r (d * w + l)).length })

theorem dispatch_eq (hn : 0 < n) :
    ∃ out, AllToAllTokenDispatcher.dispatch n scoreBeforeExperts routing
        (fun r => numTokensPerExpert (n * w) (routing r).topkExpertIds) = some out ∧
      ∀ d < n, out d = held scoreBeforeExperts routing d := by
  obtain ⟨f,hf⟩ : ∃ f, f = sentTo scoreBeforeExperts routing := ⟨_,rfl⟩
  obtain ⟨counts,hcounts⟩ : ∃ counts : ℕ → List ℕ,
    counts = fun r => numTokensPerExpert (n * w) (routing r).topkExpertIds := ⟨_,rfl⟩
  have hcount : ∀ r, counts r = (List.range (n * w)).map fun e => (f r e).length := by
    intro r
    rw [hcounts,hf]
    exact counts_eq scoreBeforeExperts r
  have hequal : ∀ r, equalSplits n counts r = (List.range n).map fun d =>
      ((List.range w).map fun l => (f r (d * w + l)).length).length := by
    intro r
    rw [equalSplits,hcount,List.length_map,List.length_range,Nat.mul_div_cancel_left _ hn]
    simp only [List.length_map,List.length_range,List.map_const']
  obtain ⟨global,hglobal,hglobals⟩ := allToAllSingle_segments
    (fun r d => (List.range w).map fun l => (f r (d * w + l)).length)
    (fun r _ => (hcount r).trans (map_range_mul _)) (fun r _ => hequal r)
    (fun d _ => (hequal d).trans (by simp only [List.length_map]))
  have harrived : ∀ d < n, global d = (List.range (n * w)).map fun p => (arrived w f d p).length :=
    fun d hd => (hglobals d hd).trans (map_length_arrived f d).symm
  have hsum : ∀ r d, ((List.range w).flatMap fun l => f r (d * w + l)).length =
      ((List.range w).map fun l => (f r (d * w + l)).length).sum :=
    fun r d => length_flatMap_range _ _
  have hin : ∀ r, (reshape n (counts r)).map List.sum =
      (List.range n).map fun d => ((List.range w).flatMap fun l => f r (d * w + l)).length := by
    intro r
    rw [hcount,sums_of_reshape hn]
    simp only [hsum]
  have hout : ∀ d < n, (reshape n (global d)).map List.sum =
      (List.range n).map fun r => ((List.range w).flatMap fun l => f r (d * w + l)).length := by
    intro d hd
    rw [harrived d hd,sums_of_reshape hn]
    refine List.map_congr_left fun r _ => ?_
    rw [hsum]
    refine congrArg List.sum (List.map_congr_left fun l hl => ?_)
    rw [arrived_apply f d r (List.mem_range.mp hl)]
  have hsent : ∀ r < n, (localReorder scoreBeforeExperts (routing r)).1 =
      (List.range n).flatMap fun d => (List.range w).flatMap fun l => f r (d * w + l) := by
    intro r _
    rw [reordered_eq,range_mul_flatMap,hf]
  obtain ⟨received,hreceived,hrows⟩ := allToAllSingle_segments
    (fun r d => (List.range w).flatMap fun l => f r (d * w + l)) hsent (fun r _ => hin r) hout
  refine ⟨fun r => afterExchange n (localReorder scoreBeforeExperts (routing r)) (received r) (global r)
    ((reshape n (counts r)).map List.sum) ((reshape n (global r)).map List.sum),?_,fun d hd => ?_⟩
  · rw [← hcounts]
    unfold AllToAllTokenDispatcher.dispatch
    dsimp only
    rw [hglobal,Option.bind_eq_bind,Option.bind_some,hreceived,Option.bind_eq_bind,
      Option.bind_some]
    rfl
  · have hcolumns : ((List.range w).flatMap fun l => (List.range n).flatMap fun r =>
        arrived w f d (r * w + l)) =
          (List.range w).flatMap fun l => (List.range n).flatMap fun r => f r (d * w + l) :=
      List.flatMap_congr fun l hl => List.flatMap_congr fun r _ =>
        arrived_apply f d r (List.mem_range.mp hl)
    have hgroups : ((List.range w).map fun l => ((List.range n).flatMap fun r =>
        arrived w f d (r * w + l)).length) =
          (List.range w).map fun l => ((List.range n).flatMap fun r => f r (d * w + l)).length :=
      List.map_congr_left fun l hl => congrArg List.length (List.flatMap_congr fun r _ =>
        arrived_apply f d r (List.mem_range.mp hl))
    show afterExchange n _ (received d) (global d) _ _ = _
    rw [hin d,hout d hd,harrived d hd,hrows d hd,← flatMap_arrived,(routing d).localReorder_eq]
    unfold afterExchange
    rw [permute_segments hn,hcolumns,hgroups,held,← hf]

/-- The rows of a rank behind its experts, back in the order of the ranks they came from. -/
theorem unpermute_experts (expert : ℕ → M → M) (empty : ℕ → M) (d : ℕ) :
    unpermute empty ((List.range w).flatMap fun l => ((List.range n).flatMap fun r =>
        sentTo scoreBeforeExperts routing r (d * w + l)).map (expert (d * w + l)))
      ((List.range (n * w)).flatMap (arrived w (sentTo scoreBeforeExperts routing) d)).length
      (columnRuns n w ((List.range (n * w)).map fun p =>
        (arrived w (sentTo scoreBeforeExperts routing) d p).length)) =
      (List.range n).flatMap fun r => (List.range w).flatMap fun l =>
        (sentTo scoreBeforeExperts routing r (d * w + l)).map (expert (d * w + l)) := by
  obtain ⟨g,hg⟩ : ∃ g : ℕ → ℕ → List M,
    g = fun r e => (sentTo scoreBeforeExperts routing r e).map (expert e) := ⟨_,rfl⟩
  have hcolumns : ((List.range w).flatMap fun l => ((List.range n).flatMap fun r =>
      sentTo scoreBeforeExperts routing r (d * w + l)).map (expert (d * w + l))) =
        (List.range w).flatMap fun l => (List.range n).flatMap fun r =>
          arrived w g d (r * w + l) := by
    refine List.flatMap_congr fun l hl => ?_
    rw [List.map_flatMap]
    refine List.flatMap_congr fun r _ => ?_
    rw [arrived_apply g d r (List.mem_range.mp hl),hg]
  have hback := unpermute_segments (n := n) (w := w) empty
    (f := arrived w (sentTo scoreBeforeExperts routing) d) (g := arrived w g d) fun p _ => by
      rw [hg,arrived,arrived,List.length_map]
  rw [hcolumns,hback,flatMap_arrived,hg]

/-- What comes back to a rank is in the order of its slots. -/
theorem returned_slots (expert : ℕ → M → M) (r : ℕ) :
    ((List.range n).flatMap fun d => (List.range w).flatMap fun l =>
      (sentTo scoreBeforeExperts routing r (d * w + l)).map (expert (d * w + l))) =
        (routing r).order.map fun s =>
          expert ((routing r).expertOf s) ((routing r).sent scoreBeforeExperts s) := by
  rw [@range_mul_flatMap M n w fun e => (sentTo scoreBeforeExperts routing r e).map (expert e),
    Routing.order,List.map_flatMap]
  refine List.flatMap_congr fun e _ => ?_
  rw [sentTo,List.map_map]
  refine List.map_congr_left fun s hs => ?_
  have hexpert : (routing r).expertOf s = e := by
    simpa using (List.mem_filter.mp hs).2
  rw [hexpert]
  rfl

theorem combine_eq (expert : ℕ → M → M) (empty : ℕ → ℕ → M) {routed : ℕ → List M}
    {metadata : ℕ → AllToAllDispatchMetadata R}
    (hmetadata : ∀ d < n, metadata d = (held scoreBeforeExperts routing d).2.2)
    (hrouted : ∀ d < n, routed d = (List.range w).flatMap fun l =>
      ((List.range n).flatMap fun r => sentTo scoreBeforeExperts routing r (d * w + l)).map
        (expert (d * w + l))) :
    ∃ out, AllToAllTokenDispatcher.combine n scoreBeforeExperts empty routed metadata
        (fun r => (routing r).x) = some out ∧
      ∀ r < n, out r = scoreAndAdd scoreBeforeExperts
        ((routing r).order.map fun s =>
          expert ((routing r).expertOf s) ((routing r).sent scoreBeforeExperts s))
        ⟨(routing r).order.map (· / topK),(routing r).order.map (routing r).scoreOf⟩
        (routing r).x := by
  obtain ⟨f,hf⟩ : ∃ f, f = sentTo scoreBeforeExperts routing := ⟨_,rfl⟩
  obtain ⟨g,hg⟩ : ∃ g : ℕ → ℕ → List M, g = fun r e => (f r e).map (expert e) := ⟨_,rfl⟩
  have hlen : ∀ r e, (g r e).length = (f r e).length := by
    intro r e
    rw [hg,List.length_map]
  have hsegment : ∀ r d, ((List.range w).flatMap fun l => g r (d * w + l)).length =
      ((List.range w).flatMap fun l => f r (d * w + l)).length := by
    intro r d
    rw [length_flatMap_range,length_flatMap_range]
    simp only [hlen]
  have hunpermuted : ∀ d < n, unpermute (empty d) (routed d) (metadata d).inputShape
      (metadata d).permutedIndices =
        (List.range n).flatMap fun r => (List.range w).flatMap fun l => g r (d * w + l) := by
    intro d hd
    rw [hrouted d hd,hmetadata d hd,held,hg,hf]
    exact unpermute_experts (R := R) expert (empty d) d
  have hback : ∀ d < n, (metadata d).outputSplits = (List.range n).map fun r =>
      ((List.range w).flatMap fun l => g r (d * w + l)).length := by
    intro d hd
    rw [hmetadata d hd,held,← hf]
    simp only [hsegment]
  have hkept : ∀ r < n, (metadata r).inputSplits = (List.range n).map fun d =>
      ((List.range w).flatMap fun l => g r (d * w + l)).length := by
    intro r hr
    rw [hmetadata r hr,held,← hf]
    simp only [hsegment]
  obtain ⟨returned,hreturned,hrows⟩ := allToAllSingle_segments
    (fun d r => (List.range w).flatMap fun l => g r (d * w + l)) hunpermuted hback hkept
  refine ⟨fun r => scoreAndAdd scoreBeforeExperts (returned r)
    (metadata r).toLocalDispatchMetadata (routing r).x,?_,fun r hr => ?_⟩
  · unfold AllToAllTokenDispatcher.combine
    dsimp only
    rw [hreturned,Option.bind_eq_bind,Option.bind_some]
    rfl
  · have hslots : returned r = (routing r).order.map fun s =>
        expert ((routing r).expertOf s) ((routing r).sent scoreBeforeExperts s) := by
      rw [hrows r hr,hg,hf]
      exact returned_slots expert r
    show scoreAndAdd _ (returned r) (metadata r).toLocalDispatchMetadata _ = _
    rw [hslots,hmetadata r hr]
    rfl

end Group

section Forward

variable {R M : Type} [Semiring R] [AddCommMonoid M] [Module R M] {topK numExperts : ℕ}
  {scoreBeforeExperts : Bool} {expert : ℕ → M → M}

theorem localForward_eq (hexpert : scoreBeforeExperts = true →
      ∀ e (score : R) row, expert e (score • row) = score • expert e row)
    (routing : Routing R M topK numExperts) :
    localForward scoreBeforeExperts expert routing = denseMixture expert routing := by
  have hrouted : applyExperts expert (List.range numExperts)
      (routing.order.map (routing.sent scoreBeforeExperts))
      ((List.range numExperts).map fun e => (routing.slots e).length) =
        routing.order.map fun s =>
          expert (routing.expertOf s) (routing.sent scoreBeforeExperts s) := by
    have hcounts : ((List.range numExperts).map fun e => (routing.slots e).length) =
        (List.range numExperts).map fun e =>
          ((routing.slots e).map (routing.sent scoreBeforeExperts)).length := by
      simp only [List.length_map]
    have hall := @applyExperts_segments M numExperts expert 0
      fun e => (routing.slots e).map (routing.sent scoreBeforeExperts)
    rw [Nat.zero_mul,← List.range_eq_range'] at hall
    rw [hcounts,Routing.order,List.map_flatMap,hall,List.map_flatMap]
    refine List.flatMap_congr fun e _ => ?_
    rw [List.map_map,Nat.zero_add]
    refine List.map_congr_left fun s hs => ?_
    have hslot : routing.expertOf s = e := by
      simpa using (List.mem_filter.mp hs).2
    rw [hslot]
    rfl
  unfold localForward LocalTokenDispatcher.dispatch LocalTokenDispatcher.combine
  dsimp only
  rw [routing.localReorder_eq,routing.numTokensPerExpert_eq,hrouted]
  exact routing.scoreAndAdd_order hexpert

theorem expertsForRank_eq (dims : MoEParallelDims) {group r : ℕ} (hr : r < dims.ep)
    (hgroup : (group + 1) * dims.ep ≤ dims.worldSize) {w : ℕ} (hw : 0 < w) :
    dims.expertsForRank (group * dims.ep + r) (dims.ep * w) = some (List.range' (r * w) w) := by
  have hworld : group * dims.ep + r < dims.worldSize := by
    rw [Nat.succ_mul] at hgroup
    omega
  have hcoord : dims.epCoord (group * dims.ep + r) = some r := by
    rw [MoEParallelDims.epCoord,if_pos hworld,Nat.mul_comm,Nat.mul_add_mod,Nat.mod_eq_of_lt hr]
  have hlocal : dims.numLocalExperts (dims.ep * w) = some w := by
    rw [MoEParallelDims.numLocalExperts,if_neg (Nat.mul_pos dims.ep_pos hw).ne',
      if_neg (by rw [Nat.mul_mod_right]; exact fun h => h rfl),Nat.mul_div_cancel_left _ dims.ep_pos]
  rw [MoEParallelDims.expertsForRank,hlocal,hcoord]
  rfl

/-- A group of ranks with any numbers of rows computes the mixture at every row, which is what one
rank that owns all the experts computes; the reordering of the rows between the ranks is undone,
whatever the counts. -/
theorem expertParallel_dense (dims : MoEParallelDims) (group : ℕ)
    (hgroup : (group + 1) * dims.ep ≤ dims.worldSize) (hpos : 0 < numExperts)
    (hdvd : dims.ep ∣ numExperts) (routing : ℕ → Routing R M topK numExperts)
    (hexpert : scoreBeforeExperts = true →
      ∀ e (score : R) row, expert e (score • row) = score • expert e row)
    (empty : ℕ → ℕ → M) :
    (∃ out, expertParallelForward dims group scoreBeforeExperts expert empty routing = some out ∧
      ∀ r < dims.ep, out r = denseMixture expert (routing r) ∧
        out r = localForward scoreBeforeExperts expert (routing r)) ∧
    ∀ (counts : List ℕ) (rows : List M), counts.length = numExperts → rows.length = counts.sum →
      ∀ r, unpermute (empty r) (permute dims.ep rows counts).rows
        (permute dims.ep rows counts).inputShape
        (permute dims.ep rows counts).permutedIndices = rows := by
  obtain ⟨w,rfl⟩ := hdvd
  have hw : 0 < w := Nat.pos_of_mul_pos_left hpos
  refine ⟨?_,fun counts rows hcounts hrows r => unpermute_permute dims.ep_pos _ hcounts hrows⟩
  have howned : ((List.range dims.ep).mapM fun r =>
      dims.expertsForRank (group * dims.ep + r) (dims.ep * w)) =
        some ((List.range dims.ep).map fun r => List.range' (r * w) w) :=
    Fallible.mapM_eq_some fun r hr => expertsForRank_eq dims (List.mem_range.mp hr) hgroup hw
  obtain ⟨dispatched,hdispatch,hheld⟩ := 
    @dispatch_eq R M _ _ _ topK dims.ep w scoreBeforeExperts routing dims.ep_pos
  have hrouted : ∀ d < dims.ep, applyExperts expert
      (((List.range dims.ep).map fun r => List.range' (r * w) w).getD d []) (dispatched d).1
        (dispatched d).2.1 = (List.range w).flatMap fun l => ((List.range dims.ep).flatMap fun r =>
          sentTo scoreBeforeExperts routing r (d * w + l)).map (expert (d * w + l)) := by
    intro d hd
    rw [getD_range_map _ _ hd,hheld d hd]
    exact applyExperts_segments expert d _
  obtain ⟨out,hcombine,hout⟩ := combine_eq expert empty
    (fun d hd => congrArg (·.2.2) (hheld d hd)) hrouted
  refine ⟨out,?_,fun r hr => ?_⟩
  · unfold expertParallelForward
    rw [howned,Option.bind_eq_bind,Option.bind_some,hdispatch,Option.bind_eq_bind,Option.bind_some]
    exact hcombine
  · have hdense := (hout r hr).trans ((routing r).scoreAndAdd_order hexpert)
    exact ⟨hdense,hdense.trans (localForward_eq hexpert (routing r)).symm⟩

def unevenRows (r : ℕ) : Routing ℤ ℤ 2 4 :=
  if r = 0 then
    ⟨[5,7,9],[[1,2],[3,4],[5,6]],[[2,0],[3,2],[2,3]],rfl,rfl,by decide,by decide,by decide,by decide⟩
  else ⟨[],[],[],rfl,rfl,by decide,by decide,by decide,by decide⟩

theorem expertParallel_unevenRows :
    ∃ out, expertParallelForward ⟨4,2,Nat.two_pos⟩ 1 true (fun e row => ((e : ℤ) + 1) * row)
      (fun _ _ => 100) unevenRows = some out ∧ out 0 = [25,168,351] ∧ out 1 = [] := by
  have hexpert : ∀ (e : ℕ) (score row : ℤ),
      ((e : ℤ) + 1) * (score • row) = score • (((e : ℤ) + 1) * row) :=
    fun e score row => mul_left_comm ((e : ℤ) + 1) score row
  obtain ⟨⟨out,hrun,hout⟩,_⟩ := expertParallel_dense ⟨4,2,Nat.two_pos⟩ 1 (by decide) (by decide)
    (by decide) unevenRows (fun _ => hexpert) fun _ _ => 100
  exact ⟨out,hrun,(hout 0 (by decide)).1.trans (by decide),(hout 1 (by decide)).1.trans (by decide)⟩

end Forward

end Moe
end DockyardRL
