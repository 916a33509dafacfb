import Mathlib.Data.Nat.Pairing
import DockyardRL.Moe.JaxPlacement

/-! Where the rows have to be written. Each slot of a device is followed on its way out and back with
a score of its own; it comes back to its place only if both exchanges put it there. -/
namespace DockyardRL
namespace JaxMoe

open Exchange Gather Moe Ragged

section Experts

variable {M : Type} {n w : ℕ}

theorem length_localExpertCounts (hn : 0 < n) {c : List ℕ} (hc : c.length = n * w) :
    (localExpertCounts c n).length = w ∧ (localExpertCounts c n).sum = c.sum := by
  have hcounts : localExpertCounts c n = (List.range w).map fun l =>
      ((List.range n).map fun i => c.getD (i * w + l) 0).sum := by
    rw [localExpertCounts,transpose_reshape hn hc,List.map_map]
    rfl
  have hruns := (columnRuns_perm hc).length_eq
  rw [List.length_range,columnRuns,length_flatMap_range] at hruns
  refine ⟨by rw [hcounts,List.length_map,List.length_range],?_⟩
  rw [hcounts,← hruns]
  refine congrArg List.sum (List.map_congr_left fun l _ => ?_)
  rw [length_flatMap_range]
  simp only [List.length_range']

theorem applyExperts_forall₂ (expert : ℕ → M → M) (d : ℕ) {rows : List M} {counts : List ℕ}
    (hcounts : counts.length = w) (hsum : counts.sum = rows.length) :
    List.Forall₂ (fun x y => ∃ l < w, y = expert (d * w + l) x) rows
      (applyExperts expert (List.range' (d * w) w) rows counts) := by
  have hrows : (List.range w).flatMap (part counts rows) = rows := by
    rw [← hcounts]
    exact flatMap_part hsum
  have hlens : counts = (List.range w).map fun j => (part counts rows j).length := by
    refine List.ext_getElem (by rw [List.length_map,List.length_range,hcounts]) fun j hj _ => ?_
    rw [List.getElem_map,List.getElem_range,length_part hsum hj,List.getD_eq_getElem _ _ hj]
  have hexperts := applyExperts_segments expert d (part counts rows) (w := w)
  rw [← hlens,hrows] at hexperts
  rw [hexperts]
  conv_lhs => rw [← hrows]
  have hsame : List.Forall₂ (fun i j => i = j ∧ i < w) (List.range w) (List.range w) :=
    List.forall₂_same.mpr fun i hi => ⟨rfl,List.mem_range.mp hi⟩
  refine List.rel_flatMap hsame fun i j hij => ?_
  obtain ⟨rfl,hi⟩ := hij
  rw [List.forall₂_map_right_iff,List.forall₂_same]
  exact fun x _ => ⟨i,hi,rfl⟩

theorem unpermuted_expert [Zero M] (hn : 0 < n) (expert : ℕ → M → M) (d : ℕ) {rows : List M}
    {c : List ℕ} (hc : c.length = n * w) (hsum : c.sum = rows.length) {p : ℕ} {x : M}
    (hx : rows[p]? = some x) : ∃ l < w, (scatter (List.replicate rows.length 0)
      (columnRuns n w c) (applyExperts expert (List.range' (d * w) w)
        (gather rows (columnRuns n w c)) (localExpertCounts c n)))[p]? =
          some (expert (d * w + l) x) := by
  obtain ⟨hwidth,htotal⟩ := length_localExpertCounts hn hc
  have hperm := columnRuns_perm hc
  rw [hsum] at hperm
  have hwithin := within_perm hperm
  have hgather := length_gather hwithin
  have hfit : (localExpertCounts c n).sum = (gather rows (columnRuns n w c)).length := by
    rw [htotal,hsum,hgather,hperm.length_eq,List.length_range]
  have hforall := applyExperts_forall₂ expert d hwidth hfit
  have hlength := hforall.length_eq.symm.trans hgather
  have hp : p < rows.length := (List.getElem?_eq_some_iff.mp hx).1
  obtain ⟨k,hk⟩ := List.mem_iff_getElem?.mp (hperm.mem_iff.mpr (List.mem_range.mpr hp))
  obtain ⟨hklt,hkp⟩ := List.getElem?_eq_some_iff.mp hk
  have hread : (gather rows (columnRuns n w c))[k]? = some x := by
    rw [getElem?_gather hwithin,hk,Option.bind_some,hx]
  have hbuffer : Within (columnRuns n w c) (List.replicate rows.length (0 : M)).length := by
    rwa [List.length_replicate]
  have hwrite := getElem?_scatter_mem (hperm.nodup_iff.mpr List.nodup_range) hbuffer hlength.symm
    hklt
  rw [hkp] at hwrite
  obtain ⟨hkx,hget⟩ := List.getElem?_eq_some_iff.mp hread
  obtain ⟨l,hl,hy⟩ := hforall.get hkx (by rw [hlength]; exact hklt)
  rw [List.get_eq_getElem,List.get_eq_getElem,hget] at hy
  refine ⟨l,hl,?_⟩
  rw [hwrite,List.getElem?_eq_getElem (by rw [hlength]; exact hklt),hy]

end Experts

section Probes

variable {topK numExperts : ℕ} (ids : TopkExpertIds topK numExperts)

/-- The rows of device `k` are told apart, and only slot `s₀` has a score. -/
def probe (s₀ k : ℕ) : Routing ℕ ℕ topK numExperts where
  x := (List.range ids.rows.length).map fun t => Nat.pair k t
  topkScores := (List.range ids.rows.length).map fun t =>
    (List.range topK).map fun j => if t * topK + j = s₀ then 1 else 0
  topkExpertIds := ids.rows
  length_scores := by simp
  length_ids := by simp
  scores_topK := by simp
  ids_topK := ids.rows_topK
  ids_distinct := ids.rows_distinct
  ids_lt := ids.rows_lt

variable {ids} {s₀ k : ℕ}

theorem length_probe_x : (probe ids s₀ k).x.length = ids.rows.length := by simp [probe]

theorem probe_rowOf {s : ℕ} (hs : s < ids.rows.length * topK) :
    (probe ids s₀ k).rowOf s = Nat.pair k (s / topK) := by
  have hlt : s / topK < ids.rows.length := by
    rw [Nat.mul_comm] at hs
    exact Nat.div_lt_of_lt_mul hs
  exact getD_range_map _ 0 hlt

theorem probe_scoreOf {s : ℕ} (hs : s < ids.rows.length * topK) :
    (probe ids s₀ k).scoreOf s = if s = s₀ then 1 else 0 := by
  have hpos : 0 < topK := Nat.pos_of_mul_pos_left (Nat.zero_lt_of_lt hs)
  have hlt : s / topK < ids.rows.length := by
    rw [Nat.mul_comm] at hs
    exact Nat.div_lt_of_lt_mul hs
  have hat := getD_flatten_map (n := ids.rows.length) (w := topK)
    (fun t j => if t * topK + j = s₀ then 1 else 0) 0 hlt (Nat.mod_lt s hpos)
  rw [Nat.mul_comm (s / topK),Nat.div_add_mod] at hat
  exact hat

theorem scoreAndAdd_probe (hs : s₀ < ids.rows.length * topK) {back : List ℕ}
    (hback : back.length = ids.rows.length * topK) {q : ℕ}
    (hq : (probe ids s₀ k).order[q]? = some s₀) :
    (scoreAndAdd false back ⟨(probe ids s₀ k).order.map (· / topK),
      (probe ids s₀ k).order.map (probe ids s₀ k).scoreOf⟩ (probe ids s₀ k).x).getD
        (s₀ / topK) 0 = back.getD q 0 := by
  have hperm := (probe ids s₀ k).order_perm
  rw [length_probe_x] at hperm
  have hnodup : (probe ids s₀ k).order.Nodup := hperm.nodup_iff.mpr List.nodup_range
  have hlength : (probe ids s₀ k).order.length = back.length := by
    rw [hperm.length_eq,List.length_range,hback]
  obtain ⟨value,hvalue⟩ : ∃ value : ℕ → ℕ, ∀ s, value s =
    back.getD ((probe ids s₀ k).order.idxOf s) 0 := ⟨_,fun _ => rfl⟩
  have hmap : back = (probe ids s₀ k).order.map value := by
    refine List.ext_getElem (by rw [List.length_map,hlength]) fun i hi _ => ?_
    rw [List.getElem_map,hvalue,hnodup.idxOf_getElem,List.getD_eq_getElem _ _ hi]
  have hscaled : scaled back ((probe ids s₀ k).order.map (probe ids s₀ k).scoreOf) =
      (probe ids s₀ k).order.map fun s => (probe ids s₀ k).scoreOf s • value s := by
    rw [hmap,scaled,List.zipWith_map,List.zipWith_self]
  have hrow : s₀ / topK < (List.replicate (probe ids s₀ k).x.length 0).length := by
    rw [List.length_replicate,length_probe_x]
    rw [Nat.mul_comm] at hs
    exact Nat.div_lt_of_lt_mul hs
  have hmem : s₀ ∈ (probe ids s₀ k).order.filter fun s => s / topK = s₀ / topK :=
    List.mem_filter.mpr ⟨hperm.mem_iff.mpr (List.mem_range.mpr hs),by simp⟩
  have hother : ∀ s, s ≠ s₀ → s ∈ (probe ids s₀ k).order.filter (fun s => s / topK = s₀ / topK) →
      (probe ids s₀ k).scoreOf s • value s = 0 := by
    intro s hne hs
    have hlt := List.mem_range.mp (hperm.mem_iff.mp (List.mem_of_mem_filter hs))
    rw [probe_scoreOf hlt,if_neg hne,zero_smul]
  obtain ⟨hqlt,hqs⟩ := List.getElem?_eq_some_iff.mp hq
  unfold scoreAndAdd
  dsimp only
  rw [if_neg (by decide),hscaled,getD_indexAdd _ (· / topK) _ hrow,
    List.sum_map_eq_nsmul_single s₀ _ hother,
    List.count_eq_one_of_mem (hnodup.filter _) hmem,probe_scoreOf hs,if_pos rfl,hvalue]
  have hidx : (probe ids s₀ k).order.idxOf s₀ = q := by
    conv_lhs => rw [← hqs]
    exact hnodup.idxOf_getElem q hqlt
  simp [hidx,length_probe_x]

end Probes

section Ends

variable {topK : ℕ} {mesh : Mesh} {ids : ℕ → TopkExpertIds topK (mesh.ep * mesh.le)}

def probes (ids : ℕ → TopkExpertIds topK (mesh.ep * mesh.le)) (s₀ r : ℕ) :
    Routing ℕ ℕ topK (mesh.ep * mesh.le) := probe (ids r) s₀ r

/-- What device `d` holds behind its experts. -/
def behind (ids : ℕ → TopkExpertIds topK (mesh.ep * mesh.le)) (s₀ d : ℕ) : List ℕ :=
  scatter (List.replicate (received false (probes ids s₀) d).length 0)
    (columnRuns mesh.ep mesh.le (recvCounts mesh (fun r => (ids r).rows) d).flatten)
    (applyExperts Nat.pair (List.range' (d * mesh.le) mesh.le)
      (gather (received false (probes ids s₀) d) (columnRuns mesh.ep mesh.le
        (recvCounts mesh (fun r => (ids r).rows) d).flatten))
      (localExpertCounts (recvCounts mesh (fun r => (ids r).rows) d).flatten mesh.ep))

theorem sum_recvSizes (s₀ d : ℕ) :
    (recvSizes mesh (fun r => (ids r).rows) d).sum = (behind ids s₀ d).length := by
  rw [behind,length_scatter,List.length_replicate]
  exact (length_received false (probes ids s₀) d).symm

/-- What device `d` sends back to device `r`. -/
def sentBack (ids : ℕ → TopkExpertIds topK (mesh.ep * mesh.le)) (s₀ d r : ℕ) : List ℕ :=
  part (recvSizes mesh (fun r => (ids r).rows) d) (behind ids s₀ d) r

theorem length_recvSizes {d : ℕ} (hd : d < mesh.ep) :
    (recvSizes mesh (fun r => (ids r).rows) d).length = mesh.ep := by
  rw [recvSizes_eq _ hd,List.length_map,List.length_range]

theorem length_sentBack (s₀ r : ℕ) {d : ℕ} (hd : d < mesh.ep) (hr : r < mesh.ep) :
    (sentBack ids s₀ d r).length = load mesh.le (ids r).rows d := by
  rw [sentBack,length_part (sum_recvSizes s₀ d) (by rwa [length_recvSizes hd]),
    recvSizes_eq (fun r => (ids r).rows) hd,getD_range_map _ 0 hr]

def comesBack (ids : ℕ → TopkExpertIds topK (mesh.ep * mesh.le)) (s₀ r : ℕ) : List ℕ :=
  (List.range mesh.ep).foldl (fun out d => scatter out
    (List.range' ((starts (sendSizes mesh (ids d).rows)).getD r 0) (sentBack ids s₀ d r).length)
      (sentBack ids s₀ d r)) (List.replicate (sendSizes mesh (ids r).rows).sum 0)

theorem forward_probes (hep : mesh.ep ≠ 1) (s₀ : ℕ) {r : ℕ} (hr : r < mesh.ep) :
    expertParallelForward mesh false Nat.pair (probes ids s₀) r =
      scoreAndAdd false (comesBack ids s₀ r)
        ⟨(probe (ids r) s₀ r).order.map (· / topK),
          (probe (ids r) s₀ r).order.map (probe (ids r) s₀ r).scoreOf⟩ (probe (ids r) s₀ r).x := by
  have hdispatch := fun d (hd : d < mesh.ep) => dispatch_eq false (probes ids s₀) hep hd
  rw [expertParallelForward,combine_segments false hep (sentBack ids s₀) (fun d hd => ?_)
    (fun d hd => ?_) hr]
  · rw [hdispatch r hr]
    have hfold : ∀ out : List ℕ, (List.range mesh.ep).foldl (fun out d => scatter out
        (List.range' ((starts (AllToAllTokenDispatcher.dispatch mesh false (probes ids s₀)
          d).2.2.sendSizes).getD r 0) (sentBack ids s₀ d r).length) (sentBack ids s₀ d r)) out =
        (List.range mesh.ep).foldl (fun out d => scatter out
          (List.range' ((starts (sendSizes mesh (ids d).rows)).getD r 0)
            (sentBack ids s₀ d r).length) (sentBack ids s₀ d r)) out := fun out =>
      List.foldl_ext _ _ _ fun out d hd => by
        rw [hdispatch d (List.mem_range.mp hd)]
        rfl
    rw [hfold]
    rfl
  · rw [hdispatch d hd]
    have hparts := flatMap_part (@sum_recvSizes topK mesh ids s₀ d)
    rw [length_recvSizes hd] at hparts
    exact hparts.symm
  · rw [hdispatch d hd]
    refine (recvSizes_eq (fun r => (ids r).rows) hd).trans (List.map_congr_left fun r hr => ?_)
    exact (length_sentBack s₀ r hd (List.mem_range.mp hr)).symm

theorem segment_probes {s₀ r d v : ℕ} (h : v ∈ segment false (probes ids s₀) r d) :
    ∃ t, v = Nat.pair r t := by
  obtain ⟨l,-,hv⟩ := List.mem_flatMap.mp h
  obtain ⟨s,hs,rfl⟩ := List.mem_map.mp hv
  have hlt := List.mem_range.mp (List.mem_of_mem_filter hs)
  have hrow : (probes ids s₀ r).rowOf s = Nat.pair r (s / topK) :=
    probe_rowOf (by rwa [← @length_probe_x _ _ (ids r) s₀ r])
  exact ⟨_,hrow⟩

theorem order_probes (s₀ k : ℕ) : (probes ids s₀ k).order = (List.range mesh.ep).flatMap fun d =>
    (List.range mesh.le).flatMap fun l => (probes ids s₀ k).slots (d * mesh.le + l) := by
  rw [range_mul_flatMap]
  rfl

theorem length_order_segment (s₀ k d : ℕ) : ((List.range mesh.le).flatMap fun l =>
    (probes ids s₀ k).slots (d * mesh.le + l)).length = load mesh.le (ids k).rows d := by
  rw [length_flatMap_range,load,← sum_count_experts mesh.le_pos]
  refine congrArg List.sum (List.map_congr_left fun l _ => ?_)
  exact ((probes ids s₀ k).count_ids _).symm

theorem length_order (s₀ k : ℕ) : (probes ids s₀ k).order.length = (ids k).rows.length * topK := by
  rw [(probes ids s₀ k).order_perm.length_eq,List.length_range]
  exact congrArg (· * topK) length_probe_x

theorem sum_sendSizes (k : ℕ) :
    (sendSizes mesh (ids k).rows).sum = (ids k).rows.length * topK := by
  rw [← @length_order topK mesh ids 0 k,order_probes,length_flatMap_range,sendSizes_eq]
  simp only [length_order_segment]

theorem writes_of_rowsKept (h : RowsKept mesh fun r => (ids r).rows) (s₀ : ℕ) {d : ℕ}
    (hd : d < mesh.ep) :
    ((List.range mesh.ep).flatMap fun r => List.range'
      ((starts (recvSizes mesh (fun r => (ids r).rows) r)).getD d 0)
        (segment false (probes ids s₀) r d).length).Perm
      (List.range (List.replicate (recvSizes mesh (fun r => (ids r).rows) d).sum 0).length) ∧
    ((List.range mesh.ep).flatMap fun r => List.range'
      ((starts (sendSizes mesh (ids r).rows)).getD d 0) (sentBack ids s₀ r d).length).Perm
      (List.range (List.replicate (sendSizes mesh (ids d).rows).sum 0).length) := by
  obtain ⟨hout,hback⟩ := h d hd
  rw [List.length_replicate,List.length_replicate]
  dsimp only [written] at hout hback
  refine ⟨(List.Perm.of_eq (List.flatMap_congr fun r _ => ?_)).trans hout,
    (List.Perm.of_eq (List.flatMap_congr fun r hr => ?_)).trans hback⟩
  · rw [length_segment,sendSizes_eq,getD_range_map _ 0 hd]
    rfl
  · rw [length_sentBack s₀ d (List.mem_range.mp hr) hd,
      recvSizes_eq (fun r => (ids r).rows) (List.mem_range.mp hr),getD_range_map _ 0 hd]

theorem getElem?_sentBack (s₀ : ℕ) {d r a : ℕ} (hd : d < mesh.ep) (hr : r < mesh.ep)
    (ha : a < load mesh.le (ids r).rows d) : (sentBack ids s₀ d r)[a]? =
      (behind ids s₀ d)[((List.range r).map fun i => load mesh.le (ids i).rows d).sum + a]? := by
  have hsizes := recvSizes_eq (fun r => (ids r).rows) hd
  rw [sentBack,part,hsizes,getD_range_map _ 0 hr,take_range_map _ hr.le,
    List.getElem?_take_of_lt ha,List.getElem?_drop]

theorem ends_of_computesDense (h : ComputesDense mesh ids) (hep : mesh.ep ≠ 1) {k j a : ℕ}
    (hk : k < mesh.ep) (hj : j < mesh.ep) (ha : a < load mesh.le (ids k).rows j) :
    (((List.range j).map fun i => load mesh.le (ids k).rows i).sum ≤
        ((List.range k).map fun i => load mesh.le (ids j).rows i).sum + a ∧
      ((List.range k).map fun i => load mesh.le (ids j).rows i).sum + a <
        ((List.range j).map fun i => load mesh.le (ids k).rows i).sum +
          load mesh.le (ids k).rows j) ∧
    ((List.range j).map fun i => load mesh.le (ids i).rows k).sum ≤
        ((List.range k).map fun i => load mesh.le (ids i).rows j).sum + a ∧
      ((List.range k).map fun i => load mesh.le (ids i).rows j).sum + a <
        ((List.range j).map fun i => load mesh.le (ids i).rows k).sum +
          load mesh.le (ids k).rows j := by
  obtain ⟨hkept,hdense⟩ := h
  obtain ⟨q,hq⟩ : ∃ q, q = ((List.range k).map fun i => load mesh.le (ids j).rows i).sum + a :=
    ⟨_,rfl⟩
  obtain ⟨p,hp⟩ : ∃ p, p = ((List.range k).map fun i => load mesh.le (ids i).rows j).sum + a :=
    ⟨_,rfl⟩
  have hoffset : (starts (sendSizes mesh (ids j).rows)).getD k 0 =
      ((List.range k).map fun i => load mesh.le (ids j).rows i).sum :=
    getD_starts_sendSizes (fun r => (ids r).rows) hk
  have hqlt : q < (probes ids 0 k).order.length := by
    have hall := (writes_of_rowsKept hkept 0 hk).2
    rw [List.length_replicate,sum_sendSizes] at hall
    rw [length_order,← List.mem_range,← hall.mem_iff]
    refine List.mem_flatMap.mpr ⟨j,List.mem_range.mpr hj,?_⟩
    rw [hoffset,length_sentBack 0 k hj hk,List.mem_range'_1]
    omega
  obtain ⟨s₀,hs₀⟩ : ∃ s₀, (probes ids 0 k).order[q]? = some s₀ :=
    ⟨_,List.getElem?_eq_getElem hqlt⟩
  have hslot : (probe (ids k) s₀ k).order[q]? = some s₀ := hs₀
  have hlt : s₀ < (ids k).rows.length * topK := by
    have hmem := (probes ids 0 k).order_perm.mem_iff.mp (List.mem_of_getElem? hs₀)
    rw [List.mem_range] at hmem
    exact hmem.trans_eq (congrArg (· * topK) length_probe_x)
  obtain ⟨hout,hback⟩ := And.intro (writes_of_rowsKept hkept s₀ hj).1
    (writes_of_rowsKept hkept s₀ hk).2
  have hdue : (comesBack ids s₀ k).getD q 0 =
      Nat.pair ((probe (ids k) s₀ k).expertOf s₀) (Nat.pair k (s₀ / topK)) := by
    have hexpert : false = true → ∀ e (score : ℕ) row, Nat.pair e (score • row) =
        score • Nat.pair e row := fun h => by cases h
    have hforward := (hdense ℕ ℕ false Nat.pair hexpert (probes ids s₀) (fun _ => rfl) k hk).1
    have hlength : (comesBack ids s₀ k).length = (ids k).rows.length * topK := by
      rw [comesBack,length_foldl_scatter,List.length_replicate,sum_sendSizes]
    have hdueLength : ((probe (ids k) s₀ k).order.map fun s =>
        Nat.pair ((probe (ids k) s₀ k).expertOf s) ((probe (ids k) s₀ k).sent false s)).length =
          (ids k).rows.length * topK := by
      rw [List.length_map]
      exact length_order s₀ k
    rw [forward_probes hep s₀ hk,probes,← (probe (ids k) s₀ k).scoreAndAdd_order hexpert] at hforward
    have hat := congrArg (·.getD (s₀ / topK) 0) hforward
    rw [scoreAndAdd_probe hlt hlength hslot,scoreAndAdd_probe hlt hdueLength hslot] at hat
    rw [hat,List.getD_eq_getElem?_getD,List.getElem?_map,hslot]
    exact congrArg (Nat.pair _) (probe_rowOf hlt)
  have hread : (comesBack ids s₀ k)[q]? = (behind ids s₀ j)[p]? := by
    have hat := getElem?_foldl_scatter hback hj (a := a)
      (by rwa [length_sentBack s₀ k hj hk])
    rw [hoffset,← hq] at hat
    rw [hp,← getElem?_sentBack s₀ hj hk ha]
    exact hat
  have hplt : p < (received false (probes ids s₀) j).length := by
    have hsum := length_received false (probes ids s₀) j
    have hbehind := @sum_recvSizes topK mesh ids s₀ j
    have hsome : (behind ids s₀ j)[p]? ≠ none := by
      rw [hp,← getElem?_sentBack s₀ hj hk ha]
      exact fun hnone => absurd (List.getElem?_eq_none_iff.mp hnone)
        (by rw [length_sentBack s₀ k hj hk]; omega)
    rw [hsum]
    have hlt := Nat.lt_of_not_le fun hle => hsome (List.getElem?_eq_none_iff.mpr hle)
    exact hlt.trans_eq hbehind.symm
  obtain ⟨r,hr,hge,hle,x,hx,hwritten⟩ := @exists_writer _ _ _ _ _ hout p (by
    rw [List.length_replicate]
    exact hplt.trans_eq (length_received false (probes ids s₀) j))
  have hcounts : (recvCounts mesh (fun r => (ids r).rows) j).flatten.length =
        mesh.ep * mesh.le ∧
      (recvCounts mesh (fun r => (ids r).rows) j).flatten.sum =
        (received false (probes ids s₀) j).length := by
    have hsegments := recvCounts_segments false (probes ids s₀) hj
    refine ⟨?_,?_⟩
    · exact (congrArg List.length hsegments).trans (by rw [List.length_map,List.length_range])
    · rw [List.sum_flatten,length_received]
      rfl
  obtain ⟨l,hl,hexperts⟩ :=
    unpermuted_expert mesh.ep_pos Nat.pair j hcounts.1 hcounts.2 hwritten
  have hpair : Nat.pair ((probe (ids k) s₀ k).expertOf s₀) (Nat.pair k (s₀ / topK)) =
      Nat.pair (j * mesh.le + l) x := by
    rw [← hdue,List.getD_eq_getElem?_getD,hread]
    exact congrArg (Option.getD · 0) hexperts
  obtain ⟨hslotExpert,hrow⟩ := Nat.pair_eq_pair.mp hpair
  obtain ⟨t,rfl⟩ := segment_probes hx
  obtain ⟨rfl,-⟩ := Nat.pair_eq_pair.mp hrow
  rw [length_segment] at hle
  rw [getD_starts_recvSizes _ hk hj] at hge hle
  rw [order_probes] at hs₀
  obtain ⟨i,hi,hmem,hfrom,hto⟩ := exists_segment hs₀
  obtain ⟨l',hl',hs⟩ := List.mem_flatMap.mp hmem
  have hexpertOf : (probes ids 0 k).expertOf s₀ = i * mesh.le + l' := by
    simpa using (List.mem_filter.mp hs).2
  have hij : i = j := by
    have hdiv := congrArg (· / mesh.le) (hexpertOf.symm.trans hslotExpert)
    have hl' := List.mem_range.mp hl'
    simpa [Nat.mul_comm _ mesh.le,Nat.mul_add_div mesh.le_pos,Nat.div_eq_of_lt hl,
      Nat.div_eq_of_lt hl'] using hdiv
  subst hij
  simp only [length_order_segment] at hfrom hto
  rw [← hq,← hp]
  exact ⟨⟨hfrom,hto⟩,hge,hle⟩

theorem placed_of_computesDense (h : ComputesDense mesh ids) :
    Placed mesh.ep fun r j => load mesh.le (ids r).rows j := by
  intro k hk j hj hpos
  dsimp only at hpos ⊢
  by_cases hep : mesh.ep = 1
  · obtain rfl : k = 0 := by omega
    obtain rfl : j = 0 := by omega
    exact ⟨rfl,rfl⟩
  · have hfirst := ends_of_computesDense h hep hk hj hpos
    have hlast := ends_of_computesDense h hep hk hj (Nat.sub_one_lt_of_lt hpos)
    refine ⟨?_,?_⟩ <;> omega

end Ends

/-- The dispatch computes the mixture exactly when all rows are written to their places, on the way
out and on the way back. -/
theorem computesDense_iff (mesh : Mesh) {topK : ℕ}
    (ids : ℕ → TopkExpertIds topK (mesh.ep * mesh.le)) :
    ComputesDense mesh ids ↔ Placed mesh.ep fun r j => load mesh.le (ids r).rows j := by
  refine ⟨placed_of_computesDense,fun h => ⟨rowsKept_of_placed h,?_⟩⟩
  intro R M _ _ _ scoreBeforeExperts expert hexpert routing hids r hr
  refine ⟨forward_of_placed scoreBeforeExperts routing hexpert ?_ hr,
    (localForward_dense scoreBeforeExperts hexpert (routing r)).symm⟩
  simpa only [hids] using h

def balancedIds (_ : ℕ) : TopkExpertIds 1 2 := ⟨[[0],[1]],by decide,by decide,by decide⟩

def balancedRows (r : ℕ) : Routing ℕ ℕ 1 2 :=
  ⟨[10 * r + 1,10 * r + 2],[[1],[1]],[[0],[1]],rfl,rfl,by decide,by decide,by decide,by decide⟩

/-- Both devices write to the first row of device zero and to the second row of device one. -/
theorem balanced_overwritten : ¬ComputesDense ⟨2,1,by decide,by decide⟩ balancedIds ∧
    expertParallelForward ⟨2,1,by decide,by decide⟩ true (fun e row => (e + 1) * row) balancedRows
      0 = [0,0] ∧
    denseMixture (fun e row => (e + 1) * row) (balancedRows 0) = [1,4] := by
  refine ⟨fun h => ?_,?_,?_⟩
  · have hkept := (h.1 1 (by decide)).1
    exact absurd (hkept.nodup_iff.mpr List.nodup_range) (by decide)
  · decide
  · decide

end JaxMoe
end DockyardRL
