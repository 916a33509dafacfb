import DockyardRL.Logprob.KeptSet
import DockyardRL.Logprob.VocabParallel

/-! What the sharded passes are to compute: the log-softmax of whole rows restricted to some kept
tokens, its gradient, and the part of a row that a rank holds.

The log-softmax of the ranks is that of whole rows, and so are the values and the gradients that
`DistributedLogprob` computes with flat indices. -/
namespace DockyardRL
namespace Logprob

section

open Grid Softmax Stripes

variable {K : Type} [Field K] [LinearOrder K]

/-- Logits of shape `[B,S,V]` with distinct logits at each position, whose vocabulary is cut into
equal parts. -/
structure Logits (K : Type) where
  B : ℕ
  S : ℕ
  tp : ℕ
  vLocal : ℕ
  row : ℕ → ℕ → List K
  tp_pos : 0 < tp
  vLocal_pos : 0 < vLocal
  length_row : ∀ b < B, ∀ s < S, (row b s).length = tp * vLocal
  nodup_row : ∀ b < B, ∀ s < S, (row b s).Nodup

def part (vLocal r : ℕ) {α : Type} (row : List α) : List α := (row.drop (r * vLocal)).take vLocal

namespace Logits

variable (L : Logits K)

def vocab : ℕ := L.tp * L.vLocal

def grid {α : Type} (f : ℕ → ℕ → α) : Grid α := ⟨L.B,L.S,f⟩

def shard (r : ℕ) : Grid (List K) := L.grid fun b s => part L.vLocal r (L.row b s)

def vocabStartIndex (r : ℕ) : ℕ := r * L.vLocal

def vocabEndIndex (r : ℕ) : ℕ := (r + 1) * L.vLocal

end Logits

variable (e : Exponential K)

def logprobOn (row : List K) (kept : List ℕ) (t : ℕ) : WithBot K :=
  if t ∈ kept then ((row.getD t 0 - e.log (massOf e row kept) : K) : WithBot K) else ⊥

/-- The derivative of `g` times the log-softmax at `t`, by the logit `v`. -/
def gradAt (row : List K) (kept : List ℕ) (t : ℕ) (g : K) (v : ℕ) : K :=
  if v ∈ kept then ((if v = t then 1 else 0) - e.exp (row.getD v 0) / massOf e row kept) * g else 0

def gradOn (row : List K) (kept : List ℕ) (t : ℕ) (g : K) : List K :=
  (List.range row.length).map (gradAt e row kept t g)

def gradsOn (row : List K) (kept ts : List ℕ) (gs : List K) : List K :=
  (List.range row.length).map fun v =>
    ((ts.zip gs).map fun p => gradAt e row kept p.1 p.2 v).sum

section Parts

variable {α : Type} {vLocal tp : ℕ}

theorem length_part {row : List α} (h : row.length = tp * vLocal) {r : ℕ} (hr : r < tp) :
    (part vLocal r row).length = vLocal := by
  have hle : (r + 1) * vLocal ≤ tp * vLocal := Nat.mul_le_mul_right _ hr
  rw [Nat.succ_mul] at hle
  rw [part,List.length_take,List.length_drop]
  omega

theorem getD_part (row : List α) (d : α) {r j : ℕ} (hj : j < vLocal) :
    (part vLocal r row).getD j d = row.getD (r * vLocal + j) d := by
  rw [part,List.getD_eq_getElem?_getD,List.getD_eq_getElem?_getD,List.getElem?_take,if_pos hj,
    List.getElem?_drop]

theorem part_map {β : Type} (f : α → β) (r : ℕ) (row : List α) :
    part vLocal r (row.map f) = (part vLocal r row).map f := by
  rw [part,part,← List.map_drop,← List.map_take]

theorem flatMap_part {row : List α} (h : row.length = tp * vLocal) :
    ((List.range tp).flatMap fun r => part vLocal r row) = row :=
  (flatMap_parts row vLocal tp).trans (List.take_of_length_le h.le)

/-- A rank holds consecutive tokens. -/
theorem part_range {r : ℕ} (hr : r < tp) (f : ℕ → α) :
    part vLocal r ((List.range (tp * vLocal)).map f) =
      (List.range vLocal).map fun j => f (r * vLocal + j) := by
  have hle : (r + 1) * vLocal ≤ tp * vLocal := Nat.mul_le_mul_right _ hr
  rw [Nat.succ_mul] at hle
  refine List.ext_getElem ?_ fun j hj _ => ?_
  · rw [part,List.length_take,List.length_drop]
    simp
    omega
  · simp [part]

theorem sum_parts {M : Type} [AddCommMonoid M] (f : α → M) {row : List α}
    (h : row.length = tp * vLocal) :
    ((List.range tp).map fun r => ((part vLocal r row).map f).sum).sum = (row.map f).sum := by
  have hall := flatMap_part h
  conv_rhs => rw [← hall,List.map_flatMap,List.flatMap_def,List.sum_flatten,List.map_map]
  rfl

theorem owner_iff (hv : 0 < vLocal) {r t : ℕ} :
    ¬(t < r * vLocal ∨ (r + 1) * vLocal ≤ t) ↔ r = t / vLocal := by
  rw [eq_comm,Nat.div_eq_iff hv,Nat.succ_mul]
  omega

theorem sum_owner {M : Type} [AddCommMonoid M] (hv : 0 < vLocal) {t : ℕ} (ht : t < tp * vLocal)
    (f : ℕ → M) : ((List.range tp).map fun r =>
      if t < r * vLocal ∨ (r + 1) * vLocal ≤ t then 0 else f r).sum = f (t / vLocal) := by
  have howner : t / vLocal < tp := Nat.div_lt_of_lt_mul (by rwa [Nat.mul_comm])
  rw [sum_single List.nodup_range (List.mem_range.mpr howner) fun r _ hr => ?_]
  · exact if_neg ((owner_iff hv).mpr rfl)
  · by_contra hnot
    refine hr ((owner_iff hv).mp fun hmask => hnot ?_)
    exact if_pos hmask

end Parts

end

open Chunks Grid Softmax

variable {K : Type} [Field K] [LinearOrder K] {e : Exponential K} {tp vLocal : ℕ} {row : List K}

/-- The mass of all tokens. -/
theorem massOf_range (e : Exponential K) (row : List K) :
    massOf e row (List.range row.length) = e.total row := by
  conv_rhs => rw [← map_getD row,Exponential.total,List.map_map]
  rfl

variable [IsStrictOrderedRing K]

/-- Every rank gets its part of the log-softmax of the whole row. -/
theorem logSoftmax_entry {x : ℕ → Grid (List K)} {b s : ℕ} (hlength : row.length = tp * vLocal)
    (hne : row ≠ []) (hx : ∀ r < tp, (x r).entry b s = part vLocal r row) {r : ℕ} (hr : r < tp) :
    (computeDistributedLogSoftmax e tp x r).entry b s =
      (part vLocal r row).map fun y => y - e.log (e.total row) := by
  have hsum : ∀ m, ((List.range tp).map fun q =>
      e.total (((x q).entry b s).map fun y => y - m)).sum = e.exp (-m) * e.total row := by
    intro m
    have hparts := sum_parts (fun y => e.exp (y - m)) hlength
    have htotal := e.total_shift m row
    rw [Exponential.total,List.map_map] at htotal
    rw [← htotal,Function.comp_def,← hparts]
    refine congrArg List.sum (List.map_congr_left fun q hq => ?_)
    rw [hx q (List.mem_range.mp hq),Exponential.total,List.map_map]
    rfl
  show (((x r).entry b s).map fun y => y - _).map (fun y => y - e.log ((List.range tp).map fun q =>
    e.total (((x q).entry b s).map fun y => y - _)).sum) = _
  rw [hsum,e.log_mul _ (e.total_pos hne),hx r hr,List.map_map]
  refine List.map_congr_left fun y _ => ?_
  rw [Function.comp_apply]
  ring

omit [LinearOrder K] [IsStrictOrderedRing K] in
/-- Only the rank that holds the target has a value for it. -/
theorem sum_gather (hv : 0 < vLocal) (hlength : row.length = tp * vLocal) (f : K → K) {t : ℕ}
    (ht : t < tp * vLocal) : ((List.range tp).map fun r =>
      if decide (t < r * vLocal ∨ (r + 1) * vLocal ≤ t) = true then 0
      else ((part vLocal r row).map f).getD
        (if decide (t < r * vLocal ∨ (r + 1) * vLocal ≤ t) = true then 0 else t - r * vLocal) 0).sum =
      f (row.getD t 0) := by
  have howner : ∀ r, (if decide (t < r * vLocal ∨ (r + 1) * vLocal ≤ t) = true then (0 : K)
      else ((part vLocal r row).map f).getD
        (if decide (t < r * vLocal ∨ (r + 1) * vLocal ≤ t) = true then 0 else t - r * vLocal) 0) =
      if t < r * vLocal ∨ (r + 1) * vLocal ≤ t then 0
      else ((part vLocal r row).map f).getD (t - r * vLocal) 0 := by
    intro r
    by_cases h : t < r * vLocal ∨ (r + 1) * vLocal ≤ t <;> simp [h]
  simp only [howner]
  rw [sum_owner hv ht]
  have hmod : t - t / vLocal * vLocal < vLocal := by
    have hdiv := Nat.div_add_mod t vLocal
    have hlt := Nat.mod_lt t hv
    rw [Nat.mul_comm] at hdiv
    omega
  rw [← part_map,getD_part _ _ hmod,Nat.add_sub_cancel' (Nat.div_mul_le_self t vLocal),
    List.getD_eq_getElem _ _ (by rw [List.length_map]; omega),List.getElem_map,
    List.getD_eq_getElem _ _ (by omega)]

omit [LinearOrder K] [IsStrictOrderedRing K] in
theorem gathered_entry (hv : 0 < vLocal) (hlength : row.length = tp * vLocal) (f : K → K) {t b s : ℕ}
    (ht : t < tp * vLocal) {logProbs : ℕ → Grid (List K)} {mask : ℕ → Grid Bool} {masked : ℕ → Grid ℕ}
    (hlogProbs : ∀ r < tp, (logProbs r).entry b s = (part vLocal r row).map f)
    (hmask : ∀ r, (mask r).entry b s = decide (t < r * vLocal ∨ (r + 1) * vLocal ≤ t))
    (hmasked : ∀ r, (masked r).entry b s =
      if decide (t < r * vLocal ∨ (r + 1) * vLocal ≤ t) = true then 0 else t - r * vLocal) :
    (allReduceSum tp fun r => gatherMasked (logProbs r) (mask r) (masked r)).entry b s =
      f (row.getD t 0) := by
  rw [← sum_gather hv hlength f ht]
  refine congrArg List.sum (List.map_congr_left fun r hr => ?_)
  show (if (mask r).entry b s = true then 0
    else ((logProbs r).entry b s).getD ((masked r).entry b s) 0) = _
  rw [hlogProbs r (List.mem_range.mp hr),hmask,hmasked]

section Dense

variable (e) (L : Logits K)

def denseLogprob (target : ℕ → ℕ → ℕ) (b s : ℕ) : K :=
  (L.row b s).getD (target b s) 0 - e.log (e.total (L.row b s))

variable {e L}

omit [Field K] [LinearOrder K] [IsStrictOrderedRing K] in
theorem row_ne_nil {b s : ℕ} (hb : b < L.B) (hs : s < L.S) : L.row b s ≠ [] := by
  refine List.ne_nil_of_length_pos ?_
  rw [L.length_row b hb s hs]
  exact Nat.mul_pos L.tp_pos L.vLocal_pos

theorem distributedLogprob_forward {target : ℕ → ℕ → ℕ} (inferenceOnly : Bool) {b s : ℕ}
    (hb : b < L.B) (hs : s < L.S) (ht : target b s < L.vocab) :
    (DistributedLogprob.forward e L.tp L.shard (L.grid target) L.vocabStartIndex L.vocabEndIndex
      inferenceOnly).1.entry b s = denseLogprob e L target b s :=
  gathered_entry L.vLocal_pos (L.length_row b hb s hs) _ ht
    (fun _ hr => logSoftmax_entry (L.length_row b hb s hs) (row_ne_nil hb hs) (fun _ _ => rfl) hr)
    (fun _ => rfl) fun _ => rfl

end Dense

omit [LinearOrder K] [IsStrictOrderedRing K] in
theorem distributedLogprob_backward (saved : DistributedLogprob.Saved K) (gradOutput : Grid K) {n : ℕ}
    (hsoftmax : ∀ b < saved.softmax.rows, ∀ s < saved.softmax.cols,
      (saved.softmax.entry b s).length = n)
    (hmasked : ∀ b < saved.softmax.rows, ∀ s < saved.softmax.cols, saved.maskedTarget.entry b s < n)
    (hshape : saved.targetMask.rows = saved.softmax.rows ∧ saved.targetMask.cols = saved.softmax.cols ∧
      saved.maskedTarget.rows = saved.softmax.rows ∧ saved.maskedTarget.cols = saved.softmax.cols ∧
      gradOutput.rows = saved.softmax.rows ∧ gradOutput.cols = saved.softmax.cols)
    {b s : ℕ} (hb : b < saved.softmax.rows) (hs : s < saved.softmax.cols) :
    (DistributedLogprob.backward saved gradOutput).entry b s = (List.range n).map fun v =>
      -(saved.softmax.entry b s).getD v 0 * gradOutput.entry b s +
        if saved.targetMask.entry b s = false ∧ saved.maskedTarget.entry b s = v
        then gradOutput.entry b s else 0 := by
  obtain ⟨hmr,hmc,htr,htc,hgr,hgc⟩ := hshape
  have hV : saved.softmax.lastDim = n := hsoftmax 0 (by omega) 0 (by omega)
  have hb1 : b * saved.softmax.cols + s < saved.softmax.rows * saved.softmax.cols := by
    have hle : (b + 1) * saved.softmax.cols ≤ saved.softmax.rows * saved.softmax.cols :=
      Nat.mul_le_mul_right _ hb
    rw [Nat.succ_mul] at hle
    omega
  let keep : ℕ × ℕ → Bool := fun p => !saved.targetMask.entry p.1 p.2
  let cells : ℕ × ℕ → List K := fun p =>
    (saved.softmax.entry p.1 p.2).map fun y => -y * gradOutput.entry p.1 p.2
  let index : ℕ × ℕ → ℕ := fun p =>
    (p.1 * saved.softmax.cols + p.2) * n + saved.maskedTarget.entry p.1 p.2
  have hcells : ∀ row ∈ (positions saved.softmax.rows saved.softmax.cols).map cells, row.length = n := by
    intro row hrow
    obtain ⟨p,hp,rfl⟩ := List.mem_map.mp hrow
    obtain ⟨hp1,hp2⟩ := mem_positions.mp hp
    rw [List.length_map,hsoftmax _ hp1 _ hp2]
  have hlength : ((positions saved.softmax.rows saved.softmax.cols).map cells).flatten.length =
      saved.softmax.rows * saved.softmax.cols * n := by
    rw [Exchange.length_flatten_rows hcells,List.length_map,length_positions]
  have hfit : (b * saved.softmax.cols + s) * n + n ≤ saved.softmax.rows * saved.softmax.cols * n := by
    rw [← Nat.succ_mul]
    exact Nat.mul_le_mul_right _ hb1
  have hflat : (DistributedLogprob.backward saved gradOutput).entry b s =
      ((scatterAdd ((positions saved.softmax.rows saved.softmax.cols).map cells).flatten
        (((positions saved.softmax.rows saved.softmax.cols).filter keep).map index)
        (((positions saved.softmax.rows saved.softmax.cols).filter keep).map fun p =>
          gradOutput.entry p.1 p.2)).drop ((b * saved.softmax.cols + s) * n)).take n := by
    simp only [DistributedLogprob.backward,hV,Grid.flatten,hmr,hmc,htr,htc,hgr,hgc,
      ← map_fst_positions,← map_snd_positions,List.map_map,List.zipWith_map,List.zipWith_self,
      maskedSelect_map]
    rfl
  rw [hflat,take_drop_eq_map _ 0 (by rw [length_scatterAdd,hlength]; exact hfit)]
  refine List.map_congr_left fun v hv => ?_
  have hv := List.mem_range.mp hv
  rw [getD_scatterAdd _ _ _ (by rw [hlength]; omega),Exchange.getD_flatten_rows hcells 0 hv]
  congr 1
  · have hcell := view_map hb hs cells []
    show ((view saved.softmax.rows saved.softmax.cols [] _).entry b s).getD v 0 = _
    rw [hcell]
    show ((saved.softmax.entry b s).map fun y => -y * gradOutput.entry b s).getD v 0 = _
    have hlen := hsoftmax b hb s hs
    rw [List.getD_eq_getElem _ _ (by rw [List.length_map,hlen]; exact hv),List.getElem_map,
      List.getD_eq_getElem _ _ (by rw [hlen]; exact hv)]
  · have hindex : index (b,s) = (b * saved.softmax.cols + s) * n + v ↔
        saved.maskedTarget.entry b s = v :=
      (mul_add_inj (hmasked b hb s hs) hv).trans (and_iff_right rfl)
    have hother : ∀ p ∈ (positions saved.softmax.rows saved.softmax.cols).filter keep, p ≠ (b,s) →
        (if index p = (b * saved.softmax.cols + s) * n + v then gradOutput.entry p.1 p.2 else 0) = 0 := by
      intro p hp hne
      obtain ⟨hp1,hp2⟩ := mem_positions.mp (List.mem_filter.mp hp).1
      refine if_neg fun heq => hne ?_
      obtain ⟨hpos,-⟩ := (mul_add_inj (hmasked _ hp1 _ hp2) hv).mp heq
      obtain ⟨h1,h2⟩ := (mul_add_inj hp2 hs).mp hpos
      exact Prod.ext h1 h2
    cases hmask : saved.targetMask.entry b s with
    | false =>
      have hkeep : (b,s) ∈ (positions saved.softmax.rows saved.softmax.cols).filter keep :=
        List.mem_filter.mpr ⟨mem_positions.mpr ⟨hb,hs⟩,congrArg (! ·) hmask⟩
      rw [sum_single ((nodup_positions _ _).filter _) hkeep hother]
      simp only [hindex,true_and]
    | true =>
      refine (List.sum_eq_zero fun x hx => ?_).trans (if_neg (by simp)).symm
      obtain ⟨p,hp,rfl⟩ := List.mem_map.mp hx
      refine hother p hp fun heq => ?_
      have hkeep : (!saved.targetMask.entry p.1 p.2) = true := (List.mem_filter.mp hp).2
      rw [heq,hmask] at hkeep
      cases hkeep

section Gradient

variable {r t : ℕ} (hlength : row.length = tp * vLocal) (hr : r < tp)

omit [LinearOrder K] [IsStrictOrderedRing K] in
theorem part_eq_map {row : List K} (hlength : row.length = tp * vLocal) (hr : r < tp) :
    part vLocal r row = (List.range vLocal).map fun j => row.getD (r * vLocal + j) 0 := by
  have hle : (r + 1) * vLocal ≤ tp * vLocal := Nat.mul_le_mul_right _ hr
  rw [Nat.succ_mul] at hle
  exact take_drop_eq_map row 0 (by omega)

include hlength hr

/-- The part of the softmax that a rank holds. -/
theorem softmax_entry {x : ℕ → Grid (List K)} {b s : ℕ} (hne : row ≠ [])
    (hx : ∀ r < tp, (x r).entry b s = part vLocal r row) :
    ((computeDistributedLogSoftmax e tp x r).map fun row => row.map e.exp).entry b s =
      (List.range vLocal).map fun j => e.exp (row.getD (r * vLocal + j) 0) / e.total row := by
  show ((computeDistributedLogSoftmax e tp x r).entry b s).map e.exp = _
  rw [logSoftmax_entry hlength hne hx hr,part_eq_map hlength hr,List.map_map,List.map_map]
  refine List.map_congr_left fun j _ => ?_
  exact e.exp_sub_log _ (e.total_pos hne)

omit [IsStrictOrderedRing K] in
/-- The part of the gradient that a rank holds. -/
theorem part_gradOn (t : ℕ) (g : K) :
    part vLocal r (gradOn e row (List.range row.length) t g) = (List.range vLocal).map fun j =>
      ((if r * vLocal + j = t then 1 else 0) -
        e.exp (row.getD (r * vLocal + j) 0) / e.total row) * g := by
  have hle : (r + 1) * vLocal ≤ tp * vLocal := Nat.mul_le_mul_right _ hr
  rw [Nat.succ_mul] at hle
  rw [gradOn,hlength,part_range hr]
  refine List.map_congr_left fun j hj => ?_
  have hj := List.mem_range.mp hj
  rw [gradAt,if_pos (List.mem_range.mpr (by omega)),← hlength,massOf_range]

omit [Field K] [LinearOrder K] [IsStrictOrderedRing K] hlength hr in
theorem chosen_iff (r t : ℕ) {j : ℕ} (hj : j < vLocal) :
    (decide (t < r * vLocal ∨ (r + 1) * vLocal ≤ t) = false ∧
      (if decide (t < r * vLocal ∨ (r + 1) * vLocal ≤ t) = true then 0 else t - r * vLocal) = j) ↔
      r * vLocal + j = t := by
  have hstep : (r + 1) * vLocal = r * vLocal + vLocal := Nat.succ_mul r vLocal
  by_cases h : t < r * vLocal ∨ (r + 1) * vLocal ≤ t
  · simp only [decide_eq_true h,Bool.true_eq_false,false_and,false_iff]
    omega
  · simp only [decide_eq_false h,Bool.false_eq_true,if_false,true_and]
    omega

omit [LinearOrder K] [IsStrictOrderedRing K] hlength hr in
theorem chosen_eq (r t : ℕ) {j : ℕ} (hj : j < vLocal) :
    (if decide (t < r * vLocal ∨ (r + 1) * vLocal ≤ t) = true then (0 : K) else 1) *
      (if j = (if decide (t < r * vLocal ∨ (r + 1) * vLocal ≤ t) = true then 0
        else t - r * vLocal) then 1 else 0) = if r * vLocal + j = t then 1 else 0 := by
  rw [← if_congr (chosen_iff r t hj) rfl rfl]
  cases decide (t < r * vLocal ∨ (r + 1) * vLocal ≤ t)
  · simp [eq_comm]
  · simp

end Gradient

section DenseGradient

variable {L : Logits K} {b s r : ℕ} (hb : b < L.B) (hs : s < L.S) (hr : r < L.tp)

include hb hs hr

theorem distributedLogprob_gradient (target : ℕ → ℕ → ℕ) (g : ℕ → ℕ → K) :
    (DistributedLogprob.backward ⟨(computeDistributedLogSoftmax e L.tp L.shard r).map fun row =>
        row.map e.exp,targetMask (L.vocabStartIndex r) (L.vocabEndIndex r) (L.grid target),
        maskedTarget (L.vocabStartIndex r) (L.vocabEndIndex r) (L.grid target)⟩
        (L.grid g)).entry b s =
      part L.vLocal r (gradOn e (L.row b s) (List.range (L.row b s).length) (target b s) (g b s)) := by
  have hsoftmax : ∀ b < L.B, ∀ s < L.S, ((computeDistributedLogSoftmax e L.tp L.shard r).map fun row =>
      row.map e.exp).entry b s = (List.range L.vLocal).map fun j =>
        e.exp ((L.row b s).getD (r * L.vLocal + j) 0) / e.total (L.row b s) := fun b hb s hs =>
    softmax_entry (L.length_row b hb s hs) hr (row_ne_nil hb hs) fun _ _ => rfl
  have hbelow : ∀ b s, (maskedTarget (L.vocabStartIndex r) (L.vocabEndIndex r)
      (L.grid target)).entry b s < L.vLocal := by
    intro b s
    have hpos := L.vLocal_pos
    have hstep : (r + 1) * L.vLocal = r * L.vLocal + L.vLocal := Nat.succ_mul r L.vLocal
    show (if decide (target b s < r * L.vLocal ∨ (r + 1) * L.vLocal ≤ target b s) = true then 0
      else target b s - r * L.vLocal) < L.vLocal
    by_cases h : target b s < r * L.vLocal ∨ (r + 1) * L.vLocal ≤ target b s
    · rw [if_pos (decide_eq_true h)]
      exact hpos
    · rw [if_neg (by simp [h])]
      omega
  have hflat := distributedLogprob_backward (n := L.vLocal)
    ⟨(computeDistributedLogSoftmax e L.tp L.shard r).map fun row => row.map e.exp,
      targetMask (L.vocabStartIndex r) (L.vocabEndIndex r) (L.grid target),
      maskedTarget (L.vocabStartIndex r) (L.vocabEndIndex r) (L.grid target)⟩ (L.grid g)
    (fun b hb s hs => by rw [hsoftmax b hb s hs,List.length_map,List.length_range])
    (fun b _ s _ => hbelow b s) ⟨rfl,rfl,rfl,rfl,rfl,rfl⟩ hb hs
  rw [hflat,part_gradOn (L.length_row b hb s hs) hr]
  refine List.map_congr_left fun j hj => ?_
  have hj := List.mem_range.mp hj
  have hvalue : (((computeDistributedLogSoftmax e L.tp L.shard r).map fun y : List K =>
      y.map e.exp).entry b s).getD j 0 =
        e.exp ((L.row b s).getD (r * L.vLocal + j) 0) / e.total (L.row b s) := by
    rw [hsoftmax b hb s hs,Exchange.getD_range_map _ _ hj]
  refine (congrArg₂ (fun y x => -y * g b s + x) hvalue
    (if_congr (chosen_iff r (target b s) hj) rfl rfl)).trans ?_
  show _ + (if r * L.vLocal + j = target b s then g b s else 0) = _
  split_ifs <;> ring

end DenseGradient

end Logprob
end DockyardRL
