import DockyardRL.Lib.TopK
import DockyardRL.Logprob.Dense
import Mathlib

/-! The greatest logits of a vocabulary that is cut over the ranks of a tensor-parallel group.

The greatest logits that a teacher's worker asks for. It takes the size of the whole vocabulary for
that of the part of a rank, so the indices are right as long as the first rank has all that is
selected. -/
namespace DockyardRL
namespace Logprob

section

open Chunks Grid TopK

variable {K : Type}

inductive TopkRaised
  | assertion
  | value (message : String)
  | index
  deriving DecidableEq

/-- Logits of shape `[B,S,V]` whose vocabulary is cut into equal parts. -/
structure ShardedLogits (K : Type) where
  B : ℕ
  S : ℕ
  tp : ℕ
  vLocal : ℕ
  row : ℕ → ℕ → List K
  tp_pos : 0 < tp
  vLocal_pos : 0 < vLocal
  length_row : ∀ b < B, ∀ s < S, (row b s).length = tp * vLocal

namespace ShardedLogits

variable (L : ShardedLogits K)

def vocab : ℕ := L.tp * L.vLocal

def shard (r : ℕ) : Grid (List K) := ⟨L.B,L.S,fun b s => part L.vLocal r (L.row b s)⟩

@[simp] theorem cols_shard (r : ℕ) : (L.shard r).cols = L.S := rfl

end ShardedLogits

variable (topk : List K → ℕ → List (K × ℕ))

def topkRow (tp k kEff : ℕ) (parts : ℕ → List K) (vocabStartIndex : ℕ → ℕ) : List (K × ℕ) :=
  let all := gathered tp vocabStartIndex fun r => topk (parts r) (min k (parts r).length)
  reselect all (topk (all.map Prod.fst) kEff)

def topkChunk (tp k kEff : ℕ) (vocabParallelLogits : ℕ → Grid (List K)) (vocabStartIndex : ℕ → ℕ)
    (rank s0 s1 : ℕ) : Grid (List (K × ℕ)) :=
  let logitsChunk := fun r => (vocabParallelLogits r).slice s0 s1
  ⟨(logitsChunk rank).rows,(logitsChunk rank).cols,fun b s =>
    topkRow topk tp k kEff (fun r => (logitsChunk r).entry b s) vocabStartIndex⟩

/-- `distributed_vocab_topk` on a rank: the values and the global indices. -/
def distributedVocabTopk (tp : ℕ) (vocabParallelLogits : ℕ → Grid (List K)) (k : ℕ)
    (vocabStartIndex vocabEndIndex : ℕ → ℕ) (chunkSize : Option ℕ) (rank : ℕ) :
    Except TopkRaised (Grid (List K) × Grid (List ℕ)) :=
  if ¬vocabStartIndex rank < vocabEndIndex rank then .error .assertion
  else
    let S := (vocabParallelLogits rank).cols
    let vTotal := (vocabParallelLogits rank).lastDim * tp
    let kEff := min k (max 1 vTotal)
    let chunkSize := chunkSize.getD S
    if chunkSize = 0 then .error (.value "range() arg 3 must not be zero")
    else
      let chunks := (List.range (rangeSteps S chunkSize)).map fun c =>
        topkChunk topk tp k kEff vocabParallelLogits vocabStartIndex rank (c * chunkSize)
          (min S ((c + 1) * chunkSize))
      match cat chunks with
      | none => .error .index
      | some out => .ok (out.map (List.map Prod.fst),out.map (List.map Prod.snd))

section Rows

variable {topk} {L : ShardedLogits K} {k : ℕ} {chunkSize : Option ℕ}

def selectedRow (topk : List K → ℕ → List (K × ℕ)) (L : ShardedLogits K) (k stride b s : ℕ) :
    List (K × ℕ) :=
  topkRow topk L.tp k (min k L.vocab) (fun r => part L.vLocal r (L.row b s)) (· * stride)

theorem lastDim_part (hB : 0 < L.B) (hS : 0 < L.S) {rank : ℕ} (hrank : rank < L.tp) :
    (L.shard rank).lastDim = L.vLocal :=
  length_part (L.length_row 0 hB 0 hS) hrank

theorem kEff_shard {b s rank : ℕ} (hb : b < L.B) (hs : s < L.S) (hrank : rank < L.tp) :
    min k (max 1 ((L.shard rank).lastDim * L.tp)) = min k L.vocab := by
  rw [lastDim_part (Nat.zero_lt_of_lt hb) (Nat.zero_lt_of_lt hs) hrank,Nat.mul_comm]
  exact congrArg _ (Nat.max_eq_right (Nat.mul_pos L.tp_pos L.vLocal_pos))

theorem distributedVocabTopk_ok (hS : 0 < L.S) (hchunk : 0 < chunkSize.getD L.S) {stride : ℕ}
    {stop : ℕ → ℕ} {rank : ℕ} (hrank : rank < L.tp) (hstop : rank * stride < stop rank) :
    ∃ vals idx, distributedVocabTopk topk L.tp L.shard k (· * stride) stop chunkSize rank =
        .ok (vals,idx) ∧ vals.rows = L.B ∧ vals.cols = L.S ∧ idx.rows = L.B ∧ idx.cols = L.S ∧
      ∀ b < L.B, ∀ s < L.S, vals.entry b s = (selectedRow topk L k stride b s).map Prod.fst ∧
        idx.entry b s = (selectedRow topk L k stride b s).map Prod.snd := by
  let chunk := fun c => topkChunk topk L.tp k (min k (max 1 ((L.shard rank).lastDim * L.tp))) L.shard
    (· * stride) rank (c * chunkSize.getD L.S) (min L.S ((c + 1) * chunkSize.getD L.S))
  have hcols : ∀ c, (chunk c).cols = min L.S ((c + 1) * chunkSize.getD L.S) - c * chunkSize.getD L.S :=
    fun c => congrArg (· - c * chunkSize.getD L.S) (Nat.min_eq_left (min_le_left _ _))
  have hentry : ∀ c, ∀ b < L.B, ∀ s, c * chunkSize.getD L.S + s < L.S →
      (chunk c).entry b s = selectedRow topk L k stride b (c * chunkSize.getD L.S + s) := by
    intro c b hb s hs
    rw [selectedRow,← kEff_shard hb hs hrank]
    rfl
  obtain ⟨out,hcat,hrows,hcols,hout⟩ :=
    cat_chunks hS hchunk chunk (selectedRow topk L k stride) (fun _ => rfl) hcols hentry
  have hok : distributedVocabTopk topk L.tp L.shard k (· * stride) stop chunkSize rank =
      .ok (out.map (List.map Prod.fst),out.map (List.map Prod.snd)) := by
    rw [distributedVocabTopk,if_neg (not_not.mpr hstop)]
    dsimp only [ShardedLogits.cols_shard]
    rw [if_neg hchunk.ne',hcat]
  exact ⟨_,_,hok,hrows,hcols,hrows,hcols,fun b hb s hs =>
    ⟨congrArg _ (hout b hb s hs),congrArg _ (hout b hb s hs)⟩⟩

/-- Without a step or without a position there is nothing to return. -/
theorem distributedVocabTopk_empty (h : ¬(0 < L.S ∧ 0 < chunkSize.getD L.S)) (start stop : ℕ → ℕ)
    (rank : ℕ) (result : Grid (List K) × Grid (List ℕ)) :
    distributedVocabTopk topk L.tp L.shard k start stop chunkSize rank ≠ .ok result := by
  intro hok
  rw [distributedVocabTopk] at hok
  dsimp only [ShardedLogits.cols_shard] at hok
  split_ifs at hok with hassert hzero
  have hpos := Nat.pos_of_ne_zero hzero
  have hS : L.S = 0 := Nat.eq_zero_of_not_pos fun hS => h ⟨hS,hpos⟩
  have hsteps : rangeSteps L.S (chunkSize.getD L.S) = 0 := by rw [hS,rangeSteps_zero (hS ▸ hpos)]
  rw [hsteps] at hok
  cases hok

end Rows

section Dense

variable [LinearOrder K]

/-- The ranks return the greatest logits of every row, in descending order, with their positions. -/
def IsDenseTopk (L : ShardedLogits K) (k : ℕ)
    (result : ℕ → Except TopkRaised (Grid (List K) × Grid (List ℕ))) : Prop :=
  ∃ sel : ℕ → ℕ → List (K × ℕ), ∀ rank < L.tp, ∃ vals idx, result rank = .ok (vals,idx) ∧
    vals.rows = L.B ∧ vals.cols = L.S ∧ idx.rows = L.B ∧ idx.cols = L.S ∧
    ∀ b < L.B, ∀ s < L.S, vals.entry b s = (sel b s).map Prod.fst ∧
      idx.entry b s = (sel b s).map Prod.snd ∧ Selection (L.row b s) (min k L.vocab) (sel b s)

variable {topk : List K → ℕ → List (K × ℕ)} {L : ShardedLogits K} {k : ℕ} {chunkSize : Option ℕ}

theorem selection_part (htopk : IsTopk topk) {b s : ℕ} (hb : b < L.B) (hs : s < L.S) :
    ∀ r < L.tp, Selection (part L.vLocal r (L.row b s)) (min k L.vLocal)
      (topk (part L.vLocal r (L.row b s)) (min k (part L.vLocal r (L.row b s)).length)) := by
  intro r hr
  have hlength := length_part (L.length_row b hb s hs) hr
  rw [hlength]
  exact htopk _ _ (by rw [hlength]; exact min_le_right _ _)

theorem selection_candidates (htopk : IsTopk topk) {b s : ℕ} (hb : b < L.B) (hs : s < L.S)
    (start : ℕ → ℕ) :
    let all := gathered L.tp start fun r =>
      topk (part L.vLocal r (L.row b s)) (min k (part L.vLocal r (L.row b s)).length)
    Selection (all.map Prod.fst) (min k L.vocab) (topk (all.map Prod.fst) (min k L.vocab)) := by
  intro all
  refine htopk _ _ ?_
  rw [List.length_map,length_gathered fun r hr => (selection_part htopk hb hs r hr).length_eq,
    ShardedLogits.vocab]
  rcases Nat.le_total k L.vLocal with hle | hle
  · rw [Nat.min_eq_left hle]
    exact (min_le_left _ _).trans (Nat.le_mul_of_pos_left k L.tp_pos)
  · rw [Nat.min_eq_right hle]
    exact min_le_right _ _

theorem selectedRow_dense (htopk : IsTopk topk) {b s : ℕ} (hb : b < L.B) (hs : s < L.S) :
    Selection (L.row b s) (min k L.vocab) (selectedRow topk L k L.vLocal b s) :=
  Selection.merge (L.length_row b hb s hs) (selection_part htopk hb hs)
    (selection_candidates htopk hb hs _)

/-- `distributed_vocab_topk` is the dense selection. -/
theorem distributedVocabTopk_dense (htopk : IsTopk topk) (hS : 0 < L.S)
    (hchunk : 0 < chunkSize.getD L.S) :
    IsDenseTopk L k (distributedVocabTopk topk L.tp L.shard k (· * L.vLocal)
      (fun r => (r + 1) * L.vLocal) chunkSize) := by
  refine ⟨selectedRow topk L k L.vLocal,fun rank hrank => ?_⟩
  have hstop : rank * L.vLocal < (rank + 1) * L.vLocal :=
    Nat.mul_lt_mul_of_pos_right (Nat.lt_succ_self rank) L.vLocal_pos
  obtain ⟨vals,idx,hok,hvr,hvc,hir,hic,hentry⟩ :=
    @distributedVocabTopk_ok K topk L k chunkSize hS hchunk _ (fun r => (r + 1) * L.vLocal) _ hrank hstop
  exact ⟨vals,idx,hok,hvr,hvc,hir,hic,fun b hb s hs =>
    ⟨(hentry b hb s hs).1,(hentry b hb s hs).2,selectedRow_dense htopk hb hs⟩⟩

end Dense

end

open Grid TopK

variable {K : Type}

/-- The call in `get_topk_logits` for a `DTensor`, whose shape is that of the whole tensor. -/
def getTopkLogits (topk : List K → ℕ → List (K × ℕ)) (L : ShardedLogits K) (k : ℕ)
    (chunkSize : Option ℕ) (rank : ℕ) : Except TopkRaised (Grid (List K) × Grid (List ℕ)) :=
  let vocabSize := L.vocab
  let vocabStartIndex := fun tpRank => tpRank * vocabSize
  distributedVocabTopk topk L.tp L.shard k vocabStartIndex
    (fun tpRank => vocabStartIndex tpRank + vocabSize) chunkSize rank

variable [LinearOrder K]

/-- The first rank has logits enough above all those of the other ranks. -/
def FirstShardDominates (L : ShardedLogits K) (k b s : ℕ) : Prop :=
  ∀ v x, L.vLocal ≤ v → (L.row b s)[v]? = some x →
    min k L.vocab ≤ (part L.vLocal 0 (L.row b s)).countP fun y => x < y

section Stride

variable {row : List K} {tp w k : ℕ} {loc : ℕ → List (K × ℕ)} {sel : List (K × ℕ)}

theorem selection_stride_iff (hrow : row.length = tp * w)
    (hloc : ∀ r < tp, Selection ((row.drop (r * w)).take w) (min k w) (loc r))
    (hsel : Selection ((gathered tp (· * (tp * w)) loc).map Prod.fst) (min k (tp * w)) sel) :
    Selection row (min k (tp * w)) (reselect (gathered tp (· * (tp * w)) loc) sel) ↔
      ∀ p ∈ sel, ∀ t, (tagged tp loc)[p.2]? = some t → t.1 = 0 := by
  constructor
  · intro h p hp t ht
    obtain ⟨r,q,htag,hid⟩ := exists_tagged (hsel.get p hp)
    obtain rfl : t = (r,(p.1,q)) := Option.some.inj (ht.symm.trans htag)
    have hmem : (p.1,q + r * (tp * w)) ∈ reselect (gathered tp (· * (tp * w)) loc) sel :=
      List.mem_map.mpr ⟨p,hp,hid _⟩
    have hlt := (List.getElem?_eq_some_iff.mp (h.get _ hmem)).1
    rw [hrow] at hlt
    refine Nat.eq_zero_of_not_pos fun hr => ?_
    have hle : 1 * (tp * w) ≤ r * (tp * w) := Nat.mul_le_mul_right _ hr
    dsimp only at hlt
    omega
  · intro h
    have hsame : reselect (gathered tp (· * (tp * w)) loc) sel = reselect (gathered tp (· * w) loc) sel := by
      refine List.map_congr_left fun p hp => ?_
      obtain ⟨r,q,htag,hid⟩ := exists_tagged (hsel.get p hp)
      obtain rfl : r = 0 := h p hp _ htag
      rw [hid,hid,Nat.zero_mul,Nat.zero_mul]
    rw [hsame]
    rw [fst_gathered _ (· * w)] at hsel
    exact Selection.merge hrow hloc hsel

theorem first_of_dominates (htp : 0 < tp)
    (hloc : ∀ r < tp, Selection ((row.drop (r * w)).take w) (min k w) (loc r))
    (hsel : Selection ((gathered tp (· * w) loc).map Prod.fst) (min k (tp * w)) sel)
    (hdom : ∀ v x, w ≤ v → row[v]? = some x →
      min k (tp * w) ≤ ((row.drop (0 * w)).take w).countP fun y => x < y) :
    ∀ p ∈ sel, ∀ t, (tagged tp loc)[p.2]? = some t → t.1 = 0 := by
  intro p hp t ht
  obtain ⟨r,q,htag,hid⟩ := exists_tagged (hsel.get p hp)
  obtain rfl : t = (r,(p.1,q)) := Option.some.inj (ht.symm.trans htag)
  refine Nat.eq_zero_of_not_pos fun hr => ?_
  have hcand := reselect_get (hsel.get p hp)
  rw [hid] at hcand
  have hvalue := get_gathered hloc _ (List.mem_of_getElem? hcand)
  have hle : 1 * w ≤ r * w := Nat.mul_le_mul_right _ hr
  have hcount := hdom _ _ (by dsimp only; omega) hvalue
  have hshort : ((row.drop (0 * w)).take w).countP (fun y => p.1 < y) ≤ w :=
    List.countP_le_length.trans (List.length_take_le _ _)
  have hmin : min k (tp * w) ≤ min k w := le_min (min_le_left _ _) (hcount.trans hshort)
  have hall : (loc 0).countP (fun e => p.1 < e.1) = min k w := by
    have hwidth : min k w ≤ min k (tp * w) := min_le_min_left k (Nat.le_mul_of_pos_left w htp)
    rw [List.countP_eq_length.mpr fun e he =>
      decide_eq_true ((hloc 0 htp).lt_of_le_countP (hwidth.trans hcount) he),(hloc 0 htp).length_eq]
  have hgathered := @countP_loc_le K tp loc (· * w) 0 htp (fun y => p.1 < y) _
  exact absurd (hsel.countP_lt hp) (not_lt.mpr (hmin.trans (hall.symm.le.trans hgathered)))

theorem exists_first_other {x : K} {r₀ : ℕ} (hr₀ : 0 < r₀) (htp : r₀ < tp) {p₀ : K × ℕ} (hp₀ : p₀ ∈ loc r₀)
    (hx : x ≤ p₀.1) : ∃ r y q i, (tagged tp loc)[i]? = some (r,(y,q)) ∧ 0 < r ∧ x ≤ y ∧
      ∀ r' y' q' j, (tagged tp loc)[j]? = some (r',(y',q')) → 0 < r' → lastKey (y,i) ≤ lastKey (y',j) := by
  obtain ⟨j₀,hj₀⟩ := List.mem_iff_getElem?.mp (mem_tagged.mpr
    (show (r₀,p₀).1 < tp ∧ (r₀,p₀).2 ∈ loc (r₀,p₀).1 from ⟨htp,hp₀⟩))
  have hothers : ∀ e, e ∈ ((tagged tp loc).zipIdx.filter fun e => 0 < e.1.1).toFinset ↔
      (tagged tp loc)[e.2]? = some e.1 ∧ 0 < e.1.1 := by
    simp [List.mem_zipIdx_iff_getElem?]
  obtain ⟨⟨⟨r,y,q⟩,i⟩,hmem,hmin⟩ := ((tagged tp loc).zipIdx.filter fun e => 0 < e.1.1).toFinset.exists_min_image
    (fun e => lastKey (e.1.2.1,e.2)) ⟨((r₀,p₀),j₀),(hothers _).mpr ⟨hj₀,hr₀⟩⟩
  obtain ⟨hget,hr⟩ := (hothers _).mp hmem
  refine ⟨r,y,q,i,hget,hr,?_,fun r' y' q' j hj hr' => hmin ((r',(y',q')),j) ((hothers _).mpr ⟨hj,hr'⟩)⟩
  by_contra hlt
  refine absurd (hmin ((r₀,p₀),j₀) ((hothers _).mpr ⟨hj₀,hr₀⟩)) (not_le.mpr ?_)
  exact lastKey_lt_iff.mpr (.inl ((not_le.mp hlt).trans_le hx))

theorem exists_other_of_not_dominates (hrow : row.length = tp * w)
    (hloc : ∀ r < tp, Selection ((row.drop (r * w)).take w) (min k w) (loc r)) (start : ℕ → ℕ)
    {v : ℕ} {x : K} (hv : w ≤ v) (hx : row[v]? = some x)
    (hcount : ((row.drop (0 * w)).take w).countP (fun y => x < y) < min k (tp * w)) :
    ∃ p ∈ topkLast ((gathered tp start loc).map Prod.fst) (min k (tp * w)),
      ∃ t, (tagged tp loc)[p.2]? = some t ∧ 0 < t.1 := by
  have hlt : v < tp * w := hrow ▸ (List.getElem?_eq_some_iff.mp hx).1
  have hw : 0 < w := Nat.pos_of_ne_zero fun hzero => by simp [hzero] at hlt
  have hr₀ : v / w < tp := Nat.div_lt_of_lt_mul (by rwa [Nat.mul_comm])
  have hpart : x ∈ (row.drop (v / w * w)).take w := by
    refine List.mem_of_getElem? (i := v % w) ?_
    rw [List.getElem?_take_of_lt (Nat.mod_lt v hw),List.getElem?_drop,Nat.mul_comm,Nat.div_add_mod,hx]
  have hk : 0 < k := (Nat.zero_le _).trans_lt (hcount.trans_le (min_le_left _ _))
  obtain ⟨p₀,hp₀,hle₀⟩ := (hloc _ hr₀).exists_greatest (Nat.lt_min.mpr ⟨hk,hw⟩) hpart
  obtain ⟨r,y,q,i,hget,hr,hxy,hfirst⟩ := exists_first_other (Nat.div_pos hv hw) hr₀ hp₀ hle₀
  have hvalues : (gathered tp start loc).map Prod.fst = (tagged tp loc).map fun t => t.2.1 := by
    rw [gathered_eq_tagged,List.map_map]
    rfl
  refine ⟨(y,i),mem_topkLast.mpr ⟨?_,?_⟩,_,hget,hr⟩
  · rw [hvalues,List.getElem?_map,hget]
    rfl
  · have hbefore : ∀ e ∈ (tagged tp loc).zipIdx, lastKey (e.1.2.1,e.2) < lastKey (y,i) →
        e.1.1 = 0 ∧ y < e.1.2.1 := by
      rintro ⟨⟨r',y',q'⟩,j⟩ he hkey
      have hj := List.mem_zipIdx_iff_getElem?.mp he
      have hzero : r' = 0 := Nat.eq_zero_of_not_pos fun hpos =>
        absurd hkey (not_lt.mpr (hfirst r' y' q' j hj hpos))
      refine ⟨hzero,?_⟩
      rcases lastKey_lt_iff.mp hkey with hgreater | ⟨-,hafter⟩
      · exact hgreater
      · have hordered := List.pairwise_iff_getElem.mp (@pairwise_tagged K tp loc) i j
          (List.getElem?_eq_some_iff.mp hget).1 (List.getElem?_eq_some_iff.mp hj).1 hafter
        rw [(List.getElem?_eq_some_iff.mp hget).2,(List.getElem?_eq_some_iff.mp hj).2] at hordered
        exact absurd hordered (by dsimp only; omega)
    calc ((gathered tp start loc).map Prod.fst).zipIdx.countP (fun b => lastKey b < lastKey (y,i))
        = (tagged tp loc).zipIdx.countP (fun e => lastKey (e.1.2.1,e.2) < lastKey (y,i)) := by
          rw [hvalues,List.zipIdx_map,List.countP_map]
          rfl
      _ ≤ (tagged tp loc).zipIdx.countP (fun e => e.1.1 = 0 ∧ y < e.1.2.1) :=
          List.countP_mono_left fun e he hkey =>
            decide_eq_true (hbefore e he (of_decide_eq_true hkey))
      _ = (tagged tp loc).countP (fun t => t.1 = 0 ∧ y < t.2.1) := by
          conv_rhs => rw [← List.zipIdx_map_fst 0 (tagged tp loc),List.countP_map]
          rfl
      _ = (loc 0).countP (fun p => y < p.1) :=
          countP_tagged_first (Nat.zero_lt_of_lt hr₀) fun z => y < z
      _ ≤ ((row.drop (0 * w)).take w).countP (fun z => y < z) :=
          (hloc 0 (Nat.zero_lt_of_lt hr₀)).countP_le fun z => y < z
      _ ≤ ((row.drop (0 * w)).take w).countP (fun z => x < z) :=
          List.countP_mono_left fun z _ hz =>
            decide_eq_true (hxy.trans_lt (of_decide_eq_true hz))
      _ < min k (tp * w) := hcount

end Stride

section Teacher

variable {topk : List K → ℕ → List (K × ℕ)} {L : ShardedLogits K} {k : ℕ} {chunkSize : Option ℕ}

omit [LinearOrder K] in
theorem vocab_pos : 0 < L.vocab := Nat.mul_pos L.tp_pos L.vLocal_pos

omit [LinearOrder K] in
theorem getTopkLogits_ok (hS : 0 < L.S) (hchunk : 0 < chunkSize.getD L.S) {rank : ℕ}
    (hrank : rank < L.tp) :
    ∃ vals idx, getTopkLogits topk L k chunkSize rank = .ok (vals,idx) ∧ vals.rows = L.B ∧
      vals.cols = L.S ∧ idx.rows = L.B ∧ idx.cols = L.S ∧
      ∀ b < L.B, ∀ s < L.S, vals.entry b s = (selectedRow topk L k L.vocab b s).map Prod.fst ∧
        idx.entry b s = (selectedRow topk L k L.vocab b s).map Prod.snd := by
  have hstop : rank * L.vocab < (fun r => r * L.vocab + L.vocab) rank :=
    Nat.lt_add_of_pos_right vocab_pos
  exact @distributedVocabTopk_ok K topk L k chunkSize hS hchunk L.vocab
    (fun r => r * L.vocab + L.vocab) rank hrank hstop

theorem isDenseTopk_iff : IsDenseTopk L k (getTopkLogits topk L k chunkSize) ↔
    (0 < L.S ∧ 0 < chunkSize.getD L.S) ∧ ∀ b < L.B, ∀ s < L.S,
      Selection (L.row b s) (min k L.vocab) (selectedRow topk L k L.vocab b s) := by
  constructor
  · rintro ⟨sel,hranks⟩
    obtain ⟨vals,idx,hok,-,-,-,-,hentry⟩ := hranks 0 L.tp_pos
    have haccepted : 0 < L.S ∧ 0 < chunkSize.getD L.S := by
      by_contra hempty
      exact distributedVocabTopk_empty hempty (· * L.vocab) (fun r => r * L.vocab + L.vocab) 0 _ hok
    refine ⟨haccepted,fun b hb s hs => ?_⟩
    obtain ⟨vals',idx',hok',-,-,-,-,hentry'⟩ :=
      @getTopkLogits_ok K topk L k chunkSize haccepted.1 haccepted.2 0 L.tp_pos
    rw [hok'] at hok
    obtain ⟨rfl,rfl⟩ := Prod.mk.inj (Except.ok.inj hok)
    obtain ⟨hfst,hsnd,hsel⟩ := hentry b hb s hs
    obtain ⟨hfst',hsnd'⟩ := hentry' b hb s hs
    have hsame : selectedRow topk L k L.vocab b s = sel b s :=
      (List.zip_of_prod hfst'.symm hsnd'.symm).trans (List.zip_of_prod hfst.symm hsnd.symm).symm
    rwa [hsame]
  · rintro ⟨⟨hS,hchunk⟩,hsel⟩
    refine ⟨selectedRow topk L k L.vocab,fun rank hrank => ?_⟩
    obtain ⟨vals,idx,hok,hvr,hvc,hir,hic,hentry⟩ :=
      @getTopkLogits_ok K topk L k chunkSize hS hchunk rank hrank
    exact ⟨vals,idx,hok,hvr,hvc,hir,hic,fun b hb s hs =>
      ⟨(hentry b hb s hs).1,(hentry b hb s hs).2,hsel b hb s hs⟩⟩

theorem selectedRow_iff (htopk : IsTopk topk) {b s : ℕ} (hb : b < L.B) (hs : s < L.S) :
    let loc := fun r => topk (part L.vLocal r (L.row b s)) (min k (part L.vLocal r (L.row b s)).length)
    Selection (L.row b s) (min k L.vocab) (selectedRow topk L k L.vocab b s) ↔
      ∀ p ∈ topk ((gathered L.tp (· * L.vocab) loc).map Prod.fst) (min k L.vocab),
        ∀ t, (tagged L.tp loc)[p.2]? = some t → t.1 = 0 :=
  selection_stride_iff (L.length_row b hb s hs) (selection_part htopk hb hs)
    (selection_candidates htopk hb hs _)

/-- The teacher's call is the dense selection, however equal logits are chosen, exactly where there is
one rank or where the first one dominates at every position. -/
theorem getTopkLogits_dense_iff (L : ShardedLogits K) (k : ℕ) (chunkSize : Option ℕ) :
    (∀ topk, IsTopk topk → IsDenseTopk L k (getTopkLogits topk L k chunkSize)) ↔
      (0 < L.S ∧ 0 < chunkSize.getD L.S) ∧
        (L.tp = 1 ∨ ∀ b < L.B, ∀ s < L.S, FirstShardDominates L k b s) := by
  constructor
  · intro h
    obtain ⟨haccepted,hsel⟩ := isDenseTopk_iff.mp (h topkLast topkLast_isTopk)
    refine ⟨haccepted,or_iff_not_imp_left.mpr fun _ b hb s hs v x hv hx => ?_⟩
    by_contra hcount
    obtain ⟨p,hp,t,ht,hpos⟩ := exists_other_of_not_dominates (L.length_row b hb s hs)
      (selection_part topkLast_isTopk hb hs) (· * L.vocab) hv hx (not_le.mp hcount)
    exact absurd ((selectedRow_iff topkLast_isTopk hb hs).mp (hsel b hb s hs) p hp t ht) hpos.ne'
  · rintro ⟨haccepted,hfirst⟩ topk htopk
    refine isDenseTopk_iff.mpr ⟨haccepted,fun b hb s hs => (selectedRow_iff htopk hb hs).mpr ?_⟩
    rcases hfirst with hone | hdom
    · intro p _ t ht
      have hlt := (mem_tagged.mp (List.mem_of_getElem? ht)).1
      omega
    · have hsel := selection_candidates (k := k) htopk hb hs (· * L.vLocal)
      dsimp only at hsel
      rw [fst_gathered _ (· * L.vocab)] at hsel
      refine first_of_dominates L.tp_pos (selection_part htopk hb hs) ?_ (hdom b hb s hs)
      rw [fst_gathered _ (· * L.vocab)]
      exact hsel

end Teacher

/-- One position with the logits `0` and `1`, each on a rank of its own. -/
def twoShards : ShardedLogits ℚ where
  B := 1
  S := 1
  tp := 2
  vLocal := 1
  row := fun _ _ => [0,1]
  tp_pos := Nat.two_pos
  vLocal_pos := Nat.one_pos
  length_row := fun _ _ _ _ => rfl

/-- The greatest logit has the index one, and the ranks return two. -/
theorem twoShards_not_dense : IsTopk (topkLast : List ℚ → ℕ → List (ℚ × ℕ)) ∧
    (∃ vals idx, getTopkLogits topkLast twoShards 1 none 0 = .ok (vals,idx) ∧
      vals.entry 0 0 = [1] ∧ idx.entry 0 0 = [2]) ∧
    ¬IsDenseTopk twoShards 1 (getTopkLogits topkLast twoShards 1 none) := by
  have hrow : selectedRow topkLast twoShards 1 twoShards.vocab 0 0 = [(1,2)] := by decide +kernel
  refine ⟨topkLast_isTopk,?_,fun h => ?_⟩
  · obtain ⟨vals,idx,hok,-,-,-,-,hentry⟩ :=
      @getTopkLogits_ok ℚ topkLast twoShards 1 none (by decide) (by decide) 0 (by decide)
    obtain ⟨hvals,hidx⟩ := hentry 0 (by decide) 0 (by decide)
    rw [hrow] at hvals hidx
    exact ⟨vals,idx,hok,hvals,hidx⟩
  · have hsel := (isDenseTopk_iff.mp h).2 0 (by decide) 0 (by decide)
    rw [hrow] at hsel
    exact absurd (hsel.get (1,2) List.mem_cons_self) (by decide)

end Logprob
end DockyardRL
