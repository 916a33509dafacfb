import DockyardRL.Lib.Gather
import DockyardRL.Lib.Reductions
import Mathlib.Data.List.Dedup
import Mathlib.Data.List.Sort

/-! `calculate_baseline_and_std_per_prompt`: baselines and standard deviations of the rewards,
prompt by prompt, over all rows of a prompt or over all but the row itself. -/
namespace DockyardRL
namespace Grpo

open Gather Variance

/-- A number, or one of the values that floating-point division makes of a division by zero. -/
inductive Extended (K : Type*)
  | num (x : K)
  | posInf
  | negInf
  | nan

/-- The library's square root and power, and the number that stands for infinity in
`nan_to_num`. -/
structure Arithmetic (K : Type*) where
  sqrt : K → K
  power : K → K → K
  largest : K

variable {P K : Type*} [Field K] [LinearOrder K]

namespace Extended

/-- `a / b`. -/
def divide (a b : K) : Extended K :=
  if b ≠ 0 then .num (a / b) else if 0 < a then .posInf else if a < 0 then .negInf else .nan

/-- `x * y` for a number `x`. -/
def times (x : K) : Extended K → Extended K
  | .num y => .num (x * y)
  | .posInf => if 0 < x then .posInf else if x < 0 then .negInf else .nan
  | .negInf => if 0 < x then .negInf else if x < 0 then .posInf else .nan
  | .nan => .nan

/-- `y.sqrt()`. -/
def sqrt (A : Arithmetic K) : Extended K → Extended K
  | .num y => if y < 0 then .nan else .num (A.sqrt y)
  | .posInf => .posInf
  | .negInf => .nan
  | .nan => .nan

/-- `y.nan_to_num(0)`. -/
def nanToNum (A : Arithmetic K) : Extended K → K
  | .num y => y
  | .posInf => A.largest
  | .negInf => -A.largest
  | .nan => 0

end Extended

/-- An entry of `1 - torch.eye(n)` or of `torch.ones((n, n))`. -/
def maskEntry (leaveOneOut : Bool) (i j : ℕ) : K := if leaveOneOut ∧ i = j then 0 else 1

/-- `torch.matmul(baseline_mask_matrix, v)`. -/
def matmulMask (leaveOneOut : Bool) (v : List K) : List K :=
  (List.range v.length).map fun i =>
    (v.zipIdx.map fun entry => maskEntry leaveOneOut i entry.2 * entry.1).sum

def maskValue (valid : Bool) : K := if valid then 1 else 0

/-- `values * valid_mask`. -/
def masked (values : List K) (validMask : List Bool) : List K :=
  List.zipWith (fun x valid => x * maskValue valid) values validMask

/-- Baselines and standard deviations of one prompt's rows. -/
def promptBaselineAndStd (A : Arithmetic K) (leaveOneOut : Bool) (rewards : List K)
    (validMask : List Bool) (stdRewards : Option (List K)) : List K × List K :=
  if (validMask.map (maskValue (K := K))).sum ≤ 1 then (rewards,List.replicate rewards.length 0)
  else
    let numValid : K := (validMask.map maskValue).sum - if leaveOneOut then 1 else 0
    let promptBaseline := (matmulMask leaveOneOut (masked rewards validMask)).map (· / numValid)
    let stdPromptBaseline := stdRewards.elim promptBaseline fun stdRewards =>
      (matmulMask leaveOneOut (masked stdRewards validMask)).map (· / numValid)
    let stdPromptBaselineSq := (matmulMask leaveOneOut
      (masked ((stdRewards.getD rewards).map (· ^ 2)) validMask)).map (· / numValid)
    (promptBaseline,List.zipWith (fun sq b =>
      (((Extended.divide numValid (numValid - 1)).times (sq - b ^ 2)).sqrt A).nanToNum A)
      stdPromptBaselineSq stdPromptBaseline)

def matching [DecidableEq P] (prompts : List P) (prompt : P) : List ℕ :=
  (List.range prompts.length).filter fun i => prompts[i]? = some prompt

/-- `torch.unique(prompts, dim=0)`. -/
def unique [LinearOrder P] (prompts : List P) : List P := prompts.dedup.insertionSort (· ≤ ·)

def calculateBaselineAndStdPerPrompt [LinearOrder P] (A : Arithmetic K) (prompts : List P)
    (rewards : List K) (validMask : List Bool) (leaveOneOut : Bool)
    (stdRewards : Option (List K)) : List K × List K :=
  (unique prompts).foldl (fun out prompt =>
    let idx := matching prompts prompt
    let stats := promptBaselineAndStd A leaveOneOut (gather rewards idx) (gather validMask idx)
      (stdRewards.map (gather · idx))
    (scatter out.1 idx stats.1,scatter out.2 idx stats.2))
    (List.replicate rewards.length 0,List.replicate rewards.length 0)

theorem mem_unique [LinearOrder P] {prompts : List P} {p : P} :
    p ∈ unique prompts ↔ p ∈ prompts := by
  rw [unique,List.mem_insertionSort,List.mem_dedup]

theorem nodup_unique [LinearOrder P] (prompts : List P) : (unique prompts).Nodup :=
  (List.perm_insertionSort _ _).nodup_iff.mpr prompts.nodup_dedup

section Matching

variable [DecidableEq P] {prompts : List P}

theorem mem_matching {p : P} {i : ℕ} : i ∈ matching prompts p ↔ prompts[i]? = some p := by
  rw [matching,List.mem_filter,List.mem_range,decide_eq_true_eq,and_iff_right_iff_imp]
  intro hi
  exact (List.getElem?_eq_some_iff.mp hi).1

theorem nodup_matching (p : P) : (matching prompts p).Nodup := List.nodup_range.filter _

theorem within_matching (p : P) : Within (matching prompts p) prompts.length := by
  intro i hi
  exact List.mem_range.mp (List.mem_filter.mp hi).1

/-- The rows read through the indices of a prompt are the rows with that prompt. -/
theorem gather_matching {α : Type*} (key : α → P) (rows : List α) (p : P) :
    gather rows (matching (rows.map key) p) = rows.filter fun row => key row = p := by
  induction rows using List.reverseRecOn with
  | nil => rfl
  | append_singleton rows x ih =>
    have hinit : (List.range rows.length).filter (fun i => ((rows ++ [x]).map key)[i]? = some p) =
        matching (rows.map key) p := by
      rw [matching,List.length_map]
      refine List.filter_congr fun i hi => ?_
      rw [List.map_append,List.getElem?_append_left (by simpa using hi)]
    have hread : gather (rows ++ [x]) (matching (rows.map key) p) =
        gather rows (matching (rows.map key) p) := by
      refine List.filterMap_congr fun i hi => ?_
      have hlt := within_matching p i hi
      rw [List.getElem?_append_left (by simpa using hlt)]
    rw [matching,List.length_map,List.length_append,List.length_singleton,List.range_succ,
      List.filter_append,gather_append,hinit,hread,ih,List.filter_append]
    by_cases hx : key x = p
    · simp [gather,hx]
    · simp [gather,hx]

end Matching

section Sums

omit [LinearOrder K]

def peers (leaveOneOut : Bool) (g : List K) (i : ℕ) : List K :=
  if leaveOneOut then g.eraseIdx i else g

theorem sum_leaveOneOut (v : List K) (i start : ℕ) :
    ((v.zipIdx start).map fun entry => (if i + start = entry.2 then 0 else 1) * entry.1).sum =
      (v.eraseIdx i).sum := by
  induction v generalizing i start with
  | nil => simp
  | cons x v ih =>
    rw [List.zipIdx_cons,List.map_cons,List.sum_cons]
    cases i with
    | zero =>
      have hrest : ((v.zipIdx (start + 1)).map fun entry =>
          (if 0 + start = entry.2 then (0 : K) else 1) * entry.1) = v := by
        refine (List.map_congr_left fun entry hentry => ?_).trans (List.zipIdx_map_fst (start + 1) v)
        have hle := List.le_snd_of_mem_zipIdx hentry
        rw [if_neg (by omega),one_mul]
      rw [hrest,Nat.zero_add,if_pos rfl,zero_mul,zero_add,List.eraseIdx_cons_zero]
    | succ i =>
      have hrest := ih i (start + 1)
      rw [show i + (start + 1) = i + 1 + start by omega] at hrest
      rw [hrest,if_neg (by omega),one_mul,List.eraseIdx_cons_succ,List.sum_cons]

theorem matmulMask_eq (leaveOneOut : Bool) (v : List K) :
    matmulMask leaveOneOut v = (List.range v.length).map fun i => (peers leaveOneOut v i).sum := by
  refine List.map_congr_left fun i _ => ?_
  cases leaveOneOut with
  | false => simp [maskEntry,peers]
  | true =>
    have hsum := sum_leaveOneOut v i 0
    simpa [maskEntry,peers] using hsum

theorem sum_valid (n : ℕ) : ((List.replicate n true).map (maskValue (K := K))).sum = n := by
  simp [maskValue]

theorem masked_valid {values : List K} {n : ℕ} (h : values.length = n) :
    masked values (List.replicate n true) = values := by
  subst h
  induction values with
  | nil => rfl
  | cons x values ih =>
    have hrest : List.zipWith (fun x valid => x * maskValue valid) values
        (List.replicate values.length true) = values := ih
    rw [masked,List.length_cons,List.replicate_succ,List.zipWith_cons_cons,hrest,maskValue,if_pos rfl,
      mul_one]

theorem length_peers {g : List K} {i : ℕ} (leaveOneOut : Bool) (hi : i < g.length) :
    ((peers leaveOneOut g i).length : K) = g.length - if leaveOneOut then 1 else 0 := by
  cases leaveOneOut with
  | false => simp [peers]
  | true =>
    have hlen := List.length_eraseIdx_add_one hi
    rw [peers,if_pos rfl,if_pos rfl,← hlen,Nat.cast_succ,add_sub_cancel_right]

omit [Field K] in
theorem peers_map {f : K → K} (leaveOneOut : Bool) (g : List K) (i : ℕ) :
    peers leaveOneOut (g.map f) i = (peers leaveOneOut g i).map f := by
  cases leaveOneOut with
  | false => rfl
  | true => exact List.eraseIdx_map f g i

theorem means_of_peers (leaveOneOut : Bool) (values : List K) {n : ℕ} (h : values.length = n) :
    (matmulMask leaveOneOut (masked values (List.replicate n true))).map
        (· / ((n : K) - if leaveOneOut then 1 else 0)) =
      (List.range n).map fun i => mean (peers leaveOneOut values i) := by
  subst h
  rw [masked_valid rfl,matmulMask_eq,List.map_map]
  refine List.map_congr_left fun i hi => ?_
  rw [mean,length_peers leaveOneOut (List.mem_range.mp hi)]
  rfl

end Sums

def stdOf (A : Arithmetic K) (l : List K) : K :=
  (((Extended.divide (l.length : K) (l.length - 1)).times (variance l)).sqrt A).nanToNum A

section Valid

variable [IsStrictOrderedRing K] {rewards : List K}

theorem promptBaselineAndStd_valid (A : Arithmetic K) (leaveOneOut : Bool)
    {stdRewards : Option (List K)} (hstd : ∀ s ∈ stdRewards, s.length = rewards.length)
    (htwo : 2 ≤ rewards.length) :
    promptBaselineAndStd A leaveOneOut rewards (List.replicate rewards.length true) stdRewards =
      ((List.range rewards.length).map fun i => mean (peers leaveOneOut rewards i),
        (List.range rewards.length).map fun i =>
          stdOf A (peers leaveOneOut (stdRewards.getD rewards) i)) := by
  have hmany : ¬(rewards.length : K) ≤ 1 := by
    rw [not_le,Nat.one_lt_cast]
    omega
  have hlen : (stdRewards.getD rewards).length = rewards.length := by
    cases stdRewards with
    | none => rfl
    | some s => exact hstd s rfl
  have hsquares := means_of_peers leaveOneOut ((stdRewards.getD rewards).map (· ^ 2))
    (by rw [List.length_map,hlen])
  have hstdMeans := means_of_peers leaveOneOut _ hlen
  have hcase : stdRewards.elim
      ((matmulMask leaveOneOut (masked rewards (List.replicate rewards.length true))).map
        (· / ((rewards.length : K) - if leaveOneOut then 1 else 0)))
      (fun s => (matmulMask leaveOneOut (masked s (List.replicate rewards.length true))).map
        (· / ((rewards.length : K) - if leaveOneOut then 1 else 0))) =
      (List.range rewards.length).map fun i =>
        mean (peers leaveOneOut (stdRewards.getD rewards) i) := by
    rw [← hstdMeans]
    cases stdRewards with
    | none => rfl
    | some s => rfl
  rw [promptBaselineAndStd,sum_valid,if_neg hmany]
  dsimp only
  rw [hcase,hsquares,means_of_peers leaveOneOut rewards rfl,List.zipWith_map,List.zipWith_self]
  refine Prod.ext rfl (List.map_congr_left fun i hi => ?_)
  have hcount := length_peers (g := stdRewards.getD rewards) leaveOneOut
    (i := i) (by rw [hlen]; exact List.mem_range.mp hi)
  rw [hlen] at hcount
  rw [stdOf,variance,hcount,peers_map]

/-- The library's square root tells zero apart. -/
def SqrtZero (A : Arithmetic K) : Prop := ∀ x, 0 ≤ x → (A.sqrt x = 0 ↔ x = 0)

theorem stdOf_eq_zero_iff {A : Arithmetic K} (hA : SqrtZero A) (l : List K) :
    stdOf A l = 0 ↔ AllEqual l := by
  match l with
  | [] =>
    have hzero : variance ([] : List K) = 0 := by simp [variance,mean]
    have hsqrt : stdOf A [] = A.sqrt 0 := by
      simp [stdOf,hzero,Extended.divide,Extended.times,Extended.sqrt,Extended.nanToNum]
    rw [hsqrt]
    exact iff_of_true ((hA 0 le_rfl).mpr rfl) (allEqual_of_length_le_one (by simp))
  | [x] =>
    have hzero : variance [x] = 0 := by simp [variance,mean]
    have hnan : stdOf A [x] = 0 := by
      simp [stdOf,hzero,Extended.divide,Extended.times,Extended.sqrt,Extended.nanToNum]
    exact iff_of_true hnan (allEqual_of_length_le_one (by simp))
  | x :: y :: l =>
    have hne : x :: y :: l ≠ [] := by simp
    have hlong : (1 : K) < (x :: y :: l).length := by
      rw [Nat.one_lt_cast,List.length_cons,List.length_cons]
      omega
    have hless : ((x :: y :: l).length : K) - 1 ≠ 0 := (sub_pos.mpr hlong).ne'
    have hfactor : 0 < ((x :: y :: l).length : K) / ((x :: y :: l).length - 1) :=
      div_pos (zero_lt_one.trans hlong) (sub_pos.mpr hlong)
    have hnonneg := mul_nonneg (variance_nonneg hne) hfactor.le
    have hsqrt : stdOf A (x :: y :: l) = A.sqrt (variance (x :: y :: l) *
        (((x :: y :: l).length : K) / ((x :: y :: l).length - 1))) := by
      rw [stdOf,Extended.divide,if_pos hless,Extended.times,Extended.sqrt,if_neg (not_lt.mpr hnonneg),
        Extended.nanToNum]
    rw [hsqrt,hA _ hnonneg,mul_eq_zero,or_iff_left hfactor.ne',variance_eq_zero_iff hne]

/-- A row's standard deviation vanishes when the rows it is compared with have equal rewards. -/
theorem promptStd_eq_zero_iff {A : Arithmetic K} (hA : SqrtZero A) {leaveOneOut : Bool}
    {stdRewards : Option (List K)} (hstd : ∀ s ∈ stdRewards, s.length = rewards.length) {k : ℕ}
    {x : K} (hx : (promptBaselineAndStd A leaveOneOut rewards (List.replicate rewards.length true)
      stdRewards).2[k]? = some x) :
    x = 0 ↔ AllEqual (peers leaveOneOut (stdRewards.getD rewards) k) := by
  by_cases htwo : 2 ≤ rewards.length
  · rw [promptBaselineAndStd_valid A leaveOneOut hstd htwo,List.getElem?_map,
      Option.map_eq_some_iff] at hx
    obtain ⟨i,hi,rfl⟩ := hx
    obtain ⟨hk,hi⟩ := List.getElem?_eq_some_iff.mp hi
    rw [List.getElem_range] at hi
    rw [hi,stdOf_eq_zero_iff hA]
  · have hfew : (((List.replicate rewards.length true).map (maskValue (K := K))).sum) ≤ 1 := by
      rw [sum_valid]
      exact_mod_cast Nat.le_of_lt_succ (Nat.lt_of_not_le htwo)
    rw [promptBaselineAndStd,if_pos hfew,List.getElem?_replicate] at hx
    have hzero : x = 0 := by
      split at hx
      · exact (Option.some.inj hx).symm
      · cases hx
    have hlen : (stdRewards.getD rewards).length ≤ 1 := by
      have hsame : (stdRewards.getD rewards).length = rewards.length := by
        cases stdRewards with
        | none => rfl
        | some s => exact hstd s rfl
      omega
    have hpeers : (peers leaveOneOut (stdRewards.getD rewards) k).length ≤ 1 := by
      cases leaveOneOut with
      | false => exact hlen
      | true => exact (List.eraseIdx_sublist _ _).length_le.trans hlen
    exact iff_of_true hzero (allEqual_of_length_le_one hpeers)

end Valid

section Lengths

variable (A : Arithmetic K) (leaveOneOut : Bool) {rewards : List K} {validMask : List Bool}
  {stdRewards : Option (List K)}

theorem length_promptBaselineAndStd (hvalid : validMask.length = rewards.length)
    (hstd : ∀ s ∈ stdRewards, s.length = rewards.length) :
    (promptBaselineAndStd A leaveOneOut rewards validMask stdRewards).1.length = rewards.length ∧
      (promptBaselineAndStd A leaveOneOut rewards validMask stdRewards).2.length =
        rewards.length := by
  have hmasked : ∀ values : List K, values.length = rewards.length →
      (matmulMask leaveOneOut (masked values validMask)).length = rewards.length := by
    intro values hvalues
    rw [matmulMask,List.length_map,List.length_range,masked,List.length_zipWith,hvalues,hvalid,
      Nat.min_self]
  rw [promptBaselineAndStd]
  by_cases hfew : (validMask.map (maskValue (K := K))).sum ≤ 1
  · rw [if_pos hfew]
    exact ⟨rfl,List.length_replicate⟩
  · rw [if_neg hfew]
    have hbase := hmasked rewards rfl
    cases stdRewards with
    | none =>
      have hsq := hmasked (rewards.map (· ^ 2)) (by rw [List.length_map])
      simp [hbase,hsq]
    | some s =>
      have hlen := hstd s rfl
      have hsq := hmasked (s.map (· ^ 2)) (by rw [List.length_map,hlen])
      simp [hbase,hmasked s hlen,hsq]

theorem length_calculate [LinearOrder P] {prompts : List P} :
    (calculateBaselineAndStdPerPrompt A prompts rewards validMask leaveOneOut stdRewards).1.length =
        rewards.length ∧
      (calculateBaselineAndStdPerPrompt A prompts rewards validMask leaveOneOut
        stdRewards).2.length = rewards.length := by
  rw [calculateBaselineAndStdPerPrompt]
  induction unique prompts using List.reverseRecOn with
  | nil => simp
  | append_singleton ps p ih =>
    rw [List.foldl_append,List.foldl_cons,List.foldl_nil]
    exact ⟨(length_scatter _ _ _).trans ih.1,(length_scatter _ _ _).trans ih.2⟩

/-- What is written for the rows of a prompt is the statistics of that prompt. -/
theorem gather_calculate [LinearOrder P] {prompts : List P}
    (hrewards : rewards.length = prompts.length) (hvalid : validMask.length = prompts.length)
    (hstd : ∀ s ∈ stdRewards, s.length = prompts.length) {p : P} (hp : p ∈ prompts) :
    (gather (calculateBaselineAndStdPerPrompt A prompts rewards validMask leaveOneOut stdRewards).1
        (matching prompts p),
      gather (calculateBaselineAndStdPerPrompt A prompts rewards validMask leaveOneOut stdRewards).2
        (matching prompts p)) =
      promptBaselineAndStd A leaveOneOut (gather rewards (matching prompts p))
        (gather validMask (matching prompts p))
        (stdRewards.map (gather · (matching prompts p))) := by
  have hgather : ∀ l : List K, l.length = prompts.length → ∀ q,
      (gather l (matching prompts q)).length = (matching prompts q).length :=
    fun l hl q => length_gather (hl ▸ within_matching q)
  have hmask : ∀ q, (gather validMask (matching prompts q)).length = (matching prompts q).length :=
    fun q => length_gather (hvalid ▸ within_matching q)
  have hmasks : ∀ q, (gather validMask (matching prompts q)).length =
      (gather rewards (matching prompts q)).length := fun q => by rw [hmask,hgather _ hrewards]
  have hstds : ∀ q, ∀ s ∈ stdRewards.map (gather · (matching prompts q)),
      s.length = (gather rewards (matching prompts q)).length := by
    intro q s hs
    obtain ⟨t,ht,rfl⟩ := Option.mem_map.mp hs
    rw [hgather _ (hstd t ht),hgather _ hrewards]
  have hlens := fun q => length_promptBaselineAndStd A leaveOneOut (hmasks q) (hstds q)
  have hdisjoint : ∀ q ∈ unique prompts, ∀ r ∈ unique prompts, q ≠ r →
      ∀ i ∈ matching prompts q, i ∉ matching prompts r := by
    intro q _ r _ hne i hq hr
    exact hne (Option.some.inj ((mem_matching.mp hq).symm.trans (mem_matching.mp hr)))
  have hzero : (List.replicate rewards.length (0 : K)).length = prompts.length := by
    rw [List.length_replicate,hrewards]
  have hwrite : ∀ vals : P → List K, (∀ q, (vals q).length = (matching prompts q).length) →
      gather ((unique prompts).foldl (fun out q => scatter out (matching prompts q) (vals q))
        (List.replicate rewards.length 0)) (matching prompts p) = vals p := by
    intro vals hvals
    exact gather_foldl_scatter (nodup_unique prompts) (fun q _ => nodup_matching q)
      (fun q _ => hzero ▸ within_matching q) (fun q _ => (hvals q).symm) hdisjoint
      (mem_unique.mpr hp)
  have hpair := foldl_pair
    (fun out q => scatter out (matching prompts q) (promptBaselineAndStd A leaveOneOut
      (gather rewards (matching prompts q)) (gather validMask (matching prompts q))
      (stdRewards.map (gather · (matching prompts q)))).1)
    (fun out q => scatter out (matching prompts q) (promptBaselineAndStd A leaveOneOut
      (gather rewards (matching prompts q)) (gather validMask (matching prompts q))
      (stdRewards.map (gather · (matching prompts q)))).2)
    (unique prompts) (List.replicate rewards.length 0) (List.replicate rewards.length 0)
  rw [calculateBaselineAndStdPerPrompt,hpair]
  refine Prod.ext (hwrite _ fun q => ?_) (hwrite _ fun q => ?_)
  · rw [(hlens q).1,hgather _ hrewards]
  · rw [(hlens q).2,hgather _ hrewards]

end Lengths

section Baselines

/-- The baseline of a row with reward `r` in a group with rewards `g`, all of them valid. -/
def baselineOf (leaveOneOut : Bool) (g : List K) (r : K) : K :=
  if g.length ≤ 1 then r
  else (g.sum - if leaveOneOut then r else 0) / (g.length - if leaveOneOut then 1 else 0)

omit [LinearOrder K] in
theorem sum_peers (leaveOneOut : Bool) {g : List K} {i : ℕ} (hi : i < g.length) :
    (peers leaveOneOut g i).sum = g.sum - if leaveOneOut then g[i] else 0 := by
  cases leaveOneOut with
  | false => simp [peers]
  | true =>
    have hsum := (List.getElem_cons_eraseIdx_perm hi).sum_eq
    rw [List.sum_cons] at hsum
    rw [peers,if_pos rfl,if_pos rfl,← hsum,add_sub_cancel_left]

variable [IsStrictOrderedRing K] (A : Arithmetic K) (leaveOneOut : Bool)
  {stdRewards : Option (List K)}

theorem promptBaseline_valid {rewards : List K}
    (hstd : ∀ s ∈ stdRewards, s.length = rewards.length) :
    (promptBaselineAndStd A leaveOneOut rewards (List.replicate rewards.length true) stdRewards).1 =
      rewards.map (baselineOf leaveOneOut rewards) := by
  by_cases htwo : 2 ≤ rewards.length
  · rw [promptBaselineAndStd_valid A leaveOneOut hstd htwo]
    refine List.ext_getElem (by simp) fun i hi hj => ?_
    have hlt : i < rewards.length := by simpa using hj
    rw [List.getElem_map,List.getElem_range,List.getElem_map,baselineOf,if_neg (by omega),mean,
      sum_peers leaveOneOut hlt,length_peers leaveOneOut hlt]
  · have hfew : (((List.replicate rewards.length true).map (maskValue (K := K))).sum) ≤ 1 := by
      rw [sum_valid]
      exact_mod_cast Nat.le_of_lt_succ (Nat.lt_of_not_le htwo)
    have hsame : ∀ r ∈ rewards, baselineOf leaveOneOut rewards r = r :=
      fun r _ => if_pos (by omega)
    rw [promptBaselineAndStd,if_pos hfew]
    exact ((List.map_congr_left hsame).trans (List.map_id' rewards)).symm

/-- The baseline of every row is taken over the rows with its prompt. -/
theorem calculate_baseline [LinearOrder P] {α : Type*} (rows : List α) (key : α → P)
    (reward : α → K) (hstd : ∀ s ∈ stdRewards, s.length = rows.length) :
    (calculateBaselineAndStdPerPrompt A (rows.map key) (rows.map reward)
        (List.replicate rows.length true) leaveOneOut stdRewards).1 =
      rows.map fun row => baselineOf leaveOneOut
        ((rows.filter fun other => key other = key row).map reward) (reward row) := by
  have hrewards : (rows.map reward).length = (rows.map key).length := by simp
  have hvalid : (List.replicate rows.length true).length = (rows.map key).length := by simp
  have hstds : ∀ s ∈ stdRewards, s.length = (rows.map key).length := by simpa using hstd
  set out := calculateBaselineAndStdPerPrompt A (rows.map key) (rows.map reward)
    (List.replicate rows.length true) leaveOneOut stdRewards with hout
  have hlen : out.1.length = (rows.map reward).length := (length_calculate A leaveOneOut).1
  refine List.ext_getElem (by simpa using hlen) fun i hi hj => ?_
  have hlt : i < rows.length := by simpa using hj
  set p := key rows[i] with hp
  have hread : (rows.map key)[i]? = some p := by simp [hlt,hp]
  obtain ⟨k,hk⟩ := List.mem_iff_getElem?.mp (mem_matching.mpr hread)
  have hwithin : Within (matching (rows.map key) p) (rows.map key).length := within_matching p
  have hgroup : gather (rows.map reward) (matching (rows.map key) p) =
      (rows.filter fun other => key other = p).map reward := by
    rw [gather_map,gather_matching]
  have hcount : (gather (rows.map reward) (matching (rows.map key) p)).length =
      (matching (rows.map key) p).length := length_gather (hrewards ▸ hwithin)
  have hmask : gather (List.replicate rows.length true) (matching (rows.map key) p) =
      List.replicate (gather (rows.map reward) (matching (rows.map key) p)).length true := by
    rw [hcount]
    refine List.eq_replicate_iff.mpr ⟨length_gather (hvalid ▸ hwithin),fun b hb => ?_⟩
    obtain ⟨n,-,hn⟩ := List.mem_filterMap.mp hb
    exact List.eq_of_mem_replicate (List.mem_of_getElem? hn)
  have hstats := congrArg Prod.fst (gather_calculate A leaveOneOut hrewards hvalid hstds
    (List.mem_of_getElem? hread))
  rw [hmask,promptBaseline_valid A leaveOneOut (fun s hs => by
    obtain ⟨t,ht,rfl⟩ := Option.mem_map.mp hs
    rw [hcount]
    exact length_gather (hstds t ht ▸ hwithin))] at hstats
  have hentry := congrArg (·[k]?) hstats
  simp only at hentry
  rw [getElem?_gather (hlen.trans hrewards ▸ hwithin),hk,Option.bind_some,List.getElem?_map,
    getElem?_gather (hrewards ▸ hwithin),hk,Option.bind_some,hgroup,
    List.getElem?_eq_getElem (by rw [hlen]; simpa using hlt),
    List.getElem?_eq_getElem (by simpa using hlt),Option.map_some,Option.some.injEq] at hentry
  rw [hentry,List.getElem_map,List.getElem_map]

end Baselines

end Grpo
end DockyardRL
