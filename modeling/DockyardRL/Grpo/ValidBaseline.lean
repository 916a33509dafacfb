import DockyardRL.Grpo.Advantage

/-! Baselines under a mask. Every row's statistics are a function of the row and of the rows with its
prompt; a row that is masked out is left out of the count once more where it is to be left out. -/
namespace DockyardRL
namespace Grpo

open Gather Variance

variable {P K α : Type*} [Field K] [LinearOrder K]

section Group

variable (reward : α → K) (valid : α → Bool) (std : Option (α → K)) (leaveOneOut : Bool)

def validCount (group : List α) : K := (group.map fun row => maskValue (valid row)).sum

def share (f : α → K) (group : List α) (row : α) : K :=
  ((group.map fun other => f other * maskValue (valid other)).sum -
      if leaveOneOut then f row * maskValue (valid row) else 0) /
    (validCount valid group - if leaveOneOut then 1 else 0)

/-- Baseline and standard deviation of a row among those with its prompt. -/
def rowStats (A : Arithmetic K) (group : List α) (row : α) : K × K :=
  if validCount valid group ≤ (1 : K) then (reward row,0)
  else
    let count : K := validCount valid group - if leaveOneOut then 1 else 0
    (share valid leaveOneOut reward group row,
      (((Extended.divide count (count - 1)).times
        (share valid leaveOneOut (fun other => (std.getD reward) other ^ 2) group row -
          share valid leaveOneOut (std.getD reward) group row ^ 2)).sqrt A).nanToNum A)

omit [LinearOrder K] in
theorem masked_map (f : α → K) (group : List α) : masked (group.map f) (group.map valid) =
    group.map fun row => f row * maskValue (valid row) := by
  rw [masked,List.zipWith_map,List.zipWith_self]

omit [LinearOrder K] in
theorem matmulMask_map (g : α → K) (group : List α) : matmulMask leaveOneOut (group.map g) =
    group.map fun row => (group.map g).sum - if leaveOneOut then g row else 0 := by
  rw [matmulMask_eq]
  refine List.ext_getElem (by simp) fun i hi hj => ?_
  have hlt : i < (group.map g).length := by simpa using hj
  rw [List.getElem_map,List.getElem_range,List.getElem_map,sum_peers leaveOneOut hlt,List.getElem_map]

omit [LinearOrder K] in
theorem shares_eq (f : α → K) (group : List α) :
    (matmulMask leaveOneOut (masked (group.map f) (group.map valid))).map
        (· / (((group.map valid).map (maskValue (K := K))).sum - if leaveOneOut then 1 else 0)) =
      group.map (share valid leaveOneOut f group) := by
  rw [masked_map,matmulMask_map,List.map_map,List.map_map]
  rfl

theorem promptBaselineAndStd_map (A : Arithmetic K) (group : List α) :
    promptBaselineAndStd A leaveOneOut (group.map reward) (group.map valid)
        (std.map fun s => group.map s) =
      (group.map fun row => (rowStats reward valid std leaveOneOut A group row).1,
        group.map fun row => (rowStats reward valid std leaveOneOut A group row).2) := by
  have hcount : ((group.map valid).map (maskValue (K := K))).sum = validCount valid group := by
    rw [List.map_map]
    rfl
  rw [promptBaselineAndStd]
  by_cases hfew : ((group.map valid).map (maskValue (K := K))).sum ≤ 1
  · rw [if_pos hfew]
    rw [hcount] at hfew
    simp only [rowStats,if_pos hfew,List.length_map,List.map_const']
  · have hsquare : ((std.map fun s => group.map s).getD (group.map reward)).map (· ^ 2) =
        group.map fun other => (std.getD reward) other ^ 2 := by
      cases std <;> simp
    have hplain : (std.map fun s => group.map s).elim
        ((matmulMask leaveOneOut (masked (group.map reward) (group.map valid))).map
          (· / (((group.map valid).map (maskValue (K := K))).sum - if leaveOneOut then 1 else 0)))
        (fun s => (matmulMask leaveOneOut (masked s (group.map valid))).map
          (· / (((group.map valid).map (maskValue (K := K))).sum - if leaveOneOut then 1 else 0))) =
        group.map (share valid leaveOneOut (std.getD reward) group) := by
      cases std with
      | none => exact shares_eq valid leaveOneOut reward group
      | some s => exact shares_eq valid leaveOneOut s group
    rw [if_neg hfew]
    dsimp only
    rw [hplain,hsquare,shares_eq,shares_eq,List.zipWith_map,List.zipWith_self]
    rw [hcount] at hfew ⊢
    simp only [rowStats,if_neg hfew]

theorem rowStats_perm (A : Arithmetic K) {group group' : List α} (h : group.Perm group') (row : α) :
    rowStats reward valid std leaveOneOut A group row =
      rowStats reward valid std leaveOneOut A group' row := by
  have hcount : (validCount valid group : K) = validCount valid group' := (h.map _).sum_eq
  have hshare : ∀ f : α → K, share valid leaveOneOut f group row = share valid leaveOneOut f group' row := by
    intro f
    rw [share,share,(h.map fun other => f other * maskValue (valid other)).sum_eq,hcount]
  rw [rowStats,rowStats,hcount,hshare,hshare,hshare]

end Group

section Batch

variable [LinearOrder P] (key : α → P) (reward : α → K) (valid : α → Bool) (std : Option (α → K))
  (leaveOneOut : Bool)

def groupOf (rows : List α) (row : α) : List α := rows.filter fun other => key other = key row

omit [Field K] [LinearOrder K] in
theorem eq_map_of_gather {rows : List α} {out : List K} {f : P → α → K} (hlength : out.length = rows.length)
    (h : ∀ p ∈ rows.map key, gather out (matching (rows.map key) p) =
      (rows.filter fun row => key row = p).map (f p)) :
    out = rows.map fun row => f (key row) row := by
  refine List.ext_getElem (by simpa using hlength) fun i hi hj => ?_
  have hlt : i < rows.length := by simpa using hj
  have hread : (rows.map key)[i]? = some (key rows[i]) := by simp [hlt]
  obtain ⟨k,hk⟩ := List.mem_iff_getElem?.mp (mem_matching.mpr hread)
  have hwithin : Within (matching (rows.map key) (key rows[i])) rows.length := by
    have hmatching : Within (matching (rows.map key) (key rows[i])) (rows.map key).length :=
      within_matching _
    rwa [List.length_map] at hmatching
  have hentry : (gather out (matching (rows.map key) (key rows[i])))[k]? =
      ((rows.filter fun row => key row = key rows[i]).map (f (key rows[i])))[k]? :=
    congrArg (·[k]?) (h _ (List.mem_of_getElem? hread))
  rw [← gather_matching,getElem?_gather (hlength ▸ hwithin),hk,Option.bind_some,List.getElem?_map,
    getElem?_gather hwithin,hk,Option.bind_some,List.getElem?_eq_getElem hi,
    List.getElem?_eq_getElem hlt,Option.map_some,Option.some.injEq] at hentry
  rw [hentry,List.getElem_map]

theorem calculate_rows (A : Arithmetic K) (rows : List α) :
    calculateBaselineAndStdPerPrompt A (rows.map key) (rows.map reward) (rows.map valid) leaveOneOut
        (std.map fun s => rows.map s) =
      (rows.map fun row => (rowStats reward valid std leaveOneOut A (groupOf key rows row) row).1,
        rows.map fun row => (rowStats reward valid std leaveOneOut A (groupOf key rows row) row).2) := by
  have hrewards : (rows.map reward).length = (rows.map key).length := by simp
  have hvalid : (rows.map valid).length = (rows.map key).length := by simp
  have hstds : ∀ s ∈ std.map fun s => rows.map s, s.length = (rows.map key).length := by
    intro s hs
    obtain ⟨f,-,rfl⟩ := Option.mem_map.mp hs
    simp
  set out := calculateBaselineAndStdPerPrompt A (rows.map key) (rows.map reward) (rows.map valid)
    leaveOneOut (std.map fun s => rows.map s) with hout
  have hlength : out.1.length = (rows.map reward).length ∧ out.2.length = (rows.map reward).length :=
    length_calculate A leaveOneOut
  have hgroup : ∀ p ∈ rows.map key, (gather out.1 (matching (rows.map key) p),
      gather out.2 (matching (rows.map key) p)) =
      ((rows.filter fun row => key row = p).map fun row => (rowStats reward valid std leaveOneOut A
        (rows.filter fun other => key other = p) row).1,
        (rows.filter fun row => key row = p).map fun row => (rowStats reward valid std leaveOneOut A
          (rows.filter fun other => key other = p) row).2) := by
    intro p hp
    have hstd : (std.map fun s => rows.map s).map (gather · (matching (rows.map key) p)) =
        std.map fun s => (rows.filter fun row => key row = p).map s := by
      cases std with
      | none => rfl
      | some s => simp [gather_map,gather_matching]
    rw [hout,gather_calculate A leaveOneOut hrewards hvalid hstds hp,gather_map,gather_map,
      gather_matching,hstd]
    exact promptBaselineAndStd_map reward valid std leaveOneOut A _
  refine Prod.ext ?_ ?_
  · exact eq_map_of_gather key (by simpa using hlength.1) fun p hp => congrArg Prod.fst (hgroup p hp)
  · exact eq_map_of_gather key (by simpa using hlength.2) fun p hp => congrArg Prod.snd (hgroup p hp)

/-- `calculate_baseline_and_std_per_prompt` on the columns of some rows. -/
def statsOf (A : Arithmetic K) (rows : List α) : List K × List K :=
  calculateBaselineAndStdPerPrompt A (rows.map key) (rows.map reward) (rows.map valid) leaveOneOut
    (std.map fun s => rows.map s)

theorem statsOf_group (A : Arithmetic K) {rows rows' : List α} {p : P}
    (h : (rows'.filter fun row => key row = p) = rows.filter fun row => key row = p) :
    gather (statsOf key reward valid std leaveOneOut A rows').1 (matching (rows'.map key) p) =
        gather (statsOf key reward valid std leaveOneOut A rows).1 (matching (rows.map key) p) ∧
      gather (statsOf key reward valid std leaveOneOut A rows').2 (matching (rows'.map key) p) =
        gather (statsOf key reward valid std leaveOneOut A rows).2 (matching (rows.map key) p) := by
  have hgroup : ∀ {rows : List α} {row : α}, row ∈ (rows.filter fun row => key row = p) →
      groupOf key rows row = rows.filter fun row => key row = p := by
    intro rows row hrow
    have hkey : key row = p := by simpa using (List.mem_filter.mp hrow).2
    rw [groupOf,hkey]
  rw [statsOf,statsOf,calculate_rows,calculate_rows]
  simp only [gather_map,gather_matching]
  rw [h]
  constructor
  · refine List.map_congr_left fun row hrow => ?_
    rw [hgroup hrow,hgroup (h ▸ hrow),h]
  · refine List.map_congr_left fun row hrow => ?_
    rw [hgroup hrow,hgroup (h ▸ hrow),h]

theorem statsOf_gather (A : Arithmetic K) {rows : List α} {idx : List ℕ}
    (h : idx.Perm (List.range rows.length)) :
    statsOf key reward valid std leaveOneOut A (gather rows idx) =
      (gather (statsOf key reward valid std leaveOneOut A rows).1 idx,
        gather (statsOf key reward valid std leaveOneOut A rows).2 idx) := by
  have hsame : ∀ row, rowStats reward valid std leaveOneOut A (groupOf key (gather rows idx) row) row =
      rowStats reward valid std leaveOneOut A (groupOf key rows row) row :=
    fun row => rowStats_perm reward valid std leaveOneOut A ((gather_perm h).filter _) row
  rw [statsOf,statsOf,calculate_rows,calculate_rows]
  simp only [gather_map,hsame]

def validGroup (rows : List α) (row : α) : List α := (groupOf key rows row).filter valid

def comparedRows (rows : List α) (i : ℕ) (row : α) : List α :=
  validGroup key valid (if leaveOneOut then rows.eraseIdx i else rows) row

/-- Every baseline is the mean over the valid rows that the row is compared with, or the row's own
reward where there is at most one valid row. -/
def MeanBaselines (baseline : List K) (rows : List α) : Prop :=
  ∀ i (hi : i < rows.length), baseline[i]? =
    some (if (validGroup key valid rows rows[i]).length ≤ 1 then reward rows[i]
      else mean ((comparedRows key valid leaveOneOut rows i rows[i]).map reward))

omit [LinearOrder K] [LinearOrder P] in
theorem sum_valid_map (f : α → K) (group : List α) :
    (group.map fun row => f row * maskValue (valid row)).sum = ((group.filter valid).map f).sum := by
  induction group with
  | nil => rfl
  | cons row group ih =>
    rw [List.map_cons,List.sum_cons,ih,List.filter_cons]
    cases hvalid : valid row <;> simp [maskValue]

omit [LinearOrder K] [LinearOrder P] in
theorem validCount_eq (group : List α) : (validCount valid group : K) = (group.filter valid).length := by
  have hsum := sum_valid_map (K := K) valid (fun _ => 1) group
  simpa [validCount] using hsum

omit [LinearOrder K] in
theorem validGroup_eraseIdx {rows : List α} {i : ℕ} (hi : i < rows.length) :
    (validGroup key valid rows rows[i]).Perm
      ((if valid rows[i] then [rows[i]] else []) ++ validGroup key valid (rows.eraseIdx i) rows[i]) := by
  have hperm := ((List.getElem_cons_eraseIdx_perm hi).filter fun other => key other = key rows[i])
  have hvalid := hperm.symm.filter valid
  rw [validGroup,groupOf]
  refine hvalid.trans ?_
  rw [List.filter_cons,if_pos (by simp),List.filter_cons]
  cases valid rows[i] <;> rfl

variable [IsStrictOrderedRing K]

theorem div_sub_one_eq_div_iff {n : ℕ} (hn : 2 ≤ n) (s : K) :
    s / ((n : K) - 1) = s / n ↔ s = 0 := by
  have hone : (1 : K) < n := by exact_mod_cast hn
  have hpos : (n : K) - 1 ≠ 0 := (sub_pos.mpr hone).ne'
  have hn0 : (n : K) ≠ 0 := (zero_lt_one.trans hone).ne'
  rw [div_eq_div_iff hpos hn0,← sub_eq_zero,← mul_sub,sub_sub_cancel,mul_one]

theorem baseline_eq_mean_iff (A : Arithmetic K) {rows : List α} {i : ℕ} (hi : i < rows.length) :
    (rowStats reward valid std leaveOneOut A (groupOf key rows rows[i]) rows[i]).1 =
        (if (validGroup key valid rows rows[i]).length ≤ 1 then reward rows[i]
          else mean ((comparedRows key valid leaveOneOut rows i rows[i]).map reward)) ↔
      leaveOneOut = false ∨ (valid rows[i] = false →
        2 ≤ (validGroup key valid rows rows[i]).length →
          ((validGroup key valid rows rows[i]).map reward).sum = 0) := by
  have hcount : (validCount valid (groupOf key rows rows[i]) : K) =
      (validGroup key valid rows rows[i]).length := validCount_eq valid _
  have hsum : ((groupOf key rows rows[i]).map fun row => reward row * maskValue (valid row)).sum =
      ((validGroup key valid rows rows[i]).map reward).sum := sum_valid_map valid reward _
  by_cases hfew : (validGroup key valid rows rows[i]).length ≤ 1
  · have hone : validCount valid (groupOf key rows rows[i]) ≤ (1 : K) := by
      rw [hcount]
      exact_mod_cast hfew
    rw [rowStats,if_pos hone,if_pos hfew]
    exact iff_of_true rfl (.inr fun _ htwo => absurd htwo (by omega))
  · have hmany : ¬validCount valid (groupOf key rows rows[i]) ≤ (1 : K) := by
      rw [hcount]
      exact_mod_cast hfew
    have hself := validGroup_eraseIdx key valid hi
    rw [rowStats,if_neg hmany,if_neg hfew,share,hcount,hsum,mean,comparedRows]
    cases leaveOneOut with
    | false => simp
    | true =>
      have hlength := hself.length_eq
      have htotal := (hself.map reward).sum_eq
      simp only [if_true]
      cases hvalid : valid rows[i] with
      | true =>
        rw [hvalid] at hlength htotal
        simp only [if_true,List.length_append,List.length_singleton] at hlength
        simp only [if_true,List.map_append,List.map_singleton,List.sum_append,List.sum_singleton] at htotal
        refine iff_of_true ?_ (by simp)
        rw [htotal,hlength,List.length_map,maskValue,if_pos rfl,mul_one,add_sub_cancel_left,
          Nat.cast_add,Nat.cast_one,add_sub_cancel_left]
      | false =>
        rw [hvalid] at hlength htotal
        simp only [Bool.false_eq_true,if_false,List.nil_append] at hlength htotal
        rw [← htotal,List.length_map,← hlength,maskValue,if_neg Bool.false_ne_true,mul_zero,sub_zero,
          div_sub_one_eq_div_iff (by omega)]
        simp only [Bool.true_eq_false,false_or,forall_const]
        have htwo : 2 ≤ (validGroup key valid rows rows[i]).length := by omega
        exact ⟨fun h _ => h,fun h => h htwo⟩

theorem meanBaselines_iff (A : Arithmetic K) (rows : List α) :
    MeanBaselines key reward valid leaveOneOut (statsOf key reward valid std leaveOneOut A rows).1 rows ↔
      leaveOneOut = false ∨ ∀ row ∈ rows, valid row = false →
        2 ≤ (validGroup key valid rows row).length →
          ((validGroup key valid rows row).map reward).sum = 0 := by
  have hentry : ∀ i (hi : i < rows.length),
      (statsOf key reward valid std leaveOneOut A rows).1[i]? =
        some (rowStats reward valid std leaveOneOut A (groupOf key rows rows[i]) rows[i]).1 := by
    intro i hi
    rw [statsOf,calculate_rows,List.getElem?_map,List.getElem?_eq_getElem hi,Option.map_some]
  constructor
  · intro h
    by_cases hmode : leaveOneOut = false
    · exact .inl hmode
    · refine .inr fun row hrow => ?_
      obtain ⟨i,hi,rfl⟩ := List.mem_iff_getElem.mp hrow
      have hsame := Option.some.inj ((hentry i hi).symm.trans (h i hi))
      exact ((baseline_eq_mean_iff key reward valid std leaveOneOut A hi).mp hsame).resolve_left hmode
  · intro h i hi
    rw [hentry i hi,Option.some.injEq,baseline_eq_mean_iff]
    exact h.imp id fun hrows => hrows rows[i] (List.getElem_mem hi)

/-- Rewards less baselines, all rows taken as valid. -/
def advantages (A : Arithmetic K) (rows : List α) : List K :=
  List.zipWith (· - ·) (rows.map reward)
    (statsOf key reward (fun _ => true) none leaveOneOut A rows).1

omit [LinearOrder K] [IsStrictOrderedRing K] [LinearOrder P] in
theorem sum_affine (group : List α) (a b : K) : (group.map fun row => reward row * a - b).sum =
    (group.map reward).sum * a - group.length * b := by
  induction group with
  | nil => simp
  | cons row group ih =>
    rw [List.map_cons,List.sum_cons,ih,List.map_cons,List.sum_cons,List.length_cons,Nat.cast_succ]
    ring

omit [LinearOrder P] in
theorem sum_sub_baselineOf (group : List α) : (group.map fun row =>
    reward row - baselineOf leaveOneOut (group.map reward) (reward row)).sum = 0 := by
  by_cases hfew : (group.map reward).length ≤ 1
  · have hsame : ∀ row, baselineOf leaveOneOut (group.map reward) (reward row) = reward row :=
      fun row => if_pos hfew
    simp [hsame]
  · have hmany : (1 : K) < group.length := by
      rw [List.length_map] at hfew
      exact_mod_cast Nat.lt_of_not_le hfew
    set c : K := if leaveOneOut then 1 else 0 with hc
    have hcount : (group.length : K) - c ≠ 0 := by
      have hle : c ≤ 1 := by
        rw [hc]
        split_ifs
        · exact le_rfl
        · exact zero_le_one
      exact (sub_pos.mpr (hle.trans_lt hmany)).ne'
    have hterm : ∀ row, reward row - baselineOf leaveOneOut (group.map reward) (reward row) =
        reward row * (1 + c / (group.length - c)) - (group.map reward).sum / (group.length - c) := by
      intro row
      have hown : (if leaveOneOut then reward row else 0) = reward row * c := by
        rw [hc]
        split_ifs <;> simp
      rw [baselineOf,if_neg hfew,hown,List.length_map,← hc]
      ring
    simp only [hterm]
    rw [sum_affine]
    field_simp
    ring

theorem advantages_cancel (A : Arithmetic K) (rows : List α) :
    (∀ mask : List (List Bool),
      computeAdvantage A ⟨leaveOneOut,false⟩ (rows.map key) (rows.map reward) mask =
        List.zipWith (fun x tokens => tokens.map fun _ => x)
          (advantages key reward leaveOneOut A rows) mask) ∧
      ∀ p, (gather (advantages key reward leaveOneOut A rows) (matching (rows.map key) p)).sum = 0 := by
  have hmask : rows.map (fun _ => true) = List.replicate (rows.map reward).length true := by simp
  constructor
  · intro mask
    rw [computeAdvantage,advantages,statsOf,hmask]
    simp
  · intro p
    have hbaseline : (calculateBaselineAndStdPerPrompt A (rows.map key) (rows.map reward)
        (List.replicate rows.length true) leaveOneOut none).1 = rows.map fun row =>
          baselineOf leaveOneOut ((groupOf key rows row).map reward) (reward row) :=
      calculate_baseline A leaveOneOut rows key reward (by simp)
    have hadvantages : advantages key reward leaveOneOut A rows = rows.map fun row =>
        reward row - baselineOf leaveOneOut ((groupOf key rows row).map reward) (reward row) := by
      rw [advantages,statsOf,hmask,List.length_map]
      simp only [Option.map_none]
      rw [hbaseline,List.zipWith_map,List.zipWith_self]
    rw [hadvantages,gather_map,gather_matching]
    refine Eq.trans (congrArg List.sum (List.map_congr_left fun row hrow => ?_))
      (sum_sub_baselineOf reward leaveOneOut (rows.filter fun row => key row = p))
    have hkey : key row = p := by simpa using (List.mem_filter.mp hrow).2
    rw [groupOf,hkey]

/-- What the baselines of a batch are to be: means over valid rows that depend on the rows with the prompt
alone and follow the rows, and from which the rewards of a prompt differ by nothing in all. -/
structure PromptMeans (A : Arithmetic K) (rows : List α) : Prop where
  means : MeanBaselines key reward valid leaveOneOut
    (statsOf key reward valid std leaveOneOut A rows).1 rows
  own_group : ∀ (rows' : List α) (p : P),
    ((rows'.filter fun row => key row = p) = rows.filter fun row => key row = p) →
      gather (statsOf key reward valid std leaveOneOut A rows').1 (matching (rows'.map key) p) =
          gather (statsOf key reward valid std leaveOneOut A rows).1 (matching (rows.map key) p) ∧
        gather (statsOf key reward valid std leaveOneOut A rows').2 (matching (rows'.map key) p) =
          gather (statsOf key reward valid std leaveOneOut A rows).2 (matching (rows.map key) p)
  follows : ∀ idx : List ℕ, idx.Perm (List.range rows.length) →
    statsOf key reward valid std leaveOneOut A (gather rows idx) =
      (gather (statsOf key reward valid std leaveOneOut A rows).1 idx,
        gather (statsOf key reward valid std leaveOneOut A rows).2 idx)
  estimator : ∀ mask : List (List Bool),
    computeAdvantage A ⟨leaveOneOut,false⟩ (rows.map key) (rows.map reward) mask =
      List.zipWith (fun x tokens => tokens.map fun _ => x)
        (advantages key reward leaveOneOut A rows) mask
  cancel : ∀ p, (gather (advantages key reward leaveOneOut A rows) (matching (rows.map key) p)).sum = 0

/-- The baselines are what they are to be in the plain mode, and in the other where the valid rewards of a
prompt with a row that is masked out sum to zero. -/
theorem promptMeans_iff (A : Arithmetic K) (rows : List α) :
    PromptMeans key reward valid std leaveOneOut A rows ↔
      leaveOneOut = false ∨ ∀ row ∈ rows, valid row = false →
        2 ≤ (validGroup key valid rows row).length →
          ((validGroup key valid rows row).map reward).sum = 0 := by
  obtain ⟨hestimator,hcancel⟩ := advantages_cancel key reward leaveOneOut A rows
  refine ⟨fun h => (meanBaselines_iff key reward valid std leaveOneOut A rows).mp h.means,fun h => ?_⟩
  exact ⟨(meanBaselines_iff key reward valid std leaveOneOut A rows).mpr h,
    fun rows' p hsame => statsOf_group key reward valid std leaveOneOut A hsame,
    fun idx hperm => statsOf_gather key reward valid std leaveOneOut A hperm,hestimator,hcancel⟩

end Batch

def noRoots : Arithmetic ℚ := ⟨id,fun x _ => x,0⟩

def maskedRows : List (ℕ × ℚ × Bool) := [(0,1,true),(0,1,true),(0,0,false)]

theorem promptMeans_iff_maskedRows :
    PromptMeans Prod.fst (fun row => row.2.1) (fun row => row.2.2) none true noRoots maskedRows ↔
      true = false ∨ ∀ row ∈ maskedRows, row.2.2 = false →
        2 ≤ (validGroup Prod.fst (fun row => row.2.2) maskedRows row).length →
          ((validGroup Prod.fst (fun row => row.2.2) maskedRows row).map fun row => row.2.1).sum = 0 :=
  promptMeans_iff Prod.fst (fun row => row.2.1) (fun row => row.2.2) none true noRoots maskedRows

/-- The baseline of a row that is masked out is the sum of two rewards over one row. -/
theorem maskedRows_baseline :
    (statsOf Prod.fst (fun row => row.2.1) (fun row => row.2.2) none true noRoots maskedRows).1 =
        [1,1,2] ∧
      ¬PromptMeans Prod.fst (fun row => row.2.1) (fun row => row.2.2) none true noRoots maskedRows := by
  have hbaseline : (statsOf Prod.fst (fun row => row.2.1) (fun row => row.2.2) none true noRoots
      maskedRows).1 = [1,1,2] := by decide +kernel
  refine ⟨hbaseline,fun h => ?_⟩
  have hlast := h.means 2 (by decide)
  rw [hbaseline] at hlast
  exact absurd hlast (by decide +kernel)

end Grpo
end DockyardRL
