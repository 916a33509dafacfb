import DockyardRL.XToken.Alignment

/-! The trace of the dynamic program partitions both axes, whatever the scores are. -/
namespace DockyardRL
namespace XToken

open Table

/-- The pairs follow each other on both axes, from `a` and from `b` on, and none is empty on
both sides. -/
structure Aligned (a b : ℤ) (pairs : List AlignmentPair) : Prop where
  chain_s : Chain a (pairs.map AlignmentPair.s)
  chain_t : Chain b (pairs.map AlignmentPair.t)
  inhabited : ∀ pair ∈ pairs, pair.s.tokens ≠ [] ∨ pair.t.tokens ≠ []

def sTokens (pairs : List AlignmentPair) : List Token := covered (pairs.map AlignmentPair.s)

def tTokens (pairs : List AlignmentPair) : List Token := covered (pairs.map AlignmentPair.t)

/-- The pairs follow each other over the given tokens. -/
structure Spells (a b : ℤ) (student teacher : List Token) (pairs : List AlignmentPair) : Prop
    extends Aligned a b pairs where
  sTokens_eq : sTokens pairs = student
  tTokens_eq : tTokens pairs = teacher

section
variable {a b : ℤ} {pair : AlignmentPair} {pairs more : List AlignmentPair}
  {student teacher student' teacher' : List Token}

@[simp] theorem sTokens_nil : sTokens [] = [] := rfl

@[simp] theorem tTokens_nil : tTokens [] = [] := rfl

@[simp] theorem sTokens_append : sTokens (pairs ++ more) = sTokens pairs ++ sTokens more := by
  simp [sTokens]

@[simp] theorem tTokens_append : tTokens (pairs ++ more) = tTokens pairs ++ tTokens more := by
  simp [tTokens]

@[simp] theorem sTokens_cons : sTokens (pair :: pairs) = pair.s.tokens ++ sTokens pairs := rfl

@[simp] theorem tTokens_cons : tTokens (pair :: pairs) = pair.t.tokens ++ tTokens pairs := rfl

theorem Aligned.nil : Aligned a b [] :=
  ⟨chain_nil,chain_nil,fun _ hp => absurd hp List.not_mem_nil⟩

theorem Spells.nil : Spells a b [] [] [] := ⟨Aligned.nil,rfl,rfl⟩

theorem aligned_append : Aligned a b (pairs ++ more) ↔
    Aligned a b pairs ∧ Aligned (a + (sTokens pairs).length) (b + (tTokens pairs).length) more := by
  constructor
  · intro h
    have hs := h.chain_s
    have ht := h.chain_t
    rw [List.map_append,chain_append] at hs ht
    exact ⟨⟨hs.1,ht.1,fun p hp => h.inhabited p (List.mem_append_left more hp)⟩,
      ⟨hs.2,ht.2,fun p hp => h.inhabited p (List.mem_append_right pairs hp)⟩⟩
  · intro h
    refine ⟨?_,?_,fun p hp => ?_⟩
    · rw [List.map_append,chain_append]
      exact ⟨h.1.chain_s,h.2.chain_s⟩
    · rw [List.map_append,chain_append]
      exact ⟨h.1.chain_t,h.2.chain_t⟩
    · rcases List.mem_append.mp hp with hp | hp
      · exact h.1.inhabited p hp
      · exact h.2.inhabited p hp

theorem aligned_cons : Aligned a b (pair :: pairs) ↔
    (pair.s.Placed a ∧ pair.t.Placed b ∧ (pair.s.tokens ≠ [] ∨ pair.t.tokens ≠ [])) ∧
      Aligned (a + pair.s.tokens.length) (b + pair.t.tokens.length) pairs := by
  constructor
  · intro h
    exact ⟨⟨h.chain_s.1,h.chain_t.1,h.inhabited pair List.mem_cons_self⟩,
      ⟨h.chain_s.2,h.chain_t.2,fun p hp => h.inhabited p (List.mem_cons_of_mem pair hp)⟩⟩
  · intro ⟨⟨hs,ht,hp⟩,h⟩
    exact ⟨⟨hs,h.chain_s⟩,⟨ht,h.chain_t⟩,List.forall_mem_cons.mpr ⟨hp,h.inhabited⟩⟩

theorem Spells.append {c d : ℤ} (h : Spells a b student teacher pairs)
    (h' : Spells c d student' teacher' more) (hc : a + student.length = c)
    (hd : b + teacher.length = d) :
    Spells a b (student ++ student') (teacher ++ teacher') (pairs ++ more) := by
  have hmore := h'.toAligned
  rw [← hc,← hd,← h.sTokens_eq,← h.tTokens_eq] at hmore
  refine ⟨aligned_append.mpr ⟨h.toAligned,hmore⟩,?_,?_⟩
  · rw [sTokens_append,h.sTokens_eq,h'.sTokens_eq]
  · rw [tTokens_append,h.tTokens_eq,h'.tTokens_eq]

theorem Spells.cons (hs : pair.s.Placed a) (ht : pair.t.Placed b)
    (hp : pair.s.tokens ≠ [] ∨ pair.t.tokens ≠ [])
    (h : Spells (a + pair.s.tokens.length) (b + pair.t.tokens.length) student teacher pairs) :
    Spells a b (pair.s.tokens ++ student) (pair.t.tokens ++ teacher) (pair :: pairs) := by
  refine ⟨aligned_cons.mpr ⟨⟨hs,ht,hp⟩,h.toAligned⟩,?_,?_⟩
  · rw [sTokens_cons,h.sTokens_eq]
  · rw [tTokens_cons,h.tTokens_eq]

/-- As many tokens on either side, one by one. -/
theorem spells_oneToOne (h : student.length = teacher.length) :
    Spells a b student teacher (oneToOne a student b teacher) := by
  induction student generalizing a b teacher with
  | nil =>
    cases List.length_eq_zero_iff.mp h.symm
    exact Spells.nil
  | cons token student ih =>
    cases teacher with
    | nil => exact absurd h (Nat.succ_ne_zero _)
    | cons token' teacher =>
      let pair : AlignmentPair := ⟨⟨[token],a,a + 1⟩,⟨[token'],b,b + 1⟩,false⟩
      have hs : pair.s.Placed a := Or.inr ⟨List.cons_ne_nil _ _,rfl,rfl⟩
      have ht : pair.t.Placed b := Or.inr ⟨List.cons_ne_nil _ _,rfl,rfl⟩
      exact Spells.cons hs ht (Or.inl (List.cons_ne_nil _ _)) (ih (Nat.succ.inj h))

end

def Move.Legal (i j : ℕ) : Move → Prop
  | .origin => i = 0 ∧ j = 0
  | .diag => 0 < i ∧ 0 < j
  | .up => 0 < i
  | .left => 0 < j
  | .combS1OverS2 k => 0 < i ∧ 0 < k ∧ k ≤ j
  | .combS2OverS1 k => 0 < k ∧ k ≤ i ∧ 0 < j

section
variable {α : Type*} {kw : DpKwargs α} {i k : ℕ}

/-- What holds of all candidates holds of the best one. -/
theorem foldl_better_of [LT α] [DecidableLT α] {P : Cell α → Prop} {best : Cell α}
    {cands : List (Cell α)} (hbest : P best) (hcands : ∀ cand ∈ cands, P cand) :
    P (cands.foldl better best) := by
  induction cands generalizing best with
  | nil => exact hbest
  | cons cand cands ih =>
    have hcand : P cand := hcands cand List.mem_cons_self
    have hstep : P (better best cand) := by
      by_cases hlt : best.score < cand.score
      · simpa [better,hlt] using hcand
      · simpa [better,hlt] using hbest
    exact ih hstep fun c hc => hcands c (List.mem_cons_of_mem cand hc)

theorem combinationLengths_le (h : k ∈ combinationLengths kw i) : 0 < k ∧ k ≤ i := by
  rw [combinationLengths,List.mem_range'_1] at h
  omega

end

section
variable {α : Type*} [Zero α] [Add α] [Neg α] [Mul α] [NatCast α] [LT α] [DecidableLT α]
  {kw : DpKwargs α} {student teacher : List Token} {i j : ℕ}

theorem bestCell_legal {dp : List (List (Cell α))} (hi : 0 < i) (hj : 0 < j) :
    (bestCell kw student teacher dp i j).move.Legal i j := by
  refine foldl_better_of (P := fun cell : Cell α => cell.move.Legal i j) ⟨hi,hj⟩ ?_
  intro cand hcand
  rcases List.mem_cons.mp hcand with rfl | hcand
  · exact hi
  rcases List.mem_cons.mp hcand with rfl | hcand
  · exact hj
  rcases List.mem_append.mp hcand with hcand | hcand
  · obtain ⟨k,hk,hcell⟩ := List.mem_filterMap.mp hcand
    split at hcell
    · cases hcell
      exact ⟨hi,combinationLengths_le hk⟩
    · cases hcell
  · obtain ⟨k,hk,hcell⟩ := List.mem_filterMap.mp hcand
    split at hcell
    · cases hcell
      exact ⟨(combinationLengths_le hk).1,(combinationLengths_le hk).2,hj⟩
    · cases hcell

theorem nextCell_legal (kw : DpKwargs α) (student teacher : List Token)
    (rows : List (List (Cell α))) (row : List (Cell α)) :
    (nextCell kw student teacher rows row).move.Legal rows.length row.length := by
  unfold nextCell
  generalize rows.length = i
  generalize row.length = j
  cases i with
  | zero =>
    cases j with
    | zero => exact ⟨rfl,rfl⟩
    | succ j => exact Nat.succ_pos j
  | succ i =>
    cases j with
    | zero => exact Nat.succ_pos i
    | succ j => exact bestCell_legal (Nat.succ_pos i) (Nat.succ_pos j)

theorem moveAt_legal (hi : i ≤ student.length) (hj : j ≤ teacher.length) :
    (moveAt (dpTable kw student teacher) i j).Legal i j := by
  let nextRow := fun rows => tabulate (nextCell kw student teacher rows) (teacher.length + 1)
  let rows := tabulate nextRow i
  have hlegal := nextCell_legal kw student teacher rows
    (tabulate (nextCell kw student teacher rows) j)
  rw [length_tabulate,length_tabulate] at hlegal
  have hrow : (dpTable kw student teacher)[i]? = some (nextRow rows) :=
    getElem?_tabulate (Nat.lt_succ_of_le hi)
  have hcell := getElem?_tabulate (f := nextCell kw student teacher rows) (Nat.lt_succ_of_le hj)
  rw [moveAt,hrow,Option.bind_some,hcell]
  exact hlegal

end

section
variable {tokens student teacher : List Token} {start stop i j : ℕ}

theorem length_slice (h : stop ≤ tokens.length) : (slice tokens start stop).length = stop - start := by
  rw [slice,List.length_drop,List.length_take,Nat.min_eq_left h]

theorem slice_append_drop (hle : start ≤ stop) (h : stop ≤ tokens.length) :
    slice tokens start stop ++ tokens.drop stop = tokens.drop start := by
  have hstart : start ≤ (tokens.take stop).length := by
    rw [List.length_take]
    omega
  rw [slice,← List.drop_append_of_le_length hstart,List.take_append_drop]

theorem placed_span (hlt : start < stop) (h : stop ≤ tokens.length) :
    (Side.span tokens start stop).Placed start := by
  have hlength : (slice tokens start stop).length = stop - start := length_slice h
  have hne : slice tokens start stop ≠ [] := by
    intro hnil
    rw [hnil,List.length_nil] at hlength
    omega
  refine Or.inr ⟨hne,rfl,?_⟩
  show (stop : ℤ) = start + (slice tokens start stop).length
  omega

/-- The side that a step back from `stop` to `start` gives. -/
def StepsTo (tokens : List Token) (start stop : ℕ) (x : Side) : Prop :=
  x = .gap ∧ start = stop ∨ x = .span tokens start stop ∧ start < stop

theorem StepsTo.le {x : Side} (hx : StepsTo tokens start stop x) : start ≤ stop := by
  rcases hx with ⟨-,rfl⟩ | ⟨-,hlt⟩
  · exact le_rfl
  · exact hlt.le

theorem StepsTo.placed {x : Side} (hx : StepsTo tokens start stop x) (h : stop ≤ tokens.length) :
    x.Placed start := by
  rcases hx with ⟨rfl,-⟩ | ⟨rfl,hlt⟩
  · exact Side.placed_gap
  · exact placed_span hlt h

theorem StepsTo.append_drop {x : Side} (hx : StepsTo tokens start stop x)
    (h : stop ≤ tokens.length) : x.tokens ++ tokens.drop stop = tokens.drop start := by
  rcases hx with ⟨rfl,rfl⟩ | ⟨rfl,hlt⟩
  · rfl
  · exact slice_append_drop hlt.le h

theorem StepsTo.length {x : Side} (hx : StepsTo tokens start stop x) (h : stop ≤ tokens.length) :
    start + x.tokens.length = stop := by
  rcases hx with ⟨rfl,rfl⟩ | ⟨rfl,hlt⟩
  · rfl
  · show start + (slice tokens start stop).length = stop
    rw [length_slice h]
    omega

theorem traceStep_legal {move : Move} (hlegal : move.Legal i j) (hij : ¬ (i = 0 ∧ j = 0)) :
    ∃ pair i' j', traceStep student teacher i j move = some (pair,i',j') ∧
      StepsTo student i' i pair.s ∧ StepsTo teacher j' j pair.t ∧ i' + j' < i + j := by
  cases move with
  | origin => exact absurd hlegal hij
  | diag =>
    obtain ⟨hi,hj⟩ : 0 < i ∧ 0 < j := hlegal
    exact ⟨_,_,_,rfl,Or.inr ⟨rfl,by omega⟩,Or.inr ⟨rfl,by omega⟩,by omega⟩
  | up =>
    have hi : 0 < i := hlegal
    exact ⟨_,_,_,rfl,Or.inr ⟨rfl,by omega⟩,Or.inl ⟨rfl,rfl⟩,by omega⟩
  | left =>
    have hj : 0 < j := hlegal
    exact ⟨_,_,_,rfl,Or.inl ⟨rfl,rfl⟩,Or.inr ⟨rfl,by omega⟩,by omega⟩
  | combS1OverS2 k =>
    obtain ⟨hi,hk,hkj⟩ : 0 < i ∧ 0 < k ∧ k ≤ j := hlegal
    exact ⟨_,_,_,rfl,Or.inr ⟨rfl,by omega⟩,Or.inr ⟨rfl,by omega⟩,by omega⟩
  | combS2OverS1 k =>
    obtain ⟨hk,hki,hj⟩ : 0 < k ∧ k ≤ i ∧ 0 < j := hlegal
    exact ⟨_,_,_,rfl,Or.inr ⟨rfl,by omega⟩,Or.inr ⟨rfl,by omega⟩,by omega⟩

theorem traceBack_spells {trace : ℕ → ℕ → Move} {fuel : ℕ} {aligned : List AlignmentPair}
    (htrace : ∀ i j, i ≤ student.length → j ≤ teacher.length → (trace i j).Legal i j)
    (hfuel : i + j ≤ fuel) (hi : i ≤ student.length) (hj : j ≤ teacher.length)
    (h : Spells i j (student.drop i) (teacher.drop j) aligned) :
    Spells 0 0 student teacher (traceBack trace student teacher fuel i j aligned) := by
  induction fuel generalizing i j aligned with
  | zero =>
    obtain ⟨rfl,rfl⟩ : i = 0 ∧ j = 0 := by omega
    exact h
  | succ fuel ih =>
    rw [traceBack]
    by_cases hij : i = 0 ∧ j = 0
    · rw [if_pos hij]
      obtain ⟨rfl,rfl⟩ := hij
      exact h
    · obtain ⟨pair,i',j',hstep,hs,ht,hlt⟩ := traceStep_legal (htrace i j hi hj) hij
      rw [if_neg hij,hstep]
      have hlens := hs.length hi
      have hlent := ht.length hj
      have hne : pair.s.tokens ≠ [] ∨ pair.t.tokens ≠ [] := by
        by_contra hnil
        push Not at hnil
        rw [hnil.1,List.length_nil] at hlens
        rw [hnil.2,List.length_nil] at hlent
        omega
      have hrest : Spells (i' + pair.s.tokens.length) (j' + pair.t.tokens.length)
          (student.drop i) (teacher.drop j) aligned := by
        have hi' : (i' : ℤ) + pair.s.tokens.length = i := by omega
        have hj' : (j' : ℤ) + pair.t.tokens.length = j := by omega
        rw [hi',hj']
        exact h
      have hmore := Spells.cons (hs.placed hi) (ht.placed hj) hne hrest
      rw [hs.append_drop hi,ht.append_drop hj] at hmore
      exact ih (by omega) (hs.le.trans hi) (ht.le.trans hj) hmore

end

section
variable {α : Type*} [Zero α] [Add α] [Neg α] [Mul α] [NatCast α] [LT α] [DecidableLT α]

/-- The pairs of the dynamic program spell the two sequences. -/
theorem alignDp_spells (kw : DpKwargs α) (student teacher : List Token) :
    Spells 0 0 student teacher (alignDp kw student teacher).1 := by
  have hend : Spells student.length teacher.length (student.drop student.length)
      (teacher.drop teacher.length) [] := by
    rw [List.drop_length,List.drop_length]
    exact Spells.nil
  exact traceBack_spells (fun i j => moveAt_legal) le_rfl le_rfl le_rfl hend

end
end XToken
end DockyardRL
