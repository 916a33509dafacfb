import Mathlib.Algebra.Field.Rat
import Mathlib.Algebra.Order.Ring.Rat
import DockyardRL.XToken.Tracing

/-! The dynamic program finds an alignment of the highest score, and its trace is one. -/
namespace DockyardRL
namespace XToken

open Table BestPath

/-- The steps that alignments are built from, between numbers of tokens passed, each with the pair
it adds and its score. -/
inductive AlignStep {α : Type*} [Neg α] [Mul α] [NatCast α] (kw : DpKwargs α)
    (studentTokens teacherTokens : List Token) : ℕ × ℕ → AlignmentPair → α → ℕ × ℕ → Prop
  | studentGap {i j : ℕ} (hi : i < studentTokens.length) (hj : j ≤ teacherTokens.length) :
    AlignStep kw studentTokens teacherTokens (i,j) ⟨.span studentTokens i (i + 1),.gap,false⟩
      kw.gapPenalty (i + 1,j)
  | teacherGap {i j : ℕ} (hi : i ≤ studentTokens.length) (hj : j < teacherTokens.length) :
    AlignStep kw studentTokens teacherTokens (i,j) ⟨.gap,.span teacherTokens j (j + 1),false⟩
      kw.gapPenalty (i,j + 1)
  | oneToOne {i j : ℕ} (hi : i < studentTokens.length) (hj : j < teacherTokens.length) :
    AlignStep kw studentTokens teacherTokens (i,j)
      ⟨.span studentTokens i (i + 1),.span teacherTokens j (j + 1),false⟩
      (if stringsEqualFlexible (studentTokens.getD i []) (teacherTokens.getD j [])
        kw.ignoreLeadingCharDiff then kw.exactMatchScore else -kw.exactMatchScore) (i + 1,j + 1)
  | oneToMany {i j k : ℕ} (hk : 2 ≤ k) (hmax : k ≤ kw.maxCombinationLen)
    (hi : i < studentTokens.length) (hj : j + k ≤ teacherTokens.length)
    (heq : stringsEqualFlexible (studentTokens.getD i []) (slice teacherTokens j (j + k)).flatten
      kw.ignoreLeadingCharDiff = true) :
    AlignStep kw studentTokens teacherTokens (i,j)
      ⟨.span studentTokens i (i + 1),.span teacherTokens j (j + k),false⟩
      (kw.combinationScoreMultiplier * k) (i + 1,j + k)
  | manyToOne {i j k : ℕ} (hk : 2 ≤ k) (hmax : k ≤ kw.maxCombinationLen)
    (hi : i + k ≤ studentTokens.length) (hj : j < teacherTokens.length)
    (heq : stringsEqualFlexible (teacherTokens.getD j []) (slice studentTokens i (i + k)).flatten
      kw.ignoreLeadingCharDiff = true) :
    AlignStep kw studentTokens teacherTokens (i,j)
      ⟨.span studentTokens i (i + k),.span teacherTokens j (j + 1),false⟩
      (kw.combinationScoreMultiplier * k) (i + k,j + 1)

section
variable {α : Type*} [Zero α] [Add α] [Neg α] [Mul α] [NatCast α] [LT α] [DecidableLT α]

/-- The row after `rows`. -/
def nextRow (kw : DpKwargs α) (student teacher : List Token) (rows : List (List (Cell α))) :
    List (Cell α) :=
  tabulate (nextCell kw student teacher rows) (teacher.length + 1)

/-- The entry at `(i, j)`, from the rows above and the part of the row before it. -/
def cell (kw : DpKwargs α) (student teacher : List Token) (i j : ℕ) : Cell α :=
  let rows := tabulate (nextRow kw student teacher) i
  nextCell kw student teacher rows (tabulate (nextCell kw student teacher rows) j)

variable {kw : DpKwargs α} {student teacher : List Token} {i j : ℕ}

theorem dpTable_row (hi : i ≤ student.length) : (dpTable kw student teacher)[i]? =
    some (nextRow kw student teacher (tabulate (nextRow kw student teacher) i)) :=
  getElem?_tabulate (Nat.lt_succ_of_le hi)

theorem dpTable_cell (hi : i ≤ student.length) (hj : j ≤ teacher.length) :
    ((dpTable kw student teacher)[i]?.bind fun row => row[j]?) = some (cell kw student teacher i j) := by
  rw [dpTable_row hi,Option.bind_some,nextRow,getElem?_tabulate (Nat.lt_succ_of_le hj)]
  rfl

theorem scoreAt_dpTable (hi : i ≤ student.length) (hj : j ≤ teacher.length) :
    scoreAt (dpTable kw student teacher) i j = (cell kw student teacher i j).score := by
  rw [scoreAt,dpTable_cell hi hj]
  rfl

theorem moveAt_dpTable (hi : i ≤ student.length) (hj : j ≤ teacher.length) :
    moveAt (dpTable kw student teacher) i j = (cell kw student teacher i j).move := by
  rw [moveAt,dpTable_cell hi hj]
  rfl

theorem scoreAt_earlier {i' j' : ℕ} (hi : i ≤ student.length) (hj : j ≤ teacher.length)
    (hbefore : i' < i ∧ j' ≤ teacher.length ∨ i' = i ∧ j' < j) :
    scoreAt (tabulate (nextRow kw student teacher) i ++ [tabulate (nextCell kw student teacher
      (tabulate (nextRow kw student teacher) i)) j]) i' j' =
      scoreAt (dpTable kw student teacher) i' j' := by
  rw [scoreAt,scoreAt]
  rcases hbefore with ⟨hlt,-⟩ | ⟨rfl,hlt⟩
  · rw [List.getElem?_append_left (by rwa [length_tabulate]),getElem?_tabulate hlt,
      dpTable_row (by omega)]
  · have hrow : (tabulate (nextRow kw student teacher) i' ++ [tabulate (nextCell kw student teacher
        (tabulate (nextRow kw student teacher) i')) j])[i']? = some (tabulate (nextCell kw student
        teacher (tabulate (nextRow kw student teacher) i')) j) := by
      rw [List.getElem?_append_right (by rw [length_tabulate]),length_tabulate,Nat.sub_self]
      rfl
    rw [hrow,dpTable_row hi,Option.bind_some,Option.bind_some,nextRow,getElem?_tabulate hlt,
      getElem?_tabulate (by omega)]

theorem bestCell_congr {dp dp' : List (List (Cell α))}
    (h : ∀ i' j', i' ≤ i → j' ≤ j → i' < i ∨ j' < j → scoreAt dp i' j' = scoreAt dp' i' j')
    (hi : 0 < i) (hj : 0 < j) :
    bestCell kw student teacher dp i j = bestCell kw student teacher dp' i j := by
  have hdiag := h (i - 1) (j - 1) (by omega) (by omega) (by omega)
  have hup := h (i - 1) j (by omega) le_rfl (by omega)
  have hleft := h i (j - 1) le_rfl (by omega) (by omega)
  have hteacher : ∀ k, scoreAt dp (i - 1) (j - k) = scoreAt dp' (i - 1) (j - k) :=
    fun k => h _ _ (by omega) (by omega) (by omega)
  have hstudent : ∀ k, scoreAt dp (i - k) (j - 1) = scoreAt dp' (i - k) (j - 1) :=
    fun k => h _ _ (by omega) (by omega) (by omega)
  unfold bestCell
  simp only [hdiag,hup,hleft,hteacher,hstudent]

theorem cell_zero_zero : cell kw student teacher 0 0 = ⟨0,.origin⟩ := rfl

theorem cell_succ_zero (hi : i + 1 ≤ student.length) : cell kw student teacher (i + 1) 0 =
    ⟨scoreAt (dpTable kw student teacher) i 0 + kw.gapPenalty,.up⟩ := by
  rw [cell,nextCell,length_tabulate,length_tabulate]
  dsimp only
  rw [scoreAt_earlier hi (Nat.zero_le _) (Or.inl ⟨Nat.lt_succ_self i,Nat.zero_le _⟩)]

theorem cell_zero_succ (hj : j + 1 ≤ teacher.length) : cell kw student teacher 0 (j + 1) =
    ⟨scoreAt (dpTable kw student teacher) 0 j + kw.gapPenalty,.left⟩ := by
  rw [cell,nextCell,length_tabulate,length_tabulate]
  dsimp only
  rw [scoreAt_earlier (Nat.zero_le _) hj (Or.inr ⟨rfl,Nat.lt_succ_self j⟩)]

theorem cell_succ_succ (hi : i + 1 ≤ student.length) (hj : j + 1 ≤ teacher.length) :
    cell kw student teacher (i + 1) (j + 1) =
      bestCell kw student teacher (dpTable kw student teacher) (i + 1) (j + 1) := by
  rw [cell,nextCell,length_tabulate,length_tabulate]
  dsimp only
  refine bestCell_congr (fun i' j' hi' hj' hlt => ?_) (Nat.succ_pos i) (Nat.succ_pos j)
  exact scoreAt_earlier hi hj (by omega)

end

section
variable {α : Type*} [LinearOrder α]

theorem score_le_better (best cand : Cell α) :
    best.score ≤ (better best cand).score ∧ cand.score ≤ (better best cand).score := by
  rw [better]
  split_ifs with hlt
  · exact ⟨hlt.le,le_rfl⟩
  · exact ⟨le_rfl,not_lt.mp hlt⟩

theorem score_le_foldl_better {best cand : Cell α} {cands : List (Cell α)}
    (h : cand ∈ best :: cands) : cand.score ≤ (cands.foldl better best).score := by
  induction cands generalizing best cand with
  | nil => rw [List.mem_singleton.mp h]; exact le_rfl
  | cons next cands ih =>
    rw [List.foldl_cons]
    have hstep := score_le_better best next
    have hfold := ih (List.mem_cons_self (a := better best next))
    rcases List.mem_cons.mp h with rfl | h
    · exact hstep.1.trans hfold
    · rcases List.mem_cons.mp h with rfl | h
      · exact hstep.2.trans hfold
      · exact ih (List.mem_cons_of_mem _ h)

end

theorem mem_combinationLengths {α : Type*} {kw : DpKwargs α} {n k : ℕ} :
    k ∈ combinationLengths kw n ↔ 2 ≤ k ∧ k ≤ n ∧ k ≤ kw.maxCombinationLen := by
  rw [combinationLengths,List.mem_range'_1]
  omega

section
variable {α : Type*} [CommRing α] [LinearOrder α] {kw : DpKwargs α} {student teacher : List Token}
  {i j : ℕ}

/-- The entry stores a step into `(i, j)` and what the step makes of the score it starts from. -/
def Realises (kw : DpKwargs α) (student teacher : List Token) (i j : ℕ) (c : Cell α) : Prop :=
  ∃ pair i' j' score, traceStep student teacher i j c.move = some (pair,i',j') ∧
    AlignStep kw student teacher (i',j') pair score (i,j) ∧
    c.score = scoreAt (dpTable kw student teacher) i' j' + score

theorem realises_diag (hi : i < student.length) (hj : j < teacher.length) :
    Realises kw student teacher (i + 1) (j + 1)
      ⟨scoreAt (dpTable kw student teacher) i j +
        (if stringsEqualFlexible (student.getD i []) (teacher.getD j []) kw.ignoreLeadingCharDiff
          then kw.exactMatchScore else -kw.exactMatchScore),.diag⟩ :=
  ⟨_,_,_,_,rfl,AlignStep.oneToOne hi hj,rfl⟩

theorem realises_up (hi : i < student.length) (hj : j ≤ teacher.length) :
    Realises kw student teacher (i + 1) j
      ⟨scoreAt (dpTable kw student teacher) i j + kw.gapPenalty,.up⟩ :=
  ⟨_,_,_,_,rfl,AlignStep.studentGap hi hj,rfl⟩

theorem realises_left (hi : i ≤ student.length) (hj : j < teacher.length) :
    Realises kw student teacher i (j + 1)
      ⟨scoreAt (dpTable kw student teacher) i j + kw.gapPenalty,.left⟩ :=
  ⟨_,_,_,_,rfl,AlignStep.teacherGap hi hj,rfl⟩

theorem realises_overTeacher {k : ℕ} (hi : i < student.length) (hj : j < teacher.length)
    (hk : k ∈ combinationLengths kw (j + 1))
    (heq : stringsEqualFlexible (student.getD i []) (slice teacher (j + 1 - k) (j + 1)).flatten
      kw.ignoreLeadingCharDiff = true) :
    Realises kw student teacher (i + 1) (j + 1)
      ⟨scoreAt (dpTable kw student teacher) i (j + 1 - k) + kw.combinationScoreMultiplier * k,
        .combS1OverS2 k⟩ := by
  obtain ⟨htwo,hle,hmax⟩ := mem_combinationLengths.mp hk
  obtain ⟨b,hb⟩ : ∃ b, j + 1 = b + k := ⟨j + 1 - k,by omega⟩
  rw [hb,Nat.add_sub_cancel] at heq ⊢
  have htrace : traceStep student teacher (i + 1) (b + k) (.combS1OverS2 k) =
      some (⟨.span student i (i + 1),.span teacher b (b + k),false⟩,i,b) := by
    simp only [traceStep,Nat.add_sub_cancel]
  exact ⟨_,_,_,_,htrace,AlignStep.oneToMany htwo hmax hi (by omega) heq,rfl⟩

theorem realises_overStudent {k : ℕ} (hi : i < student.length) (hj : j < teacher.length)
    (hk : k ∈ combinationLengths kw (i + 1))
    (heq : stringsEqualFlexible (teacher.getD j []) (slice student (i + 1 - k) (i + 1)).flatten
      kw.ignoreLeadingCharDiff = true) :
    Realises kw student teacher (i + 1) (j + 1)
      ⟨scoreAt (dpTable kw student teacher) (i + 1 - k) j + kw.combinationScoreMultiplier * k,
        .combS2OverS1 k⟩ := by
  obtain ⟨htwo,hle,hmax⟩ := mem_combinationLengths.mp hk
  obtain ⟨a,ha⟩ : ∃ a, i + 1 = a + k := ⟨i + 1 - k,by omega⟩
  rw [ha,Nat.add_sub_cancel] at heq ⊢
  have htrace : traceStep student teacher (a + k) (j + 1) (.combS2OverS1 k) =
      some (⟨.span student a (a + k),.span teacher j (j + 1),false⟩,a,j) := by
    simp only [traceStep,Nat.add_sub_cancel]
  exact ⟨_,_,_,_,htrace,AlignStep.manyToOne htwo hmax (by omega) hj heq,rfl⟩

theorem cell_realises (kw : DpKwargs α) (hi : i ≤ student.length) (hj : j ≤ teacher.length)
    (hij : ¬ (i = 0 ∧ j = 0)) :
    Realises kw student teacher i j (cell kw student teacher i j) := by
  cases i with
  | zero =>
    cases j with
    | zero => exact absurd ⟨rfl,rfl⟩ hij
    | succ j =>
      rw [cell_zero_succ hj]
      exact realises_left (Nat.zero_le _) hj
  | succ i =>
    cases j with
    | zero =>
      rw [cell_succ_zero hi]
      exact realises_up hi (Nat.zero_le _)
    | succ j =>
      rw [cell_succ_succ hi hj]
      refine foldl_better_of (P := Realises kw student teacher (i + 1) (j + 1)) (realises_diag hi hj) ?_
      intro cand hcand
      rcases List.mem_cons.mp hcand with rfl | hcand
      · exact realises_up hi hj
      rcases List.mem_cons.mp hcand with rfl | hcand
      · exact realises_left hi hj
      rcases List.mem_append.mp hcand with hcand | hcand
      · obtain ⟨k,hk,hcell⟩ := List.mem_filterMap.mp hcand
        split at hcell
        · rename_i heq
          cases hcell
          exact realises_overTeacher hi hj hk heq
        · cases hcell
      · obtain ⟨k,hk,hcell⟩ := List.mem_filterMap.mp hcand
        split at hcell
        · rename_i heq
          cases hcell
          exact realises_overStudent hi hj hk heq
        · cases hcell

theorem candidate_le (hi : i < student.length) (hj : j < teacher.length) {best : Cell α}
    (cand : Cell α) {cands : List (Cell α)}
    (hbest : bestCell kw student teacher (dpTable kw student teacher) (i + 1) (j + 1) =
      cands.foldl better best) (hcand : cand ∈ best :: cands) :
    cand.score ≤ scoreAt (dpTable kw student teacher) (i + 1) (j + 1) := by
  rw [scoreAt_dpTable hi hj,cell_succ_succ hi hj,hbest]
  exact score_le_foldl_better hcand

theorem step_le {u v : ℕ × ℕ} {pair : AlignmentPair} {score : α}
    (h : AlignStep kw student teacher u pair score v) :
    scoreAt (dpTable kw student teacher) u.1 u.2 + score ≤
      scoreAt (dpTable kw student teacher) v.1 v.2 := by
  cases h with
  | @studentGap i j hi hj =>
    cases j with
    | zero =>
      rw [scoreAt_dpTable hi hj,cell_succ_zero hi]
    | succ j =>
      exact candidate_le hi hj ⟨scoreAt (dpTable kw student teacher) i (j + 1) + kw.gapPenalty,.up⟩
        rfl (List.mem_cons_of_mem _ List.mem_cons_self)
  | @teacherGap i j hi hj =>
    cases i with
    | zero =>
      rw [scoreAt_dpTable hi hj,cell_zero_succ hj]
    | succ i =>
      exact candidate_le hi hj ⟨scoreAt (dpTable kw student teacher) (i + 1) j + kw.gapPenalty,.left⟩
        rfl (List.mem_cons_of_mem _ (List.mem_cons_of_mem _ List.mem_cons_self))
  | @oneToOne i j hi hj =>
    exact candidate_le hi hj ⟨_,.diag⟩ rfl List.mem_cons_self
  | @oneToMany i j k hk hmax hi hj heq =>
    obtain ⟨b,hb⟩ : ∃ b, j + k = b + 1 := ⟨j + k - 1,by omega⟩
    have hstart : b + 1 - k = j := by omega
    rw [hb] at heq ⊢
    refine candidate_le hi (by omega) ⟨scoreAt (dpTable kw student teacher) i j +
      kw.combinationScoreMultiplier * k,.combS1OverS2 k⟩ rfl (List.mem_cons_of_mem _
      (List.mem_cons_of_mem _ (List.mem_cons_of_mem _ (List.mem_append_left _
        (List.mem_filterMap.mpr ⟨k,mem_combinationLengths.mpr (by omega),?_⟩)))))
    rw [hstart]
    exact if_pos heq
  | @manyToOne i j k hk hmax hi hj heq =>
    obtain ⟨a,ha⟩ : ∃ a, i + k = a + 1 := ⟨i + k - 1,by omega⟩
    have hstart : a + 1 - k = i := by omega
    rw [ha] at heq ⊢
    refine candidate_le (by omega) hj ⟨scoreAt (dpTable kw student teacher) i j +
      kw.combinationScoreMultiplier * k,.combS2OverS1 k⟩ rfl (List.mem_cons_of_mem _
      (List.mem_append_right (_ :: _ :: _) (List.mem_filterMap.mpr
        ⟨k,mem_combinationLengths.mpr (by omega),?_⟩)))
    rw [hstart]
    exact if_pos heq

/-- The step that the trace takes back, as `traceBack` does. -/
def backStep (kw : DpKwargs α) (student teacher : List Token) (v : ℕ × ℕ) :
    Option (AlignmentPair × ℕ × ℕ) :=
  if v.1 = 0 ∧ v.2 = 0 then none
  else traceStep student teacher v.1 v.2 (moveAt (dpTable kw student teacher) v.1 v.2)

theorem traceBack_eq_follow (fuel : ℕ) (v : ℕ × ℕ) (aligned : List AlignmentPair) :
    traceBack (moveAt (dpTable kw student teacher)) student teacher fuel v.1 v.2 aligned =
      follow (backStep kw student teacher) fuel v aligned := by
  induction fuel generalizing v aligned with
  | zero => rfl
  | succ fuel ih =>
    rw [traceBack,follow,backStep]
    split_ifs with hv
    · rfl
    · cases traceStep student teacher v.1 v.2 (moveAt (dpTable kw student teacher) v.1 v.2) with
      | none => rfl
      | some back => exact ih back.2 (back.1 :: aligned)

omit [LinearOrder α] in
theorem AlignStep.bounds {u v : ℕ × ℕ} {pair : AlignmentPair} {score : α}
    (h : AlignStep kw student teacher u pair score v) :
    (u.1 ≤ student.length ∧ u.2 ≤ teacher.length) ∧ u.1 + u.2 < v.1 + v.2 := by
  cases h <;> dsimp only <;> omega

theorem dp_attains (kw : DpKwargs α) (student teacher : List Token) :
    Attains (AlignStep kw student teacher)
      (fun v => scoreAt (dpTable kw student teacher) v.1 v.2) (backStep kw student teacher) (0,0)
      (fun v => v.1 ≤ student.length ∧ v.2 ≤ teacher.length) (fun v => v.1 + v.2) := by
  refine ⟨rfl,?_,?_⟩
  · dsimp only
    rw [scoreAt_dpTable (Nat.zero_le _) (Nat.zero_le _),cell_zero_zero]
  · rintro ⟨i,j⟩ ⟨hi,hj⟩ hne
    have hij : ¬ (i = 0 ∧ j = 0) := fun h => hne (Prod.ext h.1 h.2)
    obtain ⟨pair,i',j',score,htrace,hstep,hscore⟩ := cell_realises kw hi hj hij
    refine ⟨pair,(i',j'),score,?_,hstep,?_,hstep.bounds.1,hstep.bounds.2⟩
    · rw [backStep,if_neg hij,moveAt_dpTable hi hj]
      exact htrace
    · dsimp only
      rw [scoreAt_dpTable hi hj]
      exact hscore

variable [IsOrderedAddMonoid α]

/-- An alignment: a path of steps from the beginning of both sequences to their ends. -/
abbrev Alignment (kw : DpKwargs α) (student teacher : List Token) (pairs : List AlignmentPair)
    (total : α) : Prop :=
  Path (AlignStep kw student teacher) (0,0) (student.length,teacher.length) pairs total

/-- The pairs of the trace are an alignment with the returned score, and no alignment has a
higher one. -/
theorem alignDp_optimal (kw : DpKwargs α) (student teacher : List Token) :
    Alignment kw student teacher (alignDp kw student teacher).1 (alignDp kw student teacher).2 ∧
      IsGreatest {total | ∃ pairs, Alignment kw student teacher pairs total}
        (alignDp kw student teacher).2 := by
  have hbest := (dp_attains kw student teacher).greatest
    (v := (student.length,teacher.length)) (fun _ _ _ _ => step_le) ⟨le_rfl,le_rfl⟩ le_rfl
  rw [← traceBack_eq_follow] at hbest
  exact hbest

/-- The scores of the aligner's defaults, with combinations of up to four tokens. -/
def defaultKwargs : DpKwargs ℚ := ⟨⟨3,3/2,-3/2⟩,4,false⟩

/-- One token against the two that spell it. -/
theorem alignDp_optimal_combination :
    (alignDp defaultKwargs [['a','b']] [['a'],['b']]).2 = 3 ∧
      IsGreatest {total | ∃ pairs, Alignment defaultKwargs [['a','b']] [['a'],['b']] pairs total} 3 := by
  have hscore : (alignDp defaultKwargs [['a','b']] [['a'],['b']]).2 = 3 := by decide +kernel
  have hbest := (alignDp_optimal defaultKwargs [['a','b']] [['a'],['b']]).2
  rw [hscore] at hbest
  exact ⟨hscore,hbest⟩

end

end XToken
end DockyardRL
