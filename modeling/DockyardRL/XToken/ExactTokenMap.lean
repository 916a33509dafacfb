import DockyardRL.Lib.Numerals
import DockyardRL.XToken.Projection
import Mathlib

/-! The tokens that the vocabularies of a student and a teacher have in common: every student token asks
for the teacher token of its greatest weight, and every teacher token takes one of those that ask. -/
namespace DockyardRL
namespace XToken

open Numerals Scatter SortByKey

/-- What `get_topk_projection` returns: two arrays of one shape, with the index `-1` where an entry is
missing. -/
structure TopkProjection (K : Type) where
  width : ℕ
  indices : List (List ℤ)
  likelihoods : List (List K)
  length_likelihoods : likelihoods.length = indices.length
  width_indices : ∀ row ∈ indices, row.length = width
  width_likelihoods : ∀ row ∈ likelihoods, row.length = width

/-- A student token that asks for a teacher token. -/
structure Candidate (K : Type) where
  student : ℕ
  teacher : ℕ
  prob : K
  deriving DecidableEq

section Build

variable {K : Type} [Field K] [LinearOrder K]

namespace TopkProjection

variable (p : TopkProjection K)

def vStudent : ℕ := p.indices.length

def index (s k : ℕ) : ℤ := (p.indices.getD s []).getD k (-1)

def weight (s k : ℕ) : K := (p.likelihoods.getD s []).getD k 0

end TopkProjection

/-- `torch.sort(row, descending=True)`: the values with where they stood, ties in any order. -/
structure SortsDescending (sort : List K → List (K × ℕ)) : Prop where
  perm : ∀ row, (sort row).Perm row.zipIdx
  descending : ∀ row, (sort row).Pairwise fun a b => b.1 ≤ a.1

variable (sort : List K → List (K × ℕ)) (xtokenLoss : Bool) (teacherVocabSize : ℕ)
  (p : TopkProjection K)

/-- `sorted_values[s, 0]` and `sorted_in_topk[s, 0]`. -/
def sortedFirst (s : ℕ) : K × ℕ := (sort (p.likelihoods.getD s [])).headD (0,0)

def hasExactMap (s : ℕ) : Bool :=
  if xtokenLoss then 6 / 10 ≤ (sortedFirst sort p s).1
  else (sortedFirst sort p s).1 = 1 ∧ p.index s 1 = -1

def sCandidates : List ℕ := (List.range p.vStudent).filter (hasExactMap sort xtokenLoss p)

def inBounds (candidates : List ℕ) : List (Candidate K) :=
  candidates.filterMap fun s =>
    let t := p.index s (sortedFirst sort p s).2
    if 0 ≤ t ∧ t < teacherVocabSize then some ⟨s,t.toNat,(sortedFirst sort p s).1⟩ else none

def maxProbPerT (vec : List (Candidate K)) : List (WithBot K) :=
  scatterReduce max (List.replicate teacherVocabSize ⊥) (vec.map fun c => (c.teacher,(c.prob : WithBot K)))

def eligible (vec : List (Candidate K)) (c : Candidate K) : Bool :=
  if xtokenLoss then (maxProbPerT teacherVocabSize vec).getD c.teacher ⊥ ≤ (c.prob : WithBot K) else true

/-- `min_s_per_t`, with the size of the student vocabulary for those that are not eligible. -/
def minSPerT (vStudent : ℕ) (vec : List (Candidate K)) : List ℕ :=
  scatterReduce min (List.replicate teacherVocabSize vStudent) (vec.map fun c =>
    (c.teacher,if eligible xtokenLoss teacherVocabSize vec c then c.student else vStudent))

/-- `winner_mask`. -/
def winners (vStudent : ℕ) (vec : List (Candidate K)) : List (Candidate K) :=
  vec.filter fun c => eligible xtokenLoss teacherVocabSize vec c ∧
    c.student = (minSPerT xtokenLoss teacherVocabSize vStudent vec).getD c.teacher vStudent

/-- `(~mask).nonzero()`, for the mask that is set at the tokens. -/
def unmasked (n : ℕ) (tokens : List ℕ) : List ℕ :=
  let mask := Gather.scatter (List.replicate n false) tokens (List.replicate tokens.length true)
  (List.range n).filter fun i => !mask.getD i false

def buildExactTokenMap : Except ProjectionError VocabPartition :=
  if p.width = 0 then .error .index
  else if xtokenLoss = false ∧ p.width ≤ 1 then .error .index
  else
    let candidates := sCandidates sort xtokenLoss p
    if candidates = [] then
      .ok ⟨[],[],List.range p.vStudent,List.range teacherVocabSize,rfl⟩
    else
      let vec := inBounds sort teacherVocabSize p candidates
      let common := sortByKey Candidate.student (winners xtokenLoss teacherVocabSize p.vStudent vec)
      let commonStudent := common.map Candidate.student
      let commonTeacher := common.map Candidate.teacher
      .ok ⟨commonStudent,commonTeacher,unmasked p.vStudent commonStudent,
        unmasked teacherVocabSize commonTeacher,by rw [List.length_map,List.length_map]⟩

/-- The criterion of the mode, for an entry of a student token. -/
def MeetsCriterion (s k : ℕ) : Prop :=
  if xtokenLoss then 6 / 10 ≤ p.weight s k else p.weight s k = 1 ∧ p.index s 1 = -1

def topColumn (s : ℕ) : ℕ := (sortedFirst sort p s).2

/-- A student token competes for a teacher token of the vocabulary. -/
structure Competes (s t : ℕ) : Prop where
  student_lt : s < p.vStudent
  teacher_lt : t < teacherVocabSize
  mapped : p.index s (topColumn sort p s) = t
  criterion : MeetsCriterion xtokenLoss p s (topColumn sort p s)

/-- A student token wins against another one: by its place, or first by its weight. -/
def Beats (s s' : ℕ) : Prop :=
  if xtokenLoss then
    p.weight s' (topColumn sort p s') < p.weight s (topColumn sort p s) ∨
      p.weight s' (topColumn sort p s') = p.weight s (topColumn sort p s) ∧ s ≤ s'
  else s ≤ s'

def columnsRead (xtokenLoss : Bool) : ℕ := if xtokenLoss then 1 else 2

/-- The common pairs are a matching of those that compete, and the others are the complements. -/
structure IsTokenMap (result : VocabPartition) : Prop where
  top_lt : ∀ s < p.vStudent, topColumn sort p s < p.width
  top_weight : ∀ s < p.vStudent, ∀ k < p.width, p.weight s k ≤ p.weight s (topColumn sort p s)
  nodup_student : result.commonStudent.Nodup
  nodup_teacher : result.commonTeacher.Nodup
  mem_common : ∀ s t, (s,t) ∈ result.commonStudent.zip result.commonTeacher ↔
    Competes sort xtokenLoss teacherVocabSize p s t ∧
      ∀ s', Competes sort xtokenLoss teacherVocabSize p s' t → Beats sort xtokenLoss p s s'
  common_of_competes : ∀ s t, Competes sort xtokenLoss teacherVocabSize p s t →
    t ∈ result.commonTeacher
  uncommonStudent : result.uncommonStudent =
    (List.range p.vStudent).filter fun s => s ∉ result.commonStudent
  uncommonTeacher : result.uncommonTeacher =
    (List.range teacherVocabSize).filter fun t => t ∉ result.commonTeacher

section Winners

variable {xtokenLoss teacherVocabSize} {vStudent : ℕ} {vec : List (Candidate K)}

omit [Field K] in
theorem eligible_iff {c : Candidate K} (hc : c.teacher < teacherVocabSize) :
    eligible xtokenLoss teacherVocabSize vec c = true ↔
      (xtokenLoss = true → ∀ c' ∈ vec, c'.teacher = c.teacher → c'.prob ≤ c.prob) := by
  cases xtokenLoss with
  | false => simp [eligible]
  | true =>
    obtain ⟨y,hget,hmem,-,hall⟩ := scatterReduce_spec selects_max
      (vec.map fun c => (c.teacher,(c.prob : WithBot K)))
      (List.getElem?_replicate_of_lt (a := (⊥ : WithBot K)) hc)
    have hy : (maxProbPerT teacherVocabSize vec).getD c.teacher ⊥ = y := by
      rw [List.getD_eq_getElem?_getD,maxProbPerT,hget,Option.getD_some]
    simp only [eligible,if_true,hy,decide_eq_true_iff,forall_const]
    constructor
    · intro hle c' hc' hteacher
      exact WithBot.coe_le_coe.mp ((hall _ (List.mem_map.mpr ⟨c',hc',by rw [hteacher]⟩)).trans hle)
    · intro hbest
      rcases hmem with rfl | hmem
      · exact bot_le
      · obtain ⟨c',hc',heq⟩ := List.mem_map.mp hmem
        obtain ⟨hteacher,rfl⟩ := Prod.mk.inj heq
        exact WithBot.coe_le_coe.mpr (hbest c' hc' hteacher)

omit [Field K] in
theorem mem_winners_iff (hteachers : ∀ c ∈ vec, c.teacher < teacherVocabSize)
    (hstudents : ∀ c ∈ vec, c.student < vStudent) {c : Candidate K} :
    c ∈ winners xtokenLoss teacherVocabSize vStudent vec ↔
      c ∈ vec ∧ eligible xtokenLoss teacherVocabSize vec c = true ∧ ∀ c' ∈ vec,
        c'.teacher = c.teacher → eligible xtokenLoss teacherVocabSize vec c' = true →
          c.student ≤ c'.student := by
  rw [winners,List.mem_filter,decide_eq_true_iff]
  refine and_congr_right fun hc => and_congr_right fun helig => ?_
  obtain ⟨y,hget,hmem,-,hall⟩ := scatterReduce_spec selects_min
    (vec.map fun c => (c.teacher,
      if eligible xtokenLoss teacherVocabSize vec c then c.student else vStudent))
    (List.getElem?_replicate_of_lt (a := vStudent) (hteachers c hc))
  have hy : (minSPerT xtokenLoss teacherVocabSize vStudent vec).getD c.teacher vStudent = y := by
    rw [List.getD_eq_getElem?_getD,minSPerT,hget,Option.getD_some]
  have hle : y ≤ c.student := hall _ (List.mem_map.mpr ⟨c,hc,by rw [if_pos helig]⟩)
  rw [hy]
  constructor
  · rintro rfl c' hc' hteacher helig'
    exact hall _ (List.mem_map.mpr ⟨c',hc',by rw [if_pos helig',hteacher]⟩)
  · intro hfirst
    refine le_antisymm ?_ hle
    rcases hmem with rfl | hmem
    · exact (hstudents c hc).le
    · obtain ⟨c',hc',heq⟩ := List.mem_map.mp hmem
      obtain ⟨hteacher,hvalue⟩ := Prod.mk.inj heq
      split_ifs at hvalue with helig'
      · exact hvalue ▸ hfirst c' hc' hteacher helig'
      · exact hvalue ▸ (hstudents c hc).le

omit [Field K] in
theorem exists_winner (hteachers : ∀ c ∈ vec, c.teacher < teacherVocabSize)
    (hstudents : ∀ c ∈ vec, c.student < vStudent) {c : Candidate K} (hc : c ∈ vec) :
    ∃ w ∈ winners xtokenLoss teacherVocabSize vStudent vec, w.teacher = c.teacher := by
  have hsame : ∀ {d}, d ∈ (vec.filter fun d => d.teacher = c.teacher).toFinset ↔
      d ∈ vec ∧ d.teacher = c.teacher := by simp
  obtain ⟨m,hm,hmax⟩ := (vec.filter fun d => d.teacher = c.teacher).toFinset.exists_max_image
    Candidate.prob ⟨c,hsame.mpr ⟨hc,rfl⟩⟩
  obtain ⟨hmem,hteacher⟩ := hsame.mp hm
  have helig : eligible xtokenLoss teacherVocabSize vec m = true :=
    (eligible_iff (hteachers m hmem)).mpr fun _ d hd heq => hmax d (hsame.mpr ⟨hd,heq.trans hteacher⟩)
  have hchosen : ∀ {d}, d ∈ (vec.filter fun d => d.teacher = c.teacher ∧
      eligible xtokenLoss teacherVocabSize vec d).toFinset ↔
        d ∈ vec ∧ d.teacher = c.teacher ∧ eligible xtokenLoss teacherVocabSize vec d := by simp
  obtain ⟨w,hw,hmin⟩ := (vec.filter fun d => d.teacher = c.teacher ∧
    eligible xtokenLoss teacherVocabSize vec d).toFinset.exists_min_image Candidate.student
      ⟨m,hchosen.mpr ⟨hmem,hteacher,helig⟩⟩
  obtain ⟨hwmem,hwteacher,hwelig⟩ := hchosen.mp hw
  refine ⟨w,(mem_winners_iff hteachers hstudents).mpr ⟨hwmem,hwelig,fun d hd heq hdelig => ?_⟩,hwteacher⟩
  exact hmin d (hchosen.mpr ⟨hd,heq.trans hwteacher,hdelig⟩)

omit [Field K] in
theorem mem_winners_iff_beats (hteachers : ∀ c ∈ vec, c.teacher < teacherVocabSize)
    (hstudents : ∀ c ∈ vec, c.student < vStudent) {c : Candidate K} :
    c ∈ winners xtokenLoss teacherVocabSize vStudent vec ↔
      c ∈ vec ∧ ∀ c' ∈ vec, c'.teacher = c.teacher →
        if xtokenLoss then c'.prob < c.prob ∨ c'.prob = c.prob ∧ c.student ≤ c'.student
        else c.student ≤ c'.student := by
  rw [mem_winners_iff hteachers hstudents]
  refine and_congr_right fun hc => ?_
  cases xtokenLoss with
  | false => simp [eligible]
  | true =>
    have helig := fun d (hd : d ∈ vec) => @eligible_iff K _ true _ vec d (hteachers d hd)
    simp only [forall_const] at helig
    simp only [if_true]
    constructor
    · rintro ⟨hbest,hfirst⟩ c' hc' hteacher
      rcases lt_or_eq_of_le ((helig c hc).mp hbest c' hc' hteacher) with hlt | heq
      · exact .inl hlt
      · refine .inr ⟨heq,hfirst c' hc' hteacher ((helig c' hc').mpr fun d hd hd' => ?_)⟩
        rw [heq]
        exact (helig c hc).mp hbest d hd (hd'.trans hteacher)
    · intro hbeats
      refine ⟨(helig c hc).mpr fun c' hc' hteacher => ?_,fun c' hc' hteacher helig' => ?_⟩
      · rcases hbeats c' hc' hteacher with hlt | ⟨heq,-⟩
        · exact hlt.le
        · exact heq.le
      · rcases hbeats c' hc' hteacher with hlt | ⟨-,hle⟩
        · exact absurd ((helig c' hc').mp helig' c hc hteacher.symm) (not_le.mpr hlt)
        · exact hle

end Winners

section Candidates

variable {sort xtokenLoss teacherVocabSize p}

theorem sortedFirst_spec (hsort : SortsDescending sort) (hwidth : 0 < p.width) {s : ℕ}
    (hs : s < p.vStudent) : (sortedFirst sort p s).2 < p.width ∧
      (sortedFirst sort p s).1 = p.weight s (sortedFirst sort p s).2 ∧
      ∀ k < p.width, p.weight s k ≤ (sortedFirst sort p s).1 := by
  have hrows : s < p.likelihoods.length := p.length_likelihoods ▸ hs
  have hrow : (p.likelihoods.getD s []).length = p.width := by
    rw [List.getD_eq_getElem _ _ hrows]
    exact p.width_likelihoods _ (List.getElem_mem hrows)
  simp only [sortedFirst,TopkProjection.weight]
  generalize p.likelihoods.getD s [] = row at hrow
  have hmem : ∀ e, e ∈ sort row ↔ row[e.2]? = some e.1 := fun e => by
    rw [(hsort.perm row).mem_iff,List.mem_zipIdx_iff_getElem?]
  have hdesc := hsort.descending row
  cases hsorted : sort row with
  | nil =>
    have hlength := (hsort.perm row).length_eq
    rw [hsorted,List.length_zipIdx] at hlength
    exact absurd (hrow ▸ hlength) (by simpa using hwidth.ne)
  | cons e rest =>
    rw [hsorted] at hmem hdesc
    have hfirst := (hmem e).mp List.mem_cons_self
    refine ⟨hrow ▸ (List.getElem?_eq_some_iff.mp hfirst).1,?_,fun k hk => ?_⟩
    · simp [hfirst]
    · rw [← hrow] at hk
      have hk' := (hmem (row[k],k)).mpr (List.getElem?_eq_getElem hk)
      rw [List.getD_eq_getElem _ _ hk]
      rcases List.mem_cons.mp hk' with heq | hrest
      · exact (congrArg Prod.fst heq).le
      · exact (List.pairwise_cons.mp hdesc).1 _ hrest

theorem hasExactMap_iff (hsort : SortsDescending sort) (hwidth : 0 < p.width) {s : ℕ}
    (hs : s < p.vStudent) : hasExactMap sort xtokenLoss p s = true ↔
      MeetsCriterion xtokenLoss p s (topColumn sort p s) := by
  obtain ⟨-,hvalue,-⟩ := sortedFirst_spec hsort hwidth hs
  rw [hasExactMap,MeetsCriterion,topColumn,← hvalue]
  cases xtokenLoss <;> simp

theorem mem_sCandidates_iff (hsort : SortsDescending sort) (hwidth : 0 < p.width) {s : ℕ} :
    s ∈ sCandidates sort xtokenLoss p ↔
      s < p.vStudent ∧ MeetsCriterion xtokenLoss p s (topColumn sort p s) := by
  rw [sCandidates,List.mem_filter,List.mem_range]
  exact and_congr_right fun hs => hasExactMap_iff hsort hwidth hs

theorem mem_inBounds_iff (hsort : SortsDescending sort) (hwidth : 0 < p.width) {c : Candidate K} :
    c ∈ inBounds sort teacherVocabSize p (sCandidates sort xtokenLoss p) ↔
      Competes sort xtokenLoss teacherVocabSize p c.student c.teacher ∧
        c.prob = p.weight c.student (topColumn sort p c.student) := by
  rw [inBounds,List.mem_filterMap]
  constructor
  · rintro ⟨s,hs,hsome⟩
    obtain ⟨hlt,hcriterion⟩ := (mem_sCandidates_iff hsort hwidth).mp hs
    dsimp only at hsome
    split_ifs at hsome with hbounds
    cases hsome
    refine ⟨⟨hlt,by dsimp only; omega,(Int.toNat_of_nonneg hbounds.1).symm,hcriterion⟩,?_⟩
    exact (sortedFirst_spec hsort hwidth hlt).2.1
  · rintro ⟨hcompetes,hprob⟩
    refine ⟨c.student,(mem_sCandidates_iff hsort hwidth).mpr
      ⟨hcompetes.student_lt,hcompetes.criterion⟩,?_⟩
    have hmapped : p.index c.student (sortedFirst sort p c.student).2 = c.teacher := hcompetes.mapped
    have hvalue := (sortedFirst_spec hsort hwidth hcompetes.student_lt).2.1
    have hlt := hcompetes.teacher_lt
    dsimp only
    rw [hmapped,if_pos ⟨Int.natCast_nonneg _,by exact_mod_cast hlt⟩,hvalue,Int.toNat_natCast]
    exact congrArg some (by rw [show p.weight c.student (sortedFirst sort p c.student).2 = c.prob from
      hprob.symm])

theorem pairwise_inBounds : (inBounds sort teacherVocabSize p (sCandidates sort xtokenLoss p)).Pairwise
    fun c d => c.student < d.student := by
  rw [inBounds,List.pairwise_filterMap]
  refine (List.pairwise_lt_range.filter _).imp fun hlt c hc d hd => ?_
  dsimp only at hc hd
  split_ifs at hc
  split_ifs at hd
  cases hc
  cases hd
  exact hlt

end Candidates

theorem unmasked_eq {n : ℕ} {tokens : List ℕ} (hnodup : tokens.Nodup) (htokens : ∀ i ∈ tokens, i < n) :
    unmasked n tokens = (List.range n).filter fun i => i ∉ tokens := by
  refine List.filter_congr fun i hi => ?_
  have hlt : i < n := List.mem_range.mp hi
  rw [List.getD_eq_getElem?_getD]
  by_cases hmem : i ∈ tokens
  · obtain ⟨k,hk,rfl⟩ := List.getElem_of_mem hmem
    rw [Gather.getElem?_scatter_mem hnodup (by simpa [Gather.Within] using htokens) (by simp) hk]
    simp [hk]
  · rw [Gather.getElem?_scatter_of_notMem _ _ hmem]
    simp [hlt,hmem]

def commonPairs : List (Candidate K) :=
  sortByKey Candidate.student (winners xtokenLoss teacherVocabSize p.vStudent
    (inBounds sort teacherVocabSize p (sCandidates sort xtokenLoss p)))

variable {sort xtokenLoss teacherVocabSize p}

theorem columnsRead_pos : 0 < columnsRead xtokenLoss := by
  cases xtokenLoss <;> decide

theorem buildExactTokenMap_ok (hwidth : columnsRead xtokenLoss ≤ p.width) :
    ∃ result, buildExactTokenMap sort xtokenLoss teacherVocabSize p = .ok result ∧
      result.commonStudent =
        (commonPairs sort xtokenLoss teacherVocabSize p).map Candidate.student ∧
      result.commonTeacher =
        (commonPairs sort xtokenLoss teacherVocabSize p).map Candidate.teacher ∧
      result.uncommonStudent = unmasked p.vStudent result.commonStudent ∧
      result.uncommonTeacher = unmasked teacherVocabSize result.commonTeacher := by
  have hzero : p.width ≠ 0 := (columnsRead_pos.trans_le hwidth).ne'
  have hone : ¬(xtokenLoss = false ∧ p.width ≤ 1) := by
    rintro ⟨rfl,hle⟩
    exact absurd (hwidth.trans hle) (by decide)
  rw [buildExactTokenMap,if_neg hzero,if_neg hone]
  by_cases hnil : sCandidates sort xtokenLoss p = []
  · have hpairs : commonPairs sort xtokenLoss teacherVocabSize p = [] := by
      rw [commonPairs,hnil]
      rfl
    have hall : ∀ n, List.range n = unmasked n [] := fun n => by
      rw [unmasked_eq List.nodup_nil fun _ h => absurd h List.not_mem_nil]
      simp
    dsimp only
    rw [if_pos hnil,hpairs]
    exact ⟨_,rfl,rfl,rfl,hall _,hall _⟩
  · dsimp only
    rw [if_neg hnil]
    exact ⟨_,rfl,rfl,rfl,rfl,rfl⟩

theorem mem_commonPairs_iff (hsort : SortsDescending sort) (hwidth : 0 < p.width) {c : Candidate K} :
    c ∈ commonPairs sort xtokenLoss teacherVocabSize p ↔
      (Competes sort xtokenLoss teacherVocabSize p c.student c.teacher ∧
        c.prob = p.weight c.student (topColumn sort p c.student)) ∧
      ∀ s', Competes sort xtokenLoss teacherVocabSize p s' c.teacher →
        Beats sort xtokenLoss p c.student s' := by
  have hvec := fun d : Candidate K => @mem_inBounds_iff K _ _ sort xtokenLoss teacherVocabSize p hsort
    hwidth d
  rw [commonPairs,(sortByKey_perm _ _).mem_iff,mem_winners_iff_beats
    (fun d hd => ((hvec d).mp hd).1.teacher_lt) (fun d hd => ((hvec d).mp hd).1.student_lt),hvec]
  refine and_congr_right fun hc => ?_
  constructor
  · intro hall s' hs'
    have hbeats := hall ⟨s',c.teacher,p.weight s' (topColumn sort p s')⟩ ((hvec _).mpr ⟨hs',rfl⟩) rfl
    rwa [hc.2] at hbeats
  · intro hall d hd hteacher
    obtain ⟨hcompetes,hprob⟩ := (hvec d).mp hd
    have hbeats := hall d.student (hteacher ▸ hcompetes)
    rwa [hprob,hc.2]

theorem commonPairs_inj (hsort : SortsDescending sort) (hwidth : 0 < p.width) {c d : Candidate K}
    (hc : c ∈ commonPairs sort xtokenLoss teacherVocabSize p)
    (hd : d ∈ commonPairs sort xtokenLoss teacherVocabSize p) (hteacher : c.teacher = d.teacher) :
    c.student = d.student := by
  obtain ⟨⟨hc,-⟩,hcbeats⟩ := (mem_commonPairs_iff hsort hwidth).mp hc
  obtain ⟨⟨hd,-⟩,hdbeats⟩ := (mem_commonPairs_iff hsort hwidth).mp hd
  have hcd := hcbeats d.student (hteacher ▸ hd)
  have hdc := hdbeats c.student (hteacher ▸ hc)
  unfold Beats at hcd hdc
  split_ifs at hcd hdc
  · rcases hcd with hlt | ⟨heq,hle⟩
    · rcases hdc with hgt | ⟨heq,-⟩
      · exact absurd hlt hgt.asymm
      · exact absurd heq hlt.ne'
    · rcases hdc with hgt | ⟨-,hge⟩
      · exact absurd heq hgt.ne'
      · exact le_antisymm hle hge
  · exact le_antisymm hcd hdc

theorem nodup_students :
    ((commonPairs sort xtokenLoss teacherVocabSize p).map Candidate.student).Nodup := by
  refine (((sortByKey_perm _ _).map _).nodup_iff).mpr ?_
  refine (List.pairwise_map.mpr ?_ : (List.map Candidate.student _).Pairwise (· < ·)).imp ne_of_lt
  exact pairwise_inBounds.filter _

theorem nodup_teachers (hsort : SortsDescending sort) (hwidth : 0 < p.width) :
    ((commonPairs sort xtokenLoss teacherVocabSize p).map Candidate.teacher).Nodup :=
  (List.Nodup.of_map _ nodup_students).map_on fun _ hc _ hd hteacher =>
    List.inj_on_of_nodup_map nodup_students hc hd (commonPairs_inj hsort hwidth hc hd hteacher)

theorem mem_zip_common (s t : ℕ) :
    (s,t) ∈ ((commonPairs sort xtokenLoss teacherVocabSize p).map Candidate.student).zip
        ((commonPairs sort xtokenLoss teacherVocabSize p).map Candidate.teacher) ↔
      ∃ c ∈ commonPairs sort xtokenLoss teacherVocabSize p, c.student = s ∧ c.teacher = t := by
  rw [List.zip_map',List.mem_map]
  simp only [Prod.mk.injEq]

theorem mem_teachers_of_competes (hsort : SortsDescending sort) (hwidth : 0 < p.width) {s t : ℕ}
    (h : Competes sort xtokenLoss teacherVocabSize p s t) :
    t ∈ (commonPairs sort xtokenLoss teacherVocabSize p).map Candidate.teacher := by
  have hvec := fun d : Candidate K => @mem_inBounds_iff K _ _ sort xtokenLoss teacherVocabSize p hsort
    hwidth d
  obtain ⟨w,hw,hteacher⟩ := exists_winner (fun d hd => ((hvec d).mp hd).1.teacher_lt)
    (fun d hd => ((hvec d).mp hd).1.student_lt)
    ((hvec ⟨s,t,p.weight s (topColumn sort p s)⟩).mpr ⟨h,rfl⟩)
  exact List.mem_map.mpr ⟨w,(sortByKey_perm _ _).mem_iff.mpr hw,hteacher⟩

theorem buildExactTokenMap_isTokenMap (hsort : SortsDescending sort)
    (hcolumns : columnsRead xtokenLoss ≤ p.width) :
    ∃ result, buildExactTokenMap sort xtokenLoss teacherVocabSize p = .ok result ∧
      IsTokenMap sort xtokenLoss teacherVocabSize p result := by
  have hwidth : 0 < p.width := columnsRead_pos.trans_le hcolumns
  obtain ⟨result,hok,hstudent,hteacher,hrestS,hrestT⟩ :=
    @buildExactTokenMap_ok K _ _ sort xtokenLoss teacherVocabSize p hcolumns
  have hmem := fun c : Candidate K =>
    @mem_commonPairs_iff K _ _ sort xtokenLoss teacherVocabSize p hsort hwidth c
  have hnodupS : result.commonStudent.Nodup := hstudent ▸ nodup_students
  have hnodupT : result.commonTeacher.Nodup := hteacher ▸ nodup_teachers hsort hwidth
  have hltS : ∀ s ∈ result.commonStudent, s < p.vStudent := fun s hs => by
    obtain ⟨c,hc,rfl⟩ := List.mem_map.mp (hstudent ▸ hs)
    exact ((hmem c).mp hc).1.1.student_lt
  have hltT : ∀ t ∈ result.commonTeacher, t < teacherVocabSize := fun t ht => by
    obtain ⟨c,hc,rfl⟩ := List.mem_map.mp (hteacher ▸ ht)
    exact ((hmem c).mp hc).1.1.teacher_lt
  refine ⟨result,hok,?_,?_,hnodupS,hnodupT,fun s t => ?_,fun s t h => ?_,?_,?_⟩
  · exact fun s hs => (sortedFirst_spec hsort hwidth hs).1
  · intro s hs k hk
    obtain ⟨-,hvalue,hall⟩ := sortedFirst_spec hsort hwidth hs
    exact (hall k hk).trans hvalue.le
  · rw [hstudent,hteacher,mem_zip_common]
    constructor
    · rintro ⟨c,hc,rfl,rfl⟩
      exact ⟨((hmem c).mp hc).1.1,((hmem c).mp hc).2⟩
    · rintro ⟨hcompetes,hbeats⟩
      exact ⟨⟨s,t,p.weight s (topColumn sort p s)⟩,(hmem _).mpr ⟨⟨hcompetes,rfl⟩,hbeats⟩,rfl,rfl⟩
  · rw [hteacher]
    exact mem_teachers_of_competes hsort hwidth h
  · rw [hrestS,unmasked_eq hnodupS hltS]
  · rw [hrestT,unmasked_eq hnodupT hltT]

theorem buildExactTokenMap_narrow (hcolumns : p.width < columnsRead xtokenLoss) :
    buildExactTokenMap sort xtokenLoss teacherVocabSize p = .error .index := by
  rw [buildExactTokenMap]
  by_cases hzero : p.width = 0
  · rw [if_pos hzero]
  · rw [if_neg hzero,if_pos]
    cases xtokenLoss with
    | false => exact ⟨rfl,Nat.lt_succ_iff.mp hcolumns⟩
    | true => exact absurd (Nat.lt_one_iff.mp hcolumns) hzero

/-- With the columns that a mode reads, the map is a partition by a matching; with fewer the call
raises. -/
theorem exactTokenMap_partition (hsort : SortsDescending sort) :
    (columnsRead xtokenLoss ≤ p.width →
      ∃ result, buildExactTokenMap sort xtokenLoss teacherVocabSize p = .ok result ∧
        IsTokenMap sort xtokenLoss teacherVocabSize p result) ∧
    (p.width < columnsRead xtokenLoss →
      buildExactTokenMap sort xtokenLoss teacherVocabSize p = .error .index) :=
  ⟨buildExactTokenMap_isTokenMap hsort,buildExactTokenMap_narrow⟩

end Build

def sortStable (row : List ℚ) : List (ℚ × ℕ) :=
  sortByKey (fun e => OrderDual.toDual e.1) row.zipIdx

theorem sortStable_descending : SortsDescending sortStable :=
  ⟨fun row => sortByKey_perm (fun e : ℚ × ℕ => OrderDual.toDual e.1) row.zipIdx,
    fun row => pairwise_sortByKey (fun e : ℚ × ℕ => OrderDual.toDual e.1) row.zipIdx⟩

/-- Two students that compete for the teacher token `2`, the second with the greater weight. -/
def rivals : TopkProjection ℚ :=
  ⟨2,[[2,-1],[0,2]],[[7 / 10,0],[1 / 10,9 / 10]],rfl,by decide,by decide⟩

/-- In the relaxed mode the second of the rivals wins. -/
theorem exactTokenMap_partition_rivals :
    ∃ result, buildExactTokenMap sortStable true 4 rivals = .ok result ∧
      (1,2) ∈ result.commonStudent.zip result.commonTeacher := by
  obtain ⟨result,hok,hmap⟩ := (@exactTokenMap_partition ℚ _ _ sortStable true 4 rivals
    sortStable_descending).1 (by decide)
  refine ⟨result,hok,(hmap.mem_common 1 2).mpr ⟨⟨by decide,by decide,?_,?_⟩,fun s' h => ?_⟩⟩
  · decide +kernel
  · show (6 / 10 : ℚ) ≤ rivals.weight 1 (topColumn sortStable rivals 1)
    decide +kernel
  · have hlt : s' < 2 := h.student_lt
    interval_cases s'
    · exact .inl (by decide +kernel)
    · exact .inr ⟨rfl,le_rfl⟩

def singleColumn : TopkProjection ℚ := ⟨1,[[0]],[[1]],rfl,by decide,by decide⟩

/-- In the strict mode the call raises for arrays of one column, so the only token is not common. -/
theorem singleColumn_not_map : ¬∃ result, buildExactTokenMap sortStable false 1 singleColumn =
    .ok result ∧ IsTokenMap sortStable false 1 singleColumn result := by
  rintro ⟨result,hok,-⟩
  rw [buildExactTokenMap_narrow (by decide)] at hok
  cases hok

end XToken
end DockyardRL
