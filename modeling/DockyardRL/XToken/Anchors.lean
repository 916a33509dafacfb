import DockyardRL.XToken.Tracing

/-! Anchors that survive the selection follow each other on both axes, so that the segments between
them and the anchors themselves partition the two sequences.

The repair pass puts pairs over the same tokens in the place of others, so that what was a partition
of the two axes remains one. -/
namespace DockyardRL
namespace XToken

/-- The anchor is not empty and lies within both sequences. -/
structure Anchor.Fits (student teacher : List Token) (a : Anchor) : Prop where
  pos : 0 < a.k
  student : a.i + a.k ≤ student.length
  teacher : a.j + a.k ≤ teacher.length

def Anchor.studentRange (a : Anchor) : Finset ℕ := Finset.Ico a.i (a.i + a.k)

/-- Each anchor begins after the ones before it end, on either axis. -/
def Ordered (student teacher : List Token) : ℕ → ℕ → List Anchor → Prop
  | _, _, [] => True
  | lastI, lastJ, a :: anchors =>
    (lastI ≤ a.i ∧ lastJ ≤ a.j ∧ a.Fits student teacher) ∧
      Ordered student teacher (a.i + a.k) (a.j + a.k) anchors

section
variable {student teacher : List Token} {usedStudent usedTeacher : Finset ℕ} {anchors : List Anchor}

theorem selectAnchors_sublist : (selectAnchors usedStudent usedTeacher anchors).Sublist anchors := by
  induction anchors generalizing usedStudent usedTeacher with
  | nil => exact List.Sublist.refl _
  | cons a anchors ih =>
    rw [selectAnchors]
    split
    · exact ih.cons_cons a
    · exact ih.cons a

theorem selectAnchors_unused :
    ∀ a ∈ selectAnchors usedStudent usedTeacher anchors, Disjoint a.studentRange usedStudent := by
  induction anchors generalizing usedStudent usedTeacher with
  | nil => exact fun a ha => absurd ha List.not_mem_nil
  | cons b anchors ih =>
    rw [selectAnchors]
    split
    · rename_i hfree
      intro a ha
      rcases List.mem_cons.mp ha with rfl | ha
      · exact hfree.1
      · exact (ih a ha).mono_right Finset.subset_union_left
    · exact ih

theorem selectAnchors_apart :
    (selectAnchors usedStudent usedTeacher anchors).Pairwise fun a b =>
      Disjoint a.studentRange b.studentRange := by
  induction anchors generalizing usedStudent usedTeacher with
  | nil => exact List.Pairwise.nil
  | cons a anchors ih =>
    rw [selectAnchors]
    split
    · refine List.Pairwise.cons (fun b hb => ?_) ih
      have hunused := selectAnchors_unused b hb
      exact (hunused.mono_right Finset.subset_union_right).symm
    · exact ih

theorem end_le_start {a b : Anchor} (hb : 0 < b.k) (hle : a.i ≤ b.i)
    (hapart : Disjoint a.studentRange b.studentRange) : a.i + a.k ≤ b.i := by
  by_contra hlt
  have hmem : b.i ∈ a.studentRange := Finset.mem_Ico.mpr ⟨hle,by omega⟩
  have hmem' : b.i ∈ b.studentRange := Finset.mem_Ico.mpr ⟨le_rfl,by omega⟩
  exact Finset.disjoint_left.mp hapart hmem hmem'

theorem validateAnchors_ordered {lastI lastJ : ℕ}
    (hfits : ∀ a ∈ anchors, a.Fits student teacher)
    (hsorted : anchors.Pairwise fun a b => a.i ≤ b.i)
    (hapart : anchors.Pairwise fun a b => Disjoint a.studentRange b.studentRange)
    (hlast : ∀ a ∈ anchors, lastI ≤ a.i) :
    Ordered student teacher lastI lastJ
      (validateAnchors student teacher ((lastJ : ℤ) - 1) anchors) := by
  induction anchors generalizing lastI lastJ with
  | nil => trivial
  | cons a anchors ih =>
    obtain ⟨ha,hfits⟩ := List.forall_mem_cons.mp hfits
    obtain ⟨hfirst,hsorted⟩ := List.pairwise_cons.mp hsorted
    obtain ⟨hfree,hapart⟩ := List.pairwise_cons.mp hapart
    rw [validateAnchors]
    split
    · rename_i hvalid
      have hnext : ∀ b ∈ anchors, a.i + a.k ≤ b.i := fun b hb =>
        end_le_start (hfits b hb).pos (hfirst b hb) (hfree b hb)
      have hend : (a.j : ℤ) + a.k - 1 = ((a.j + a.k : ℕ) : ℤ) - 1 := by omega
      rw [hend]
      exact ⟨⟨hlast a List.mem_cons_self,by omega,ha⟩,ih hfits hsorted hapart hnext⟩
    · exact ih hfits hsorted hapart fun b hb => hlast b (List.mem_cons_of_mem a hb)

theorem potentialAnchors_fits {k : ℕ} (hk : 0 < k) {a : Anchor}
    (h : a ∈ potentialAnchors student teacher k) : a.Fits student teacher := by
  obtain ⟨i,-,hanchor⟩ := List.mem_filterMap.mp h
  dsimp only at hanchor
  split at hanchor
  · rename_i hcond
    cases hanchor
    exact ⟨hk,hcond.2.2.1,hcond.2.2.2.1⟩
  · cases hanchor

theorem le_of_byPosition {a b : Anchor} (h : a.byPosition ≤ b.byPosition) : a.i ≤ b.i := by
  rcases Prod.Lex.toLex_le_toLex.mp h with hlt | heq
  · exact hlt.le
  · exact heq.1.le

theorem pairwise_insertionSort_key {β κ : Type*} [LinearOrder κ] (key : β → κ) (l : List β) :
    (l.insertionSort fun a b => key a ≤ key b).Pairwise fun a b => key a ≤ key b := by
  have htotal : Std.Total fun a b => key a ≤ key b := ⟨fun a b => le_total (key a) (key b)⟩
  have htrans : IsTrans β fun a b => key a ≤ key b := ⟨fun _ _ _ => le_trans⟩
  exact List.pairwise_insertionSort _ l

theorem findAnchors_ordered {anchorLengths : List ℕ} (hpos : ∀ k ∈ anchorLengths, 0 < k) :
    Ordered student teacher 0 0 (findAnchors student teacher anchorLengths) := by
  let potential := (anchorLengths.flatMap (potentialAnchors student teacher)).insertionSort
    fun a b => a.byLength ≤ b.byLength
  let chosen := selectAnchors ∅ ∅ potential
  let selected := chosen.insertionSort fun a b => a.byPosition ≤ b.byPosition
  have hperm : selected.Perm chosen := List.perm_insertionSort _ _
  have hfits : ∀ a ∈ selected, a.Fits student teacher := by
    intro a ha
    have hmem : a ∈ potential := selectAnchors_sublist.subset (hperm.mem_iff.mp ha)
    obtain ⟨k,hk,ha⟩ := List.mem_flatMap.mp ((List.perm_insertionSort _ _).mem_iff.mp hmem)
    exact potentialAnchors_fits (hpos k hk) ha
  have hsorted : selected.Pairwise fun a b => a.i ≤ b.i :=
    (pairwise_insertionSort_key Anchor.byPosition chosen).imp le_of_byPosition
  have hapart : selected.Pairwise fun a b => Disjoint a.studentRange b.studentRange :=
    (hperm.pairwise_iff fun h => h.symm).mpr selectAnchors_apart
  show Ordered student teacher 0 0
    (validateAnchors student teacher (((0 : ℕ) : ℤ) - 1) selected)
  exact validateAnchors_ordered hfits hsorted hapart fun a _ => Nat.zero_le a.i

end

section
variable {a b d e : ℤ} {pair : AlignmentPair} {pairs : List AlignmentPair}
  {student teacher : List Token}

theorem shiftPair_spells (ha : 0 ≤ a) (hb : 0 ≤ b) (hs : pair.s.Placed a) (ht : pair.t.Placed b)
    (hp : pair.s.tokens ≠ [] ∨ pair.t.tokens ≠ []) :
    Spells (a + d) (b + e) pair.s.tokens pair.t.tokens (shiftPair d e pair) := by
  let moved : AlignmentPair := ⟨pair.s.shift d,pair.t.shift e,false⟩
  have hs' : moved.s.Placed (a + d) := hs.shift ha
  have ht' : moved.t.Placed (b + e) := ht.shift hb
  have hp' : moved.s.tokens ≠ [] ∨ moved.t.tokens ≠ [] := hp
  by_cases hsplit : 1 < pair.s.tokens.length ∧ pair.s.tokens.length = pair.t.tokens.length ∧
      pair.s.tokens = pair.t.tokens ∧ 0 ≤ (pair.s.shift d).start ∧ 0 ≤ (pair.t.shift e).start
  · rw [shiftPair,if_pos hsplit]
    have hne : pair.s.tokens ≠ [] := List.ne_nil_of_length_pos (by omega)
    have hne' : pair.t.tokens ≠ [] := hsplit.2.2.1 ▸ hne
    rw [(hs'.of_nonempty hne).1,(ht'.of_nonempty hne').1]
    exact spells_oneToOne hsplit.2.1
  · rw [shiftPair,if_neg hsplit]
    have hone := Spells.cons hs' ht' hp' Spells.nil
    rw [List.append_nil,List.append_nil] at hone
    exact hone

theorem shiftPairs_spells (ha : 0 ≤ a) (hb : 0 ≤ b) (h : Aligned a b pairs) :
    Spells (a + d) (b + e) (sTokens pairs) (tTokens pairs) (shiftPairs pairs d e) := by
  induction pairs generalizing a b with
  | nil => exact Spells.nil
  | cons pair pairs ih =>
    obtain ⟨⟨hs,ht,hp⟩,hrest⟩ := aligned_cons.mp h
    have hmore := ih (by omega) (by omega) hrest
    exact (shiftPair_spells ha hb hs ht hp).append hmore (add_right_comm _ _ _)
      (add_right_comm _ _ _)

end

section
variable {α : Type*} [Zero α] [Add α] [Neg α] [Mul α] [NatCast α] [LT α] [DecidableLT α]
  {student teacher : List Token}

theorem alignSegment_spells (kw : DpKwargs α) (student teacher : List Token) (lastI lastJ : ℕ) :
    Spells lastI lastJ student teacher (alignSegment kw student teacher lastI lastJ) := by
  by_cases hne : student ≠ [] ∨ teacher ≠ []
  · rw [alignSegment,if_pos hne]
    have hdp := alignDp_spells kw student teacher
    have hshift := shiftPairs_spells (d := lastI) (e := lastJ) le_rfl le_rfl hdp.toAligned
    rw [hdp.sTokens_eq,hdp.tTokens_eq] at hshift
    simpa using hshift
  · rw [alignSegment,if_neg hne]
    push Not at hne
    rw [hne.1,hne.2]
    exact Spells.nil

theorem alignSegments_spells (kw : DpKwargs α) {anchors : List Anchor} {lastI lastJ : ℕ}
    (h : Ordered student teacher lastI lastJ anchors) :
    Spells lastI lastJ (student.drop lastI) (teacher.drop lastJ)
      (alignSegments kw student teacher lastI lastJ anchors) := by
  induction anchors generalizing lastI lastJ with
  | nil => exact alignSegment_spells kw _ _ lastI lastJ
  | cons a anchors ih =>
    obtain ⟨⟨hi,hj,hfits⟩,hrest⟩ := h
    have hend := hfits.student
    have hend' := hfits.teacher
    have hgap := alignSegment_spells kw (slice student lastI a.i) (slice teacher lastJ a.j) lastI lastJ
    have hlength : (slice student a.i (a.i + a.k)).length = a.k := by
      rw [length_slice hend]
      omega
    have hlength' : (slice teacher a.j (a.j + a.k)).length = a.k := by
      rw [length_slice hend']
      omega
    have hanchor := spells_oneToOne (a := a.i) (b := a.j) (hlength.trans hlength'.symm)
    have hgapS : (lastI : ℤ) + (slice student lastI a.i).length = a.i := by
      rw [length_slice (by omega)]
      omega
    have hgapT : (lastJ : ℤ) + (slice teacher lastJ a.j).length = a.j := by
      rw [length_slice (by omega)]
      omega
    have hnextS : (a.i : ℤ) + (slice student a.i (a.i + a.k)).length = ((a.i + a.k : ℕ) : ℤ) := by
      omega
    have hnextT : (a.j : ℤ) + (slice teacher a.j (a.j + a.k)).length = ((a.j + a.k : ℕ) : ℤ) := by
      omega
    have htail := hanchor.append (ih hrest) hnextS hnextT
    have hall := hgap.append htail hgapS hgapT
    rw [slice_append_drop (Nat.le_add_right _ _) hend,
      slice_append_drop (Nat.le_add_right _ _) hend',slice_append_drop hi (by omega),
      slice_append_drop hj (by omega),← List.append_assoc] at hall
    exact hall

theorem alignWithAnchors_spells (kw : DpKwargs α) (student teacher : List Token)
    {anchorLengths : List ℕ} (hpos : ∀ k ∈ anchorLengths, 0 < k) :
    Spells 0 0 student teacher (alignWithAnchors kw student teacher anchorLengths).1 := by
  have hdp := alignDp_spells kw student teacher
  by_cases hnil : anchorLengths = []
  · rw [alignWithAnchors,if_pos hnil]
    exact hdp
  · rw [alignWithAnchors,if_neg hnil]
    by_cases hnone : findAnchors student teacher anchorLengths = []
    · rw [if_pos hnone]
      exact hdp
    · rw [if_neg hnone]
      exact alignSegments_spells kw (findAnchors_ordered hpos)

end

/-- The second list can stand in the place of the first. -/
structure Realigns (pairs pairs' : List AlignmentPair) : Prop where
  sTokens_eq : sTokens pairs' = sTokens pairs
  tTokens_eq : tTokens pairs' = tTokens pairs
  aligned : ∀ a b, 0 ≤ a → 0 ≤ b → Aligned a b pairs → Aligned a b pairs'

section
variable {pairs pairs' pairs'' more more' : List AlignmentPair}

theorem Realigns.refl : Realigns pairs pairs := ⟨rfl,rfl,fun _ _ _ _ h => h⟩

theorem Realigns.trans (h : Realigns pairs pairs') (h' : Realigns pairs' pairs'') :
    Realigns pairs pairs'' :=
  ⟨h'.sTokens_eq.trans h.sTokens_eq,h'.tTokens_eq.trans h.tTokens_eq,
    fun a b ha hb hpairs => h'.aligned a b ha hb (h.aligned a b ha hb hpairs)⟩

theorem Realigns.append (h : Realigns pairs pairs') (h' : Realigns more more') :
    Realigns (pairs ++ more) (pairs' ++ more') := by
  refine ⟨?_,?_,fun a b ha hb hboth => ?_⟩
  · rw [sTokens_append,sTokens_append,h.sTokens_eq,h'.sTokens_eq]
  · rw [tTokens_append,tTokens_append,h.tTokens_eq,h'.tTokens_eq]
  · obtain ⟨hpairs,hmore⟩ := aligned_append.mp hboth
    refine aligned_append.mpr ⟨h.aligned a b ha hb hpairs,?_⟩
    rw [h.sTokens_eq,h.tTokens_eq]
    exact h'.aligned _ _ (by omega) (by omega) hmore

theorem Realigns.cons (pair : AlignmentPair) (h : Realigns pairs pairs') :
    Realigns (pair :: pairs) (pair :: pairs') :=
  Realigns.append (@Realigns.refl [pair]) h

end

section
variable {run chunk : List AlignmentPair} {cur whole : AlignmentPair} {counted : Side → Bool}

theorem realigns_split (h : cur.isCoarse = true) :
    Realigns [cur] (oneToOne cur.s.start cur.s.tokens cur.t.start cur.t.tokens) := by
  have hcoarse : (1 < cur.s.tokens.length ∧ cur.s.tokens.length = cur.t.tokens.length) ∧
      cur.s.tokens = cur.t.tokens := by simpa [AlignmentPair.isCoarse] using h
  obtain ⟨⟨hlong,hlength⟩,htokens⟩ := hcoarse
  have hspells : ∀ a b, Spells a b cur.s.tokens cur.t.tokens
      (oneToOne a cur.s.tokens b cur.t.tokens) := fun a b => spells_oneToOne hlength
  refine ⟨?_,?_,fun a b _ _ hcur => ?_⟩
  · rw [(hspells _ _).sTokens_eq]
    simp
  · rw [(hspells _ _).tTokens_eq]
    simp
  · obtain ⟨⟨hs,ht,-⟩,-⟩ := aligned_cons.mp hcur
    have hne : cur.s.tokens ≠ [] := List.ne_nil_of_length_pos (by omega)
    rw [(hs.of_nonempty hne).1,(ht.of_nonempty (htokens ▸ hne)).1]
    exact (hspells a b).toAligned

theorem realigns_merge (hne : run ≠ [])
    (hcounts : ∀ a sides, 0 ≤ a → Chain a sides → Counts counted sides) :
    Realigns run [⟨.merge counted (run.map AlignmentPair.s),
      .merge counted (run.map AlignmentPair.t),false⟩] := by
  refine ⟨by simp [sTokens],by simp [tTokens],fun a b ha hb hrun => ?_⟩
  have hs := placed_merge hrun.chain_s (hcounts a _ ha hrun.chain_s)
  have ht := placed_merge hrun.chain_t (hcounts b _ hb hrun.chain_t)
  refine aligned_cons.mpr ⟨⟨hs,ht,?_⟩,Aligned.nil⟩
  cases run with
  | nil => exact absurd rfl hne
  | cons pair run =>
    rcases hrun.inhabited pair List.mem_cons_self with hpair | hpair
    · exact Or.inl (by simp [hpair])
    · exact Or.inr (by simp [hpair])

theorem realigns_combineRun (hne : run ≠ []) : Realigns run [combineRun run] :=
  realigns_merge hne fun _ _ ha hchain => counts_start hchain ha

theorem realigns_flattenChunk (hne : chunk ≠ []) : Realigns chunk [flattenChunk chunk] :=
  realigns_merge hne fun _ _ _ _ => counts_tokens

theorem chain_replace {a : ℤ} {x : Side} {sides : List Side} (hx : x.Placed a) (h : Chain 0 sides)
    (hcovered : covered sides = x.tokens) : Chain a (sides.map (Side.shift x.start)) := by
  by_cases hnil : x.tokens = []
  · exact chain_of_covered_nil h (hcovered.trans hnil)
  · have hshift := chain_shift (d := a) h le_rfl
    rw [zero_add] at hshift
    rw [(hx.of_nonempty hnil).1]
    exact hshift

section
variable {α : Type*} [Zero α] [Add α] [Neg α] [Mul α] [NatCast α] [LT α] [DecidableLT α]
  {kw : DpKwargs α}

theorem realigns_realignChunk :
    Realigns [whole] (realignChunk (subAlign kw (whole.s.tokens,whole.t.tokens)) whole) := by
  have hdp := alignDp_spells kw whole.s.tokens whole.t.tokens
  by_cases hperfect : (subAlign kw (whole.s.tokens,whole.t.tokens)).2 = true
  · rw [realignChunk,if_pos hperfect,subAlign]
    dsimp only
    generalize (alignDp kw whole.s.tokens whole.t.tokens).1 = subPairs at hdp
    have hs : (subPairs.map fun pair => AlignmentPair.mk (pair.s.shift whole.s.start)
        (pair.t.shift whole.t.start) false).map AlignmentPair.s =
        (subPairs.map AlignmentPair.s).map (Side.shift whole.s.start) := by simp
    have ht : (subPairs.map fun pair => AlignmentPair.mk (pair.s.shift whole.s.start)
        (pair.t.shift whole.t.start) false).map AlignmentPair.t =
        (subPairs.map AlignmentPair.t).map (Side.shift whole.t.start) := by simp
    refine ⟨?_,?_,fun a b _ _ hwhole => ?_⟩
    · rw [sTokens,hs,covered_shift]
      exact hdp.sTokens_eq.trans (List.append_nil _).symm
    · rw [tTokens,ht,covered_shift]
      exact hdp.tTokens_eq.trans (List.append_nil _).symm
    · obtain ⟨⟨hplaced,hplaced',-⟩,-⟩ := aligned_cons.mp hwhole
      refine ⟨hs ▸ chain_replace hplaced hdp.chain_s hdp.sTokens_eq,
        ht ▸ chain_replace hplaced' hdp.chain_t hdp.tTokens_eq,fun pair hpair => ?_⟩
      obtain ⟨sub,hsub,rfl⟩ := List.mem_map.mp hpair
      exact hdp.inhabited sub hsub
  · rw [realignChunk,if_neg hperfect]
    exact Realigns.refl

end
end

section
variable {pairs : List AlignmentPair}

theorem combineFrom_realigns {boundary fuel i : ℕ} :
    Realigns pairs (combineFrom boundary fuel i pairs) := by
  induction fuel generalizing i pairs with
  | zero => exact Realigns.refl
  | succ fuel ih =>
    cases pairs with
    | nil => exact Realigns.refl
    | cons pair rest =>
      let run := pair :: (rest.take (boundary - (i + 1))).takeWhile fun next => !next.isMatch
      have hrun : run <+: pair :: rest := by
        have htake : (rest.take (boundary - (i + 1))).takeWhile (fun next => !next.isMatch) <+: rest :=
          (List.takeWhile_prefix _).trans (List.take_prefix _ _)
        exact List.cons_prefix_cons.mpr ⟨rfl,htake⟩
      have hsplit : run ++ (pair :: rest).drop run.length = pair :: rest :=
        List.prefix_iff_eq_append.mp hrun
      rw [combineFrom]
      split
      · by_cases hlong : 2 ≤ run.length
        · rw [if_pos hlong]
          have hrest : Realigns ((pair :: rest).drop run.length)
              (combineFrom boundary fuel (i + run.length) ((pair :: rest).drop run.length)) := ih
          have hboth := (realigns_combineRun (List.cons_ne_nil _ _ : run ≠ [])).append hrest
          rw [hsplit] at hboth
          exact hboth
        · rw [if_neg hlong]
          exact ih.cons pair
      · exact ih.cons pair

theorem combineConsecutiveMisaligned_realigns :
    Realigns pairs (combineConsecutiveMisaligned pairs) := by
  by_cases hshort : pairs.length < 2
  · rw [combineConsecutiveMisaligned,if_pos hshort]
    exact Realigns.refl
  · rw [combineConsecutiveMisaligned,if_neg hshort]
    exact combineFrom_realigns

end

section
variable {α : Type*} [Zero α] [Add α] [Neg α] [Mul α] [NatCast α] [LT α] [DecidableLT α]
  {kw : DpKwargs α} {cache cache' : AlignCache} {pairs found : List AlignmentPair} {sizes : List ℕ}

/-- The cache holds what would be computed. -/
def Sound (kw : DpKwargs α) (cache : AlignCache) : Prop :=
  ∀ key sub, cache.lookup key = some sub → sub = subAlign kw key

theorem cachedAlign_sound (h : Sound kw cache) (key : List Token × List Token) :
    (cachedAlign kw cache key).1 = subAlign kw key ∧ Sound kw (cachedAlign kw cache key).2 := by
  rw [cachedAlign]
  cases hlookup : cache.lookup key with
  | some sub => exact ⟨h key sub hlookup,h⟩
  | none =>
    refine ⟨rfl,fun key' sub hsub => ?_⟩
    rw [List.lookup_cons] at hsub
    by_cases heq : key' = key
    · subst heq
      simpa using hsub.symm
    · rw [beq_false_of_ne heq] at hsub
      exact h key' sub hsub

theorem pos_of_mem_sizes {n size : ℕ} (h : size ∈ List.range' 2 n) : 0 < size := by
  have hge := (List.mem_range'_1.mp h).1
  omega

theorem findChunk_realigns {chunkSize : ℕ} (hcache : Sound kw cache) (hne : pairs ≠ [])
    (hsizes : ∀ size ∈ sizes, 0 < size)
    (h : findChunk kw cache pairs sizes = some (found,chunkSize,cache')) :
    Realigns (pairs.take chunkSize) found ∧ Sound kw cache' := by
  induction sizes with
  | nil => cases h
  | cons size sizes ih =>
    obtain ⟨hsize,hsizes⟩ := List.forall_mem_cons.mp hsizes
    let whole := flattenChunk (pairs.take size)
    have htake : pairs.take size ≠ [] := by
      rw [ne_eq,List.take_eq_nil_iff]
      push Not
      exact ⟨hsize.ne',hne⟩
    have hchunk : Realigns (pairs.take size)
        (realignChunk (subAlign kw (whole.s.tokens,whole.t.tokens)) whole) :=
      (realigns_flattenChunk htake).trans realigns_realignChunk
    rw [findChunk] at h
    by_cases hmatch : whole.isMatch = true
    · rw [if_pos hmatch] at h
      cases h
      obtain ⟨hsub,hcache'⟩ := cachedAlign_sound hcache (whole.s.tokens,whole.t.tokens)
      rw [← hsub] at hchunk
      exact ⟨hchunk,hcache'⟩
    · rw [if_neg hmatch] at h
      exact ih hsizes h

theorem processFrom_realigns {fuel : ℕ} (hcache : Sound kw cache) :
    Realigns pairs (processFrom kw fuel cache pairs) := by
  induction fuel generalizing cache pairs with
  | zero => exact Realigns.refl
  | succ fuel ih =>
    cases pairs with
    | nil => exact Realigns.refl
    | cons cur rest =>
      rw [processFrom]
      by_cases hcoarse : cur.isCoarse = true
      · rw [if_pos hcoarse]
        exact (realigns_split hcoarse).append (ih hcache)
      · rw [if_neg hcoarse]
        let good := (cur :: rest).takeWhile AlignmentPair.isMatch
        have hsplit : good ++ (cur :: rest).dropWhile AlignmentPair.isMatch = cur :: rest :=
          List.takeWhile_append_dropWhile
        cases hdrop : (cur :: rest).dropWhile AlignmentPair.isMatch with
        | nil => exact Realigns.refl
        | cons bad after =>
          rw [hdrop] at hsplit
          dsimp only
          cases hfind : findChunk kw cache (bad :: after)
              (List.range' 2 (min 10 (bad :: after).length - 1)) with
          | none =>
            have hrest : Realigns after (processFrom kw fuel cache after) := ih hcache
            have hall := (@Realigns.refl good).append (hrest.cons bad)
            rw [hsplit] at hall
            exact hall
          | some result =>
            obtain ⟨found,chunkSize,cache'⟩ := result
            obtain ⟨hfound,hcache'⟩ := findChunk_realigns hcache (List.cons_ne_nil _ _)
              (fun _ => pos_of_mem_sizes) hfind
            have hrest : Realigns ((bad :: after).drop chunkSize)
                (processFrom kw fuel cache' ((bad :: after).drop chunkSize)) := ih hcache'
            have hall := (@Realigns.refl good).append (hfound.append hrest)
            rw [List.take_append_drop,hsplit,← List.append_assoc] at hall
            exact hall

/-- The repair pass keeps a partition a partition. -/
theorem postProcessAlignment_realigns : Realigns pairs (postProcessAlignment kw pairs) := by
  have hempty : Sound kw [] := fun _ _ hlookup => by cases hlookup
  exact combineConsecutiveMisaligned_realigns.trans (processFrom_realigns hempty)

end
end XToken
end DockyardRL
