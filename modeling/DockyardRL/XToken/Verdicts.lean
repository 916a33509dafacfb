import DockyardRL.Lib.Fallible
import DockyardRL.XToken.Anchors
import DockyardRL.XToken.Optimal
import Mathlib.Tactic.NormNum

/-! The aligned pairs partition the original positions of both sequences, and the chunk ids of the
batch name the parts.

The verdicts on the pairs of an alignment. The texts that are compared are made of tokens that went
through `canonical_token` a second time, and for some tokens that is another text: a pair whose
texts differ can pass, and one whose texts agree can fail. -/
namespace DockyardRL
namespace XToken

section

open Tiling Fallible

def Side.span? (x : Side) : Option (ℤ × ℤ) :=
  if x.start = -1 ∧ x.stop = -1 then none else some (x.start,x.stop)

/-- The spans of the pairs, in order, partition both axes; a side holds the sentinels exactly
when it has no tokens, and no pair is empty on both sides. -/
structure Partition (student teacher : ℕ) (pairs : List AlignmentPair) : Prop where
  tiles_s : Tiles (0 : ℤ) (pairs.map fun pair => pair.s.span?) student
  tiles_t : Tiles (0 : ℤ) (pairs.map fun pair => pair.t.span?) teacher
  sentinel : ∀ pair ∈ pairs, (pair.s.start = -1 ∧ pair.s.stop = -1 ↔ pair.s.tokens = []) ∧
    (pair.t.start = -1 ∧ pair.t.stop = -1 ↔ pair.t.tokens = [])
  inhabited : ∀ pair ∈ pairs, pair.s.tokens ≠ [] ∨ pair.t.tokens ≠ []

/-- Every position has one id, the place of the only span that covers it, and the ids do not
decrease along the axis. -/
structure ChunkIds (spans : List (Option (ℤ × ℤ))) (length : ℕ) (ids : List ℤ) : Prop where
  length_eq : ids.length = length
  unique : ∀ x < length, ∃ i : ℕ, ids[x]? = some (i : ℤ) ∧ Covers spans i (x : ℤ) ∧
    ∀ j, Covers spans j (x : ℤ) → j = i
  sorted : ids.Pairwise (· ≤ ·)

section
variable {a n : ℤ} {x : Side} {sides : List Side} {tokens : List Token} {ranges : List Range}

theorem span?_of_nonempty (h : x.Placed a) (ha : 0 ≤ a) (hne : x.tokens ≠ []) :
    x.span? = some (a,a + x.tokens.length) := by
  obtain ⟨hstart,hstop⟩ := h.of_nonempty hne
  rw [Side.span?,if_neg (by omega),hstart,hstop]

theorem span?_of_empty (h : x.Placed a) (hnil : x.tokens = []) : x.span? = none :=
  if_pos (h.of_empty hnil)

theorem chain_tiles (h : Chain a sides) (ha : 0 ≤ a) :
    Tiles a (sides.map Side.span?) (a + (covered sides).length) := by
  induction sides generalizing a with
  | nil => exact (add_zero a).symm
  | cons x sides ih =>
    have htail := ih h.2 (by omega)
    have hend : a + (covered (x :: sides)).length =
        a + x.tokens.length + (covered sides).length := by
      rw [covered_cons,List.length_append]
      omega
    rw [hend,List.map_cons]
    by_cases hnil : x.tokens = []
    · rw [span?_of_empty h.1 hnil]
      simpa [hnil] using htail
    · rw [span?_of_nonempty h.1 ha hnil]
      have hpos := List.length_pos_iff.mpr hnil
      exact ⟨rfl,by omega,htail⟩

theorem placed_of_mem (h : Chain a sides) (hx : x ∈ sides) :
    ∃ b, a ≤ b ∧ x.Placed b ∧ b + x.tokens.length ≤ a + (covered sides).length := by
  induction sides generalizing a with
  | nil => exact absurd hx List.not_mem_nil
  | cons y sides ih =>
    rw [covered_cons,List.length_append]
    rcases List.mem_cons.mp hx with rfl | hmem
    · exact ⟨a,le_rfl,h.1,by omega⟩
    · obtain ⟨b,hab,hplaced,hend⟩ := ih h.2 hmem
      exact ⟨b,by omega,hplaced,by omega⟩

def origin (ranges : List Range) (k : ℤ) : ℤ := boundary 0 ranges k.toNat

def Side.toOriginal (ranges : List Range) (x : Side) : Side :=
  if x.tokens = [] then x else ⟨x.tokens,origin ranges x.start,origin ranges x.stop⟩

theorem origin_strictMono (h : Tiles 0 (ranges.map some) n) {j k : ℤ} (hj : 0 ≤ j) (hjk : j < k)
    (hk : k ≤ ranges.length) : origin ranges j < origin ranges k :=
  boundary_strictMono h (by omega) (by omega)

theorem origin_nonneg (h : Tiles 0 (ranges.map some) n) {k : ℤ} (hk : 0 ≤ k)
    (hle : k ≤ ranges.length) : 0 ≤ origin ranges k := by
  have hzero : origin ranges 0 = 0 := boundary_zero
  rcases hk.eq_or_lt with rfl | hpos
  · exact hzero.ge
  · exact hzero ▸ (origin_strictMono h le_rfl hpos hle).le

theorem item_ranges (h : Tiles 0 (ranges.map some) n) {k : ℤ} (hk : 0 ≤ k)
    (hlt : k < ranges.length) : item ranges k = some (origin ranges k,origin ranges (k + 1)) := by
  have hnext : (k + 1).toNat = k.toNat + 1 := by omega
  rw [item,if_pos hk,getElem?_eq_boundary h (by omega),origin,origin,hnext]

theorem remap_placed (h : Tiles 0 (ranges.map some) n) (hx : x.Placed a) (ha : 0 ≤ a)
    (hle : a + x.tokens.length ≤ ranges.length) : x.remap ranges = some (x.toOriginal ranges) := by
  by_cases hnil : x.tokens = []
  · rw [Side.remap,if_neg (not_not.mpr (hx.of_empty hnil).1),Side.toOriginal,if_pos hnil]
  · obtain ⟨hstart,hstop⟩ := hx.of_nonempty hnil
    have hpos := List.length_pos_iff.mpr hnil
    have hlast : x.stop - 1 + 1 = x.stop := by omega
    rw [Side.remap,if_pos (hx.start_ne ha hnil),item_ranges h (by omega) (by omega),
      item_ranges h (by omega) (by omega),hlast,Side.toOriginal,if_neg hnil]
    rfl

theorem span?_toOriginal (h : Tiles 0 (ranges.map some) n) (hx : x.Placed a) (ha : 0 ≤ a)
    (hle : a + x.tokens.length ≤ ranges.length) :
    (x.toOriginal ranges).span? = x.span?.map (Prod.map (origin ranges) (origin ranges)) := by
  by_cases hnil : x.tokens = []
  · rw [Side.toOriginal,if_pos hnil,span?_of_empty hx hnil]
    rfl
  · obtain ⟨hstart,hstop⟩ := hx.of_nonempty hnil
    have hnonneg := origin_nonneg h ha (by omega)
    have hkeep : ¬ (origin ranges x.start = -1 ∧ origin ranges x.stop = -1) := by
      rw [hstart]
      omega
    rw [span?_of_nonempty hx ha hnil,Side.toOriginal,if_neg hnil,Side.span?,if_neg hkeep,hstart,hstop]
    rfl

theorem sentinel_toOriginal (h : Tiles 0 (ranges.map some) n) (hx : x.Placed a) (ha : 0 ≤ a)
    (hle : a + x.tokens.length ≤ ranges.length) :
    (x.toOriginal ranges).start = -1 ∧ (x.toOriginal ranges).stop = -1 ↔
      (x.toOriginal ranges).tokens = [] := by
  by_cases hnil : x.tokens = []
  · rw [Side.toOriginal,if_pos hnil]
    exact ⟨fun _ => hnil,fun _ => hx.of_empty hnil⟩
  · obtain ⟨hstart,-⟩ := hx.of_nonempty hnil
    have hnonneg := origin_nonneg h ha (by omega)
    rw [Side.toOriginal,if_neg hnil]
    constructor
    · intro hsentinel
      have hneg : origin ranges x.start = -1 := hsentinel.1
      rw [hstart] at hneg
      omega
    · exact fun htokens => absurd htokens hnil

theorem tiles_toOriginal (hranges : Ranged 0 tokens ranges n) (h : Chain 0 sides)
    (hcovered : covered sides = tokens) :
    Tiles 0 (sides.map fun x => (x.toOriginal ranges).span?) n := by
  have hlength : (covered sides).length = ranges.length := hcovered ▸ hranges.length_eq
  have htiles := tiles_map (g := origin ranges)
    (fun j k hj hjk hk => origin_strictMono hranges.tiles hj hjk (by omega)) (chain_tiles h le_rfl)
  have hstart : origin ranges 0 = 0 := boundary_zero
  have hend : origin ranges (0 + (covered sides).length) = n := by
    rw [zero_add,hlength,origin,Int.toNat_natCast]
    exact boundary_length hranges.tiles
  rw [hstart,hend,List.map_map] at htiles
  have hspans : (sides.map fun x => (x.toOriginal ranges).span?) =
      sides.map (Option.map (Prod.map (origin ranges) (origin ranges)) ∘ Side.span?) := by
    apply List.map_congr_left
    intro x hx
    obtain ⟨b,hb,hplaced,hle⟩ := placed_of_mem h hx
    exact span?_toOriginal hranges.tiles hplaced hb (by omega)
  rw [hspans]
  exact htiles

end

section
variable {n m : ℕ} {student teacher : List Token} {studentRanges teacherRanges : List Range}
  {pairs : List AlignmentPair}

theorem placed_within {x : Side} {sides : List Side} {tokens : List Token} {ranges : List Range}
    (hranges : Ranged 0 tokens ranges n) (h : Chain 0 sides) (hcovered : covered sides = tokens)
    (hx : x ∈ sides) : ∃ b, 0 ≤ b ∧ x.Placed b ∧ b + x.tokens.length ≤ ranges.length := by
  obtain ⟨b,hb,hplaced,hle⟩ := placed_of_mem h hx
  have hlength : (covered sides).length = ranges.length := hcovered ▸ hranges.length_eq
  exact ⟨b,hb,hplaced,by omega⟩

theorem remapPairsToOriginal_eq (hs : Ranged 0 student studentRanges n)
    (ht : Ranged 0 teacher teacherRanges m) (h : Spells 0 0 student teacher pairs) :
    remapPairsToOriginal studentRanges teacherRanges pairs = some (pairs.map fun pair =>
      ⟨pair.s.toOriginal studentRanges,pair.t.toOriginal teacherRanges,pair.isCorrect⟩) := by
  apply mapM_some
  intro pair hpair
  obtain ⟨b,hb,hplaced,hle⟩ := placed_within hs h.chain_s h.sTokens_eq (List.mem_map_of_mem hpair)
  obtain ⟨c,hc,hplaced',hle'⟩ := placed_within ht h.chain_t h.tTokens_eq (List.mem_map_of_mem hpair)
  rw [remap_placed hs.tiles hplaced hb hle,remap_placed ht.tiles hplaced' hc hle']
  rfl

@[simp] theorem tokens_toOriginal {x : Side} {ranges : List Range} :
    (x.toOriginal ranges).tokens = x.tokens := by
  rw [Side.toOriginal]
  split <;> rfl

theorem partition_toOriginal (hs : Ranged 0 student studentRanges n)
    (ht : Ranged 0 teacher teacherRanges m) (h : Spells 0 0 student teacher pairs)
    {f : AlignmentPair → AlignmentPair} (hfs : ∀ pair, (f pair).s = pair.s.toOriginal studentRanges)
    (hft : ∀ pair, (f pair).t = pair.t.toOriginal teacherRanges) :
    Partition n m (pairs.map f) := by
  have htiles := tiles_toOriginal hs h.chain_s h.sTokens_eq
  have htiles' := tiles_toOriginal ht h.chain_t h.tTokens_eq
  rw [List.map_map] at htiles htiles'
  refine ⟨?_,?_,fun moved hmoved => ?_,fun moved hmoved => ?_⟩
  · rw [List.map_map]
    simpa [Function.comp_def,hfs] using htiles
  · rw [List.map_map]
    simpa [Function.comp_def,hft] using htiles'
  · obtain ⟨pair,hpair,rfl⟩ := List.mem_map.mp hmoved
    obtain ⟨b,hb,hplaced,hle⟩ := placed_within hs h.chain_s h.sTokens_eq (List.mem_map_of_mem hpair)
    obtain ⟨c,hc,hplaced',hle'⟩ := placed_within ht h.chain_t h.tTokens_eq (List.mem_map_of_mem hpair)
    rw [hfs,hft]
    exact ⟨sentinel_toOriginal hs.tiles hplaced hb hle,sentinel_toOriginal ht.tiles hplaced' hc hle'⟩
  · obtain ⟨pair,hpair,rfl⟩ := List.mem_map.mp hmoved
    rw [hfs,hft,tokens_toOriginal,tokens_toOriginal]
    exact h.inhabited pair hpair

end

def axisRow (length : ℕ) (labels : ℤ → ℤ) : List ℤ :=
  (List.range length).map fun x : ℕ => labels (x : ℤ)

section
variable {length : ℕ} {sides : List Side} {labels : ℤ → ℤ}

theorem getElem?_axisRow {x : ℕ} (h : x < length) :
    (axisRow length labels)[x]? = some (labels (x : ℤ)) := by
  simp [axisRow,h]

theorem writeSpan_axisRow (start stop value : ℤ) :
    writeSpan start stop value (axisRow length labels) =
      axisRow length fun x => if start ≤ x ∧ x < stop then value else labels x := by
  apply List.ext_getElem
  · simp [writeSpan,axisRow]
  · intro x _ _
    simp [writeSpan,axisRow]

theorem writeChunkIds_eq {a : ℤ} {pairI : ℕ} (ha : 0 ≤ a)
    (h : Tiles a (sides.map Side.span?) (length : ℤ)) :
    writeChunkIds length pairI sides (axisRow length labels) =
      axisRow length (paint labels pairI (sides.map Side.span?)) := by
  induction sides generalizing a pairI labels with
  | nil => rfl
  | cons x sides ih =>
    rw [writeChunkIds]
    by_cases hsentinel : x.start = -1 ∧ x.stop = -1
    · have hspan : x.span? = none := if_pos hsentinel
      rw [List.map_cons,hspan] at h ⊢
      rw [if_neg fun hwrite => hwrite.1 hsentinel.1]
      exact ih ha h
    · have hspan : x.span? = some (x.start,x.stop) := if_neg hsentinel
      rw [List.map_cons,hspan] at h ⊢
      obtain ⟨hstart,hlt,htail⟩ := h
      have hend := tiles_le htail
      rw [if_pos (by omega),writeSpan_axisRow]
      exact ih (by omega) htail

theorem chunkIds_eq (h : Tiles (0 : ℤ) (sides.map Side.span?) (length : ℤ)) :
    chunkIds length sides = axisRow length (paint (fun _ => -1) 0 (sides.map Side.span?)) := by
  have hrow : List.replicate length (-1 : ℤ) = axisRow length fun _ => -1 := by
    simp [axisRow]
  rw [chunkIds,hrow]
  exact writeChunkIds_eq le_rfl h

theorem chunkIds_chunkIds (h : Tiles (0 : ℤ) (sides.map Side.span?) (length : ℤ)) :
    ChunkIds (sides.map Side.span?) length (chunkIds length sides) := by
  let label := paint (fun _ : ℤ => -1) 0 (sides.map Side.span?)
  have hlabel : ∀ x : ℕ, x < length →
      ∃ i : ℕ, Covers (sides.map Side.span?) i (x : ℤ) ∧ label x = (i : ℤ) := by
    intro x hx
    obtain ⟨i,hi⟩ := exists_covers h (Int.natCast_nonneg x) (Int.ofNat_lt.mpr hx)
    have hpaint : label x = ((0 + i : ℕ) : ℤ) := paint_of_covers h hi
    rw [Nat.zero_add] at hpaint
    exact ⟨i,hi,hpaint⟩
  rw [chunkIds_eq h]
  refine ⟨by simp [axisRow],fun x hx => ?_,?_⟩
  · obtain ⟨i,hi,hpaint⟩ := hlabel x hx
    have hget : (axisRow length label)[x]? = some (i : ℤ) := by rw [getElem?_axisRow hx,hpaint]
    exact ⟨i,hget,hi,fun j hj => covers_unique h hj hi⟩
  · rw [axisRow,List.pairwise_map]
    refine List.Pairwise.imp_of_mem ?_ List.pairwise_lt_range
    intro x y hx hy hxy
    obtain ⟨i,hi,hpaint⟩ := hlabel x (List.mem_range.mp hx)
    obtain ⟨j,hj,hpaint'⟩ := hlabel y (List.mem_range.mp hy)
    show label x ≤ label y
    rw [hpaint,hpaint']
    exact Int.ofNat_le.mpr (covers_mono h hi hj (by omega))

end

theorem pairsToBatch_chunkIds {n m r : ℕ} {pairs : List AlignmentPair}
    {perSamplePairs : List (List AlignmentPair)} (h : Partition n m pairs)
    (hr : perSamplePairs[r]? = some pairs) :
    (∃ ids, (pairsToBatch perSamplePairs n m).studentChunkId[r]? = some ids ∧
      ChunkIds (pairs.map fun pair => pair.s.span?) n ids) ∧
    ∃ ids, (pairsToBatch perSamplePairs n m).teacherChunkId[r]? = some ids ∧
      ChunkIds (pairs.map fun pair => pair.t.span?) m ids := by
  have hs := h.tiles_s
  have ht := h.tiles_t
  rw [← Function.comp_def Side.span?,← List.map_map] at hs ht
  have hids := chunkIds_chunkIds hs
  have hids' := chunkIds_chunkIds ht
  rw [List.map_map] at hids hids'
  exact ⟨⟨_,by simp [pairsToBatch,hr],hids⟩,⟨_,by simp [pairsToBatch,hr],hids'⟩⟩

section
variable {α : Type*} [Zero α] [Add α] [Neg α] [Mul α] [NatCast α] [LT α] [DecidableLT α]

theorem processed_spells (kw : DpKwargs α) (student teacher : List Token) {anchorLengths : List ℕ}
    (hpos : ∀ k ∈ anchorLengths, 0 < k) :
    Spells 0 0 student teacher
      (postProcessAlignment kw (alignWithAnchors kw student teacher anchorLengths).1) := by
  have haligned := alignWithAnchors_spells kw student teacher hpos
  generalize (alignWithAnchors kw student teacher anchorLengths).1 = aligned at haligned
  have hrepair : Realigns aligned (postProcessAlignment kw aligned) := postProcessAlignment_realigns
  exact ⟨hrepair.aligned 0 0 le_rfl le_rfl haligned.toAligned,
    hrepair.sTokens_eq.trans haligned.sTokens_eq,hrepair.tTokens_eq.trans haligned.tTokens_eq⟩

theorem exists_alignSingle (maxCombinationLen : ℕ) (scoring : Scoring α) {anchorLengths : List ℕ}
    (hpos : ∀ k ∈ anchorLengths, 0 < k) (student teacher : List Token) :
    ∃ pairs, alignSingle maxCombinationLen scoring anchorLengths student teacher = some pairs ∧
      Partition student.length teacher.length pairs := by
  obtain ⟨canon,ranges,hcanon,hranged⟩ := canonicalizeSequence_ranged student
  obtain ⟨canon',ranges',hcanon',hranged'⟩ := canonicalizeSequence_ranged teacher
  have hprocessed := processed_spells ⟨scoring,maxCombinationLen,false⟩ canon canon' hpos
  have hremap := remapPairsToOriginal_eq hranged hranged' hprocessed
  rw [alignSingle,hcanon,Option.bind_some,hcanon',Option.bind_some]
  dsimp only
  rw [hremap,Option.map_some,List.map_map]
  exact ⟨_,rfl,partition_toOriginal hranged hranged' hprocessed (fun _ => rfl) fun _ => rfl⟩

/-- Aligning returns a partition of both sequences, and in any batch each position has the
index of its pair. -/
theorem alignSingle_partition (maxCombinationLen : ℕ) (scoring : Scoring α)
    (student teacher : List Token) :
    ∃ pairs, alignSingle maxCombinationLen scoring defaultAnchorLengths student teacher = some pairs ∧
      Partition student.length teacher.length pairs ∧
      ∀ (perSamplePairs : List (List AlignmentPair)) (r : ℕ), perSamplePairs[r]? = some pairs →
        (∃ ids, (pairsToBatch perSamplePairs student.length teacher.length).studentChunkId[r]? =
            some ids ∧ ChunkIds (pairs.map fun pair => pair.s.span?) student.length ids) ∧
        ∃ ids, (pairsToBatch perSamplePairs student.length teacher.length).teacherChunkId[r]? =
            some ids ∧ ChunkIds (pairs.map fun pair => pair.t.span?) teacher.length ids := by
  obtain ⟨pairs,hpairs,hpartition⟩ := exists_alignSingle maxCombinationLen scoring
    defaultAnchorLengths_pos student teacher
  exact ⟨pairs,hpairs,hpartition,fun _ _ hr => pairsToBatch_chunkIds hpartition hr⟩

end

end

open Table

/-- The tokens of `_canonicalize_sequence`. -/
def canonicalTokens (tokens : List Token) : List Token :=
  ((canonicalizeSequence tokens).map Prod.fst).getD []

/-- The canonical tokens of a sequence are left as they are by `canonical_token`. -/
def Stable (tokens : List Token) : Prop := ∀ token ∈ canonicalTokens tokens, canonicalToken token = token

instance (tokens : List Token) : Decidable (Stable tokens) := by unfold Stable; infer_instance

/-- The canonical tokens on either side of the pair spell one text. -/
def AlignmentPair.SameText (pair : AlignmentPair) : Prop :=
  pair.s.tokens.flatten = pair.t.tokens.flatten

instance (pair : AlignmentPair) : Decidable pair.SameText := by
  unfold AlignmentPair.SameText; infer_instance

section
variable {α : Type*} [Zero α] [Add α] [Neg α] [Mul α] [NatCast α] [LT α] [DecidableLT α]

/-- The pairs of `_align_single` cover the canonical tokens of both sequences, and a pair is correct
just when its canonical tokens spell one text. -/
def VerdictsAgree (maxCombinationLen : ℕ) (scoring : Scoring α) (anchorLengths : List ℕ)
    (student teacher : List Token) : Prop :=
  ∃ pairs, alignSingle maxCombinationLen scoring anchorLengths student teacher = some pairs ∧
    sTokens pairs = canonicalTokens student ∧ tTokens pairs = canonicalTokens teacher ∧
    ∀ pair ∈ pairs, (pair.isCorrect = true ↔ pair.SameText)

theorem exists_emitted (maxCombinationLen : ℕ) (scoring : Scoring α) {anchorLengths : List ℕ}
    (hpos : ∀ k ∈ anchorLengths, 0 < k) (student teacher : List Token) :
    ∃ pairs, alignSingle maxCombinationLen scoring anchorLengths student teacher = some pairs ∧
      pairs.map (fun pair => (pair.s.tokens,pair.t.tokens)) = (postProcessAlignment
        ⟨scoring,maxCombinationLen,false⟩ (alignWithAnchors ⟨scoring,maxCombinationLen,false⟩
          (canonicalTokens student) (canonicalTokens teacher) anchorLengths).1).map
        (fun pair => (pair.s.tokens,pair.t.tokens)) ∧
      sTokens pairs = canonicalTokens student ∧ tTokens pairs = canonicalTokens teacher ∧
      ∀ pair ∈ pairs, (pair.isCorrect = true ↔
        joinCanonical pair.s.tokens = joinCanonical pair.t.tokens) := by
  obtain ⟨canon,ranges,hcanon,hranged⟩ := canonicalizeSequence_ranged student
  obtain ⟨canon',ranges',hcanon',hranged'⟩ := canonicalizeSequence_ranged teacher
  have hprocessed := processed_spells ⟨scoring,maxCombinationLen,false⟩ canon canon' hpos
  have hremap := remapPairsToOriginal_eq hranged hranged' hprocessed
  have hs : canonicalTokens student = canon := by rw [canonicalTokens,hcanon]; rfl
  have ht : canonicalTokens teacher = canon' := by rw [canonicalTokens,hcanon']; rfl
  have hkeep : ∀ (rs : List Range) (x : Side), (x.toOriginal rs).tokens = x.tokens := by
    intro rs x
    rw [Side.toOriginal]
    split_ifs <;> rfl
  rw [alignSingle,hcanon,Option.bind_some,hcanon',Option.bind_some,hs,ht]
  dsimp only
  rw [hremap,Option.map_some,List.map_map]
  refine ⟨_,rfl,?_,?_,?_,fun pair hpair => ?_⟩
  · rw [List.map_map]
    exact List.map_congr_left fun pair _ => Prod.ext (hkeep _ _) (hkeep _ _)
  · refine Eq.trans ?_ hprocessed.sTokens_eq
    rw [sTokens,sTokens,covered,covered,List.flatMap_map,List.flatMap_map,List.flatMap_map]
    exact List.flatMap_congr fun pair _ => hkeep _ _
  · refine Eq.trans ?_ hprocessed.tTokens_eq
    rw [tTokens,tTokens,covered,covered,List.flatMap_map,List.flatMap_map,List.flatMap_map]
    exact List.flatMap_congr fun pair _ => hkeep _ _
  · obtain ⟨source,-,rfl⟩ := List.mem_map.mp hpair
    simp [AlignmentPair.isMatch,stringsEqualFlexible]

/-- Where `canonical_token` leaves every canonical token as it is, the verdicts are right. -/
theorem verdicts_agree_of_stable (maxCombinationLen : ℕ) (scoring : Scoring α)
    {anchorLengths : List ℕ} (hpos : ∀ k ∈ anchorLengths, 0 < k) {student teacher : List Token}
    (hstudent : Stable student) (hteacher : Stable teacher) :
    VerdictsAgree maxCombinationLen scoring anchorLengths student teacher := by
  obtain ⟨pairs,hpairs,-,hs,ht,hverdict⟩ := exists_emitted maxCombinationLen scoring hpos student
    teacher
  have hjoin : ∀ tokens : List Token, (∀ token ∈ tokens, canonicalToken token = token) →
      joinCanonical tokens = tokens.flatten := by
    intro tokens htokens
    rw [joinCanonical,List.flatten_eq_flatMap]
    exact List.flatMap_congr htokens
  refine ⟨pairs,hpairs,hs,ht,fun pair hpair => ?_⟩
  have hsmem : ∀ token ∈ pair.s.tokens, token ∈ canonicalTokens student := fun token htoken =>
    hs ▸ List.mem_flatMap.mpr ⟨pair.s,List.mem_map_of_mem hpair,htoken⟩
  have htmem : ∀ token ∈ pair.t.tokens, token ∈ canonicalTokens teacher := fun token htoken =>
    ht ▸ List.mem_flatMap.mpr ⟨pair.t,List.mem_map_of_mem hpair,htoken⟩
  rw [hverdict pair hpair,AlignmentPair.SameText,
    hjoin _ fun token htoken => hstudent token (hsmem token htoken),
    hjoin _ fun token htoken => hteacher token (htmem token htoken)]

end

theorem verdicts_agree_of_stable_newline :
    VerdictsAgree defaultKwargs.maxCombinationLen defaultKwargs.toScoring defaultAnchorLengths
      [['▁','a'],['Ċ']] [['Ġ','a','\n']] :=
  verdicts_agree_of_stable _ _ defaultAnchorLengths_pos (by decide +kernel) (by decide +kernel)

/-- A newline after a space passes for a newline, and does not pass for a space and a newline, though
the aligner took these for a combination match. -/
theorem space_newline_disagrees :
    ¬VerdictsAgree defaultKwargs.maxCombinationLen defaultKwargs.toScoring defaultAnchorLengths
        [['Ġ','Ċ']] [['Ċ']] ∧
      ¬VerdictsAgree defaultKwargs.maxCombinationLen defaultKwargs.toScoring defaultAnchorLengths
        [['Ġ','Ċ']] [['Ġ'],['Ċ']] := by
  have hpasses : alignSingle defaultKwargs.maxCombinationLen defaultKwargs.toScoring
      defaultAnchorLengths [['Ġ','Ċ']] [['Ċ']] =
      some [⟨⟨[['Ġ','\n']],0,1⟩,⟨[['\n']],0,1⟩,true⟩] := by decide +kernel
  have hfails : alignSingle defaultKwargs.maxCombinationLen defaultKwargs.toScoring
      defaultAnchorLengths [['Ġ','Ċ']] [['Ġ'],['Ċ']] =
      some [⟨⟨[['Ġ','\n']],0,1⟩,⟨[['Ġ'],['\n']],0,2⟩,false⟩] := by decide +kernel
  constructor
  · rintro ⟨pairs,hpairs,-,-,hagree⟩
    obtain rfl := Option.some.inj (hpairs.symm.trans hpasses)
    exact absurd ((hagree _ (List.mem_singleton_self _)).mp rfl) (by decide)
  · rintro ⟨pairs,hpairs,-,-,hagree⟩
    obtain rfl := Option.some.inj (hpairs.symm.trans hfails)
    exact Bool.noConfusion ((hagree _ (List.mem_singleton_self _)).mpr (by decide))

end XToken
end DockyardRL
