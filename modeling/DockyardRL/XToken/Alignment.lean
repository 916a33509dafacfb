import DockyardRL.Lib.Table
import DockyardRL.XToken.Canonical
import Mathlib.Algebra.Group.Defs
import Mathlib.Data.Finset.Basic
import Mathlib.Order.Interval.Finset.Nat
import Mathlib.Data.List.Sort
import Mathlib.Data.Prod.Lex

/-! The aligner of two tokenizations: dynamic programming over canonical tokens, anchors that cut
long sequences into segments, and a pass that repairs misaligned runs.

Repairing misaligned runs, the way back to original positions, and the batch that the loss reads.

Sides of pairs that follow each other along an axis without a gap. Each token of a side takes one
position, and a side without tokens takes none. -/
namespace DockyardRL
namespace XToken

section

open Table

/-- `tokens[start:stop]`. -/
def slice (tokens : List Token) (start stop : ℕ) : List Token := (tokens.take stop).drop start

/-- What a pair covers on one of the two axes: the fields `s_tokens`, `s_start`, `s_end` of
an `AlignmentPair`, or `t_tokens`, `t_start`, `t_end`. -/
structure Side where
  tokens : List Token
  start : ℤ
  stop : ℤ
  deriving DecidableEq

structure AlignmentPair where
  s : Side
  t : Side
  isCorrect : Bool
  deriving DecidableEq

namespace Side

def gap : Side := ⟨[],-1,-1⟩

/-- The side of `tokens[start:stop]`. -/
def span (tokens : List Token) (start stop : ℕ) : Side := ⟨slice tokens start stop,start,stop⟩

/-- Indices move by the offset unless they are `-1`. -/
def shift (d : ℤ) (x : Side) : Side :=
  ⟨x.tokens,if x.start ≠ -1 then x.start + d else -1,if x.stop ≠ -1 then x.stop + d else -1⟩

def merge (counted : Side → Bool) (sides : List Side) : Side :=
  ⟨sides.flatMap Side.tokens,(((sides.filter counted).map Side.start).min?).getD (-1),
    (((sides.filter counted).map Side.stop).max?).getD (-1)⟩

/-- The tokens one by one, from position `start` on. -/
def units : ℤ → List Token → List Side
  | _, [] => []
  | start, token :: tokens => ⟨[token],start,start + 1⟩ :: units (start + 1) tokens

end Side

def oneToOne (sStart : ℤ) (sTokens : List Token) (tStart : ℤ) (tTokens : List Token) :
    List AlignmentPair :=
  List.zipWith (fun s t => ⟨s,t,false⟩) (Side.units sStart sTokens) (Side.units tStart tTokens)

def stringsEqualFlexible (s1 s2 : Token) (ignoreLeadingCharDiff : Bool) : Bool :=
  if ¬ ignoreLeadingCharDiff then s1 = s2 else canonicalToken s1 = canonicalToken s2

structure Scoring (α : Type*) where
  exactMatchScore : α
  combinationScoreMultiplier : α
  gapPenalty : α

/-- `dp_kwargs`. -/
structure DpKwargs (α : Type*) extends Scoring α where
  maxCombinationLen : ℕ
  ignoreLeadingCharDiff : Bool

/-- The entries of `trace`; the entry at the origin is `""`. -/
inductive Move
  | origin
  | diag
  | up
  | left
  | combS1OverS2 (k : ℕ)
  | combS2OverS1 (k : ℕ)
  deriving DecidableEq

/-- An entry of `dp` with the entry of `trace` beside it. -/
structure Cell (α : Type*) where
  score : α
  move : Move

section
variable {α : Type*} [Zero α] [Add α] [Neg α] [Mul α] [NatCast α] [LT α] [DecidableLT α]

/-- `dp[i, j]`. -/
def scoreAt (dp : List (List (Cell α))) (i j : ℕ) : α :=
  ((dp[i]?.bind fun row => row[j]?).map Cell.score).getD 0

def better (best cand : Cell α) : Cell α := if best.score < cand.score then cand else best

/-- The lengths in `range(2, min(n + 1, max_combination_len + 1))`. -/
def combinationLengths (kw : DpKwargs α) (n : ℕ) : List ℕ :=
  List.range' 2 (min (n + 1) (kw.maxCombinationLen + 1) - 2)

/-- The body of the double loop at `(i, j)`, both positive. -/
def bestCell (kw : DpKwargs α) (studentTokens teacherTokens : List Token)
    (dp : List (List (Cell α))) (i j : ℕ) : Cell α :=
  let studentVal := studentTokens.getD (i - 1) []
  let teacherVal := teacherTokens.getD (j - 1) []
  let matchScore :=
    if stringsEqualFlexible studentVal teacherVal kw.ignoreLeadingCharDiff
    then kw.exactMatchScore else -kw.exactMatchScore
  let diag : Cell α := ⟨scoreAt dp (i - 1) (j - 1) + matchScore,.diag⟩
  let up : Cell α := ⟨scoreAt dp (i - 1) j + kw.gapPenalty,.up⟩
  let left : Cell α := ⟨scoreAt dp i (j - 1) + kw.gapPenalty,.left⟩
  let overTeacher : List (Cell α) := (combinationLengths kw j).filterMap fun k =>
    if stringsEqualFlexible studentVal (slice teacherTokens (j - k) j).flatten
        kw.ignoreLeadingCharDiff
    then some ⟨scoreAt dp (i - 1) (j - k) + kw.combinationScoreMultiplier * k,.combS1OverS2 k⟩
    else none
  let overStudent : List (Cell α) := (combinationLengths kw i).filterMap fun k =>
    if stringsEqualFlexible teacherVal (slice studentTokens (i - k) i).flatten
        kw.ignoreLeadingCharDiff
    then some ⟨scoreAt dp (i - k) (j - 1) + kw.combinationScoreMultiplier * k,.combS2OverS1 k⟩
    else none
  (up :: left :: overTeacher ++ overStudent).foldl better diag

/-- The entry after `row` in the row after `rows`. -/
def nextCell (kw : DpKwargs α) (studentTokens teacherTokens : List Token)
    (rows : List (List (Cell α))) (row : List (Cell α)) : Cell α :=
  let dp := rows ++ [row]
  match rows.length, row.length with
  | 0, 0 => ⟨0,.origin⟩
  | i + 1, 0 => ⟨scoreAt dp i 0 + kw.gapPenalty,.up⟩
  | 0, j + 1 => ⟨scoreAt dp 0 j + kw.gapPenalty,.left⟩
  | i + 1, j + 1 => bestCell kw studentTokens teacherTokens dp (i + 1) (j + 1)

/-- `dp` and `trace`. -/
def dpTable (kw : DpKwargs α) (studentTokens teacherTokens : List Token) : List (List (Cell α)) :=
  tabulate (fun rows =>
    tabulate (nextCell kw studentTokens teacherTokens rows) (teacherTokens.length + 1))
    (studentTokens.length + 1)

/-- `trace[i, j]`. -/
def moveAt (table : List (List (Cell α))) (i j : ℕ) : Move :=
  ((table[i]?.bind fun row => row[j]?).map Cell.move).getD .origin

end

/-- The pair of a move that ends at `(i, j)`, and where the move comes from; the trace ends
at an entry that is no move. -/
def traceStep (studentTokens teacherTokens : List Token) (i j : ℕ) :
    Move → Option (AlignmentPair × ℕ × ℕ)
  | .origin => none
  | .diag =>
    some (⟨.span studentTokens (i - 1) i,.span teacherTokens (j - 1) j,false⟩,i - 1,j - 1)
  | .up => some (⟨.span studentTokens (i - 1) i,.gap,false⟩,i - 1,j)
  | .left => some (⟨.gap,.span teacherTokens (j - 1) j,false⟩,i,j - 1)
  | .combS1OverS2 k =>
    some (⟨.span studentTokens (i - 1) i,.span teacherTokens (j - k) j,false⟩,i - 1,j - k)
  | .combS2OverS1 k =>
    some (⟨.span studentTokens (i - k) i,.span teacherTokens (j - 1) j,false⟩,i - k,j - 1)

/-- The pairs of the trace from `(i, j)` back, in front of those found already. -/
def traceBack (trace : ℕ → ℕ → Move) (studentTokens teacherTokens : List Token) :
    ℕ → ℕ → ℕ → List AlignmentPair → List AlignmentPair
  | 0, _, _, aligned => aligned
  | fuel + 1, i, j, aligned =>
    if i = 0 ∧ j = 0 then aligned
    else match traceStep studentTokens teacherTokens i j (trace i j) with
      | none => aligned
      | some (pair,i',j') => traceBack trace studentTokens teacherTokens fuel i' j' (pair :: aligned)

section
variable {α : Type*} [Zero α] [Add α] [Neg α] [Mul α] [NatCast α] [LT α] [DecidableLT α]

def alignDp (kw : DpKwargs α) (studentTokens teacherTokens : List Token) :
    List AlignmentPair × α :=
  let n1 := studentTokens.length
  let n2 := teacherTokens.length
  let table := dpTable kw studentTokens teacherTokens
  (traceBack (moveAt table) studentTokens teacherTokens (n1 + n2) n1 n2 [],scoreAt table n1 n2)

end

/-- An anchor `(i, j, k)`: the `k` tokens from `i` on and those from `j` on agree. -/
structure Anchor where
  i : ℕ
  j : ℕ
  k : ℕ
  deriving DecidableEq

def ngrams (k : ℕ) (tokens : List Token) : List (List Token) :=
  (List.range (tokens.length + 1 - k)).map fun i => slice tokens i (i + k)

/-- The anchors of one length: n-grams that each sequence has exactly once. They are listed
in student order; what is made of them does not depend on the order of the source's sets,
as they are sorted first. -/
def potentialAnchors (studentTokens teacherTokens : List Token) (k : ℕ) : List Anchor :=
  (List.range (studentTokens.length + 1 - k)).filterMap fun i =>
    let ngram := slice studentTokens i (i + k)
    let teacherNgrams := ngrams k teacherTokens
    let j := teacherNgrams.idxOf ngram
    if (ngrams k studentTokens).count ngram = 1 ∧ teacherNgrams.count ngram = 1 ∧
        i + k ≤ studentTokens.length ∧ j + k ≤ teacherTokens.length ∧
        slice studentTokens i (i + k) = slice teacherTokens j (j + k)
    then some ⟨i,j,k⟩ else none

/-- The keys of the two sorts: longer anchors first, and then in order of position. -/
def Anchor.byLength (a : Anchor) : ℤ ×ₗ ℕ ×ₗ ℕ := toLex (-(a.k : ℤ),toLex (a.i,a.j))

def Anchor.byPosition (a : Anchor) : ℕ ×ₗ ℕ ×ₗ ℕ := toLex (a.i,toLex (a.j,a.k))

def selectAnchors : Finset ℕ → Finset ℕ → List Anchor → List Anchor
  | _, _, [] => []
  | usedStudent, usedTeacher, a :: anchors =>
    let r1 := Finset.Ico a.i (a.i + a.k)
    let r2 := Finset.Ico a.j (a.j + a.k)
    if Disjoint r1 usedStudent ∧ Disjoint r2 usedTeacher then
      a :: selectAnchors (usedStudent ∪ r1) (usedTeacher ∪ r2) anchors
    else selectAnchors usedStudent usedTeacher anchors

def validateAnchors (studentTokens teacherTokens : List Token) : ℤ → List Anchor → List Anchor
  | _, [] => []
  | lastJ, a :: anchors =>
    if lastJ < a.j ∧ slice studentTokens a.i (a.i + a.k) = slice teacherTokens a.j (a.j + a.k) then
      a :: validateAnchors studentTokens teacherTokens (a.j + a.k - 1) anchors
    else validateAnchors studentTokens teacherTokens lastJ anchors

def findAnchors (studentTokens teacherTokens : List Token) (anchorLengths : List ℕ) : List Anchor :=
  let potential := (anchorLengths.flatMap (potentialAnchors studentTokens teacherTokens)).insertionSort
    fun a b => a.byLength ≤ b.byLength
  let selected := (selectAnchors ∅ ∅ potential).insertionSort fun a b => a.byPosition ≤ b.byPosition
  validateAnchors studentTokens teacherTokens (-1) selected

/-- A pair of `_shift_pairs`; a span over the same tokens is split into 1-1 matches. -/
def shiftPair (shiftS shiftT : ℤ) (pair : AlignmentPair) : List AlignmentPair :=
  let s := pair.s.shift shiftS
  let t := pair.t.shift shiftT
  if 1 < pair.s.tokens.length ∧ pair.s.tokens.length = pair.t.tokens.length ∧
      pair.s.tokens = pair.t.tokens ∧ 0 ≤ s.start ∧ 0 ≤ t.start then
    oneToOne s.start pair.s.tokens t.start pair.t.tokens
  else [⟨s,t,false⟩]

def shiftPairs (pairs : List AlignmentPair) (shiftS shiftT : ℤ) : List AlignmentPair :=
  pairs.flatMap (shiftPair shiftS shiftT)

section
variable {α : Type*} [Zero α] [Add α] [Neg α] [Mul α] [NatCast α] [LT α] [DecidableLT α]

def alignSegment (kw : DpKwargs α) (studentSeg teacherSeg : List Token) (lastI lastJ : ℕ) :
    List AlignmentPair :=
  if studentSeg ≠ [] ∨ teacherSeg ≠ [] then
    shiftPairs (alignDp kw studentSeg teacherSeg).1 lastI lastJ
  else []

/-- The segments and anchors from `(lastI, lastJ)` on. -/
def alignSegments (kw : DpKwargs α) (studentTokens teacherTokens : List Token) :
    ℕ → ℕ → List Anchor → List AlignmentPair
  | lastI, lastJ, [] =>
    alignSegment kw (studentTokens.drop lastI) (teacherTokens.drop lastJ) lastI lastJ
  | lastI, lastJ, a :: anchors =>
    alignSegment kw (slice studentTokens lastI a.i) (slice teacherTokens lastJ a.j) lastI lastJ ++
      oneToOne a.i (slice studentTokens a.i (a.i + a.k)) a.j (slice teacherTokens a.j (a.j + a.k)) ++
      alignSegments kw studentTokens teacherTokens (a.i + a.k) (a.j + a.k) anchors

def alignWithAnchors (kw : DpKwargs α) (studentTokens teacherTokens : List Token)
    (anchorLengths : List ℕ) : List AlignmentPair × α :=
  if anchorLengths = [] then alignDp kw studentTokens teacherTokens
  else
    let validated := findAnchors studentTokens teacherTokens anchorLengths
    if validated = [] then alignDp kw studentTokens teacherTokens
    else (alignSegments kw studentTokens teacherTokens 0 0 validated,0)

end

end

/-- `"".join(canonical_token(t) for t in tokens)`. -/
def joinCanonical (tokens : List Token) : Token := tokens.flatMap canonicalToken

namespace AlignmentPair

/-- The third component of the pair's entry in `_build_pair_strings`. -/
def isMatch (pair : AlignmentPair) : Bool :=
  stringsEqualFlexible (joinCanonical pair.s.tokens) (joinCanonical pair.t.tokens) false

def isCoarse (pair : AlignmentPair) : Bool :=
  1 < pair.s.tokens.length && pair.s.tokens.length = pair.t.tokens.length &&
    pair.s.tokens = pair.t.tokens

end AlignmentPair

/-- `int(n * (1 - 0.2))`. -/
def endBoundary (n : ℕ) : ℕ := n * 4 / 5

def combineRun (run : List AlignmentPair) : AlignmentPair :=
  let counted := fun x : Side => decide (x.tokens ≠ [] ∧ x.start ≠ -1)
  ⟨.merge counted (run.map AlignmentPair.s),.merge counted (run.map AlignmentPair.t),false⟩

/-- The loop of `_combine_consecutive_misaligned` from index `i` on. -/
def combineFrom (boundary : ℕ) : ℕ → ℕ → List AlignmentPair → List AlignmentPair
  | 0, _, pairs => pairs
  | _, _, [] => []
  | fuel + 1, i, pair :: rest =>
    if i < boundary ∧ pair.isMatch = false ∧ rest ≠ [] then
      let run := pair :: (rest.take (boundary - (i + 1))).takeWhile fun next => !next.isMatch
      if 2 ≤ run.length then
        combineRun run :: combineFrom boundary fuel (i + run.length) ((pair :: rest).drop run.length)
      else pair :: combineFrom boundary fuel (i + 1) rest
    else pair :: combineFrom boundary fuel (i + 1) rest

def combineConsecutiveMisaligned (pairs : List AlignmentPair) : List AlignmentPair :=
  if pairs.length < 2 then pairs
  else combineFrom (endBoundary pairs.length) pairs.length 0 pairs

/-- `align_cache`, the latest entry first. -/
abbrev AlignCache := List ((List Token × List Token) × List AlignmentPair × Bool)

/-- `_flatten_chunk` with the bounds of the two sides: sides without tokens do not count. -/
def flattenChunk (chunk : List AlignmentPair) : AlignmentPair :=
  let counted := fun x : Side => decide (x.tokens ≠ [])
  ⟨.merge counted (chunk.map AlignmentPair.s),.merge counted (chunk.map AlignmentPair.t),false⟩

section
variable {α : Type*} [Zero α] [Add α] [Neg α] [Mul α] [NatCast α] [LT α] [DecidableLT α]

def subAlign (kw : DpKwargs α) (key : List Token × List Token) : List AlignmentPair × Bool :=
  let subPairs := (alignDp kw key.1 key.2).1
  (subPairs,subPairs.all AlignmentPair.isMatch)

/-- What replaces a chunk: its new pairs if they all match, and else one pair for all of it. -/
def realignChunk (sub : List AlignmentPair × Bool) (whole : AlignmentPair) : List AlignmentPair :=
  if sub.2 then
    sub.1.map fun pair => ⟨pair.s.shift whole.s.start,pair.t.shift whole.t.start,false⟩
  else [whole]

def cachedAlign (kw : DpKwargs α) (cache : AlignCache) (key : List Token × List Token) :
    (List AlignmentPair × Bool) × AlignCache :=
  match cache.lookup key with
  | some sub => (sub,cache)
  | none => (subAlign kw key,(key,subAlign kw key) :: cache)

/-- The first chunk size whose two texts agree: the pairs in its place, the size, and the
cache. -/
def findChunk (kw : DpKwargs α) (cache : AlignCache) (pairs : List AlignmentPair) :
    List ℕ → Option (List AlignmentPair × ℕ × AlignCache)
  | [] => none
  | chunkSize :: sizes =>
    let whole := flattenChunk (pairs.take chunkSize)
    if whole.isMatch then
      let sub := cachedAlign kw cache (whole.s.tokens,whole.t.tokens)
      some (realignChunk sub.1 whole,chunkSize,sub.2)
    else findChunk kw cache pairs sizes

/-- The loop of `_post_process_alignment` over the pairs that are left. -/
def processFrom (kw : DpKwargs α) : ℕ → AlignCache → List AlignmentPair → List AlignmentPair
  | 0, _, pairs => pairs
  | _, _, [] => []
  | fuel + 1, cache, cur :: rest =>
    if cur.isCoarse then
      oneToOne cur.s.start cur.s.tokens cur.t.start cur.t.tokens ++ processFrom kw fuel cache rest
    else
      let good := (cur :: rest).takeWhile AlignmentPair.isMatch
      match (cur :: rest).dropWhile AlignmentPair.isMatch with
      | [] => cur :: rest
      | bad :: after =>
        let maxChunk := min 10 (bad :: after).length
        match findChunk kw cache (bad :: after) (List.range' 2 (maxChunk - 1)) with
        | some (found,chunkSize,cache) =>
          good ++ found ++ processFrom kw fuel cache ((bad :: after).drop chunkSize)
        | none => good ++ bad :: processFrom kw fuel cache after

def postProcessAlignment (kw : DpKwargs α) (pairs : List AlignmentPair) : List AlignmentPair :=
  let combined := combineConsecutiveMisaligned pairs
  processFrom kw combined.length [] combined

end

/-- `xs[i]` for an index that may be negative; `none` is `IndexError`. -/
def item {β : Type*} (xs : List β) (i : ℤ) : Option β :=
  if 0 ≤ i then xs[i.toNat]?
  else if -(xs.length : ℤ) ≤ i then xs[(xs.length + i).toNat]?
  else none

def Side.remap (canonToOrig : List Range) (x : Side) : Option Side :=
  if x.start ≠ -1 then
    (item canonToOrig x.start).bind fun first =>
      (item canonToOrig (x.stop - 1)).map fun last => ⟨x.tokens,first.1,last.2⟩
  else some x

def remapPairsToOriginal (studentCanonToOrig teacherCanonToOrig : List Range)
    (pairs : List AlignmentPair) : Option (List AlignmentPair) :=
  pairs.mapM fun pair =>
    (pair.s.remap studentCanonToOrig).bind fun s =>
      (pair.t.remap teacherCanonToOrig).map fun t => ⟨s,t,pair.isCorrect⟩

section
variable {α : Type*} [Zero α] [Add α] [Neg α] [Mul α] [NatCast α] [LT α] [DecidableLT α]

/-- The default of `anchor_lengths`. -/
def defaultAnchorLengths : List ℕ := [3]

theorem defaultAnchorLengths_pos : ∀ k ∈ defaultAnchorLengths, 0 < k := by decide

/-- `_align_single`; `none` is an `AssertionError` or `IndexError`. -/
def alignSingle (maxCombinationLen : ℕ) (scoring : Scoring α) (anchorLengths : List ℕ)
    (studentTokens teacherTokens : List Token) : Option (List AlignmentPair) :=
  (canonicalizeSequence studentTokens).bind fun student =>
    (canonicalizeSequence teacherTokens).bind fun teacher =>
      let kw : DpKwargs α := ⟨scoring,maxCombinationLen,false⟩
      let aligned := (alignWithAnchors kw student.1 teacher.1 anchorLengths).1
      let processed := postProcessAlignment kw aligned
      (remapPairsToOriginal student.2 teacher.2 processed).map fun pairs =>
        pairs.map fun pair => ⟨pair.s,pair.t,pair.isMatch⟩

end

/-- The tensors of the source, as lists of rows. -/
structure AlignmentBatch where
  pairValid : List (List Bool)
  pairIsCorrect : List (List Bool)
  studentExactPartitionMask : List (List Bool)
  teacherExactPartitionMask : List (List Bool)
  studentChunkId : List (List ℤ)
  teacherChunkId : List (List ℤ)
  numChunks : List ℤ
  deriving DecidableEq

/-- `row[start:stop] = value`, for `0 ≤ start` and `stop` within the row. -/
def writeSpan {β : Type*} (start stop : ℤ) (value : β) (row : List β) : List β :=
  row.mapIdx fun x old => if start ≤ (x : ℤ) ∧ (x : ℤ) < stop then value else old

/-- The writes to a row of `student_chunk_id` or `teacher_chunk_id`, for the sides of the
pairs from index `pairI` on. -/
def writeChunkIds (length : ℕ) : ℕ → List Side → List ℤ → List ℤ
  | _, [], row => row
  | pairI, x :: sides, row =>
    writeChunkIds length (pairI + 1) sides
      (if x.start ≠ -1 ∧ x.stop ≠ -1 ∧ (0 ≤ x.start ∧ x.start < (length : ℤ)) ∧
          (0 < x.stop ∧ x.stop ≤ (length : ℤ))
       then writeSpan x.start x.stop (pairI : ℤ) row else row)

def chunkIds (length : ℕ) (sides : List Side) : List ℤ :=
  writeChunkIds length 0 sides (List.replicate length (-1))

/-- A pair of one token on either side whose texts agree. -/
def AlignmentPair.isExact (pair : AlignmentPair) : Bool :=
  pair.isCorrect && pair.s.start ≠ -1 && pair.t.start ≠ -1 &&
    pair.s.stop - pair.s.start = 1 && pair.t.stop - pair.t.start = 1

def partitionMask (length : ℕ) (sides : List Side) : List Bool :=
  sides.foldl (fun row (x : Side) =>
    if 0 ≤ x.start ∧ x.start < (length : ℤ) then writeSpan x.start (x.start + 1) true row else row)
    (List.replicate length false)

/-- `torch.zeros` with the row's values written from the left. -/
def padRow (length : ℕ) (row : List Bool) : List Bool :=
  row ++ List.replicate (length - row.length) false

/-- `_pairs_to_batch`, for as many samples as there are lists of pairs. -/
def pairsToBatch (perSamplePairs : List (List AlignmentPair)) (tS tT : ℕ) : AlignmentBatch :=
  let maxPairs := max ((perSamplePairs.map List.length).foldl max 0) 1
  { pairValid := perSamplePairs.map fun pairs => padRow maxPairs (pairs.map fun _ => true)
    pairIsCorrect := perSamplePairs.map fun pairs =>
      padRow maxPairs (pairs.map AlignmentPair.isCorrect)
    studentExactPartitionMask := perSamplePairs.map fun pairs =>
      partitionMask tS ((pairs.filter AlignmentPair.isExact).map AlignmentPair.s)
    teacherExactPartitionMask := perSamplePairs.map fun pairs =>
      partitionMask tT ((pairs.filter AlignmentPair.isExact).map AlignmentPair.t)
    studentChunkId := perSamplePairs.map fun pairs => chunkIds tS (pairs.map AlignmentPair.s)
    teacherChunkId := perSamplePairs.map fun pairs => chunkIds tT (pairs.map AlignmentPair.t)
    numChunks := perSamplePairs.map fun pairs => (pairs.length : ℤ) }

/-- The side begins at `a` and ends after its tokens, or it has none and holds the sentinels. -/
def Side.Placed (a : ℤ) (x : Side) : Prop :=
  (x.tokens = [] ∧ x.start = -1 ∧ x.stop = -1) ∨
    (x.tokens ≠ [] ∧ x.start = a ∧ x.stop = a + x.tokens.length)

def Chain : ℤ → List Side → Prop
  | _, [] => True
  | a, x :: sides => x.Placed a ∧ Chain (a + x.tokens.length) sides

def covered (sides : List Side) : List Token := sides.flatMap Side.tokens

section
variable {a d : ℤ} {x : Side} {sides more : List Side} {tokens : List Token}

@[simp] theorem covered_nil : covered [] = [] := rfl

@[simp] theorem covered_cons : covered (x :: sides) = x.tokens ++ covered sides := rfl

@[simp] theorem covered_append : covered (sides ++ more) = covered sides ++ covered more :=
  List.flatMap_append

@[simp] theorem chain_nil : Chain a [] := trivial

@[simp] theorem chain_cons :
    Chain a (x :: sides) ↔ x.Placed a ∧ Chain (a + x.tokens.length) sides := Iff.rfl

theorem chain_append :
    Chain a (sides ++ more) ↔ Chain a sides ∧ Chain (a + (covered sides).length) more := by
  induction sides generalizing a with
  | nil => simp
  | cons x sides ih => simp [ih,and_assoc,add_assoc]

namespace Side

theorem placed_gap : gap.Placed a := Or.inl ⟨rfl,rfl,rfl⟩

theorem Placed.of_nonempty (h : x.Placed a) (hne : x.tokens ≠ []) :
    x.start = a ∧ x.stop = a + x.tokens.length := by
  rcases h with ⟨hnil,-⟩ | ⟨-,h⟩
  · exact absurd hnil hne
  · exact h

theorem Placed.of_empty (h : x.Placed a) (hnil : x.tokens = []) : x.start = -1 ∧ x.stop = -1 := by
  rcases h with ⟨-,h⟩ | ⟨hne,-⟩
  · exact h
  · exact absurd hnil hne

/-- The tokens of a side that is placed from `0` on do not bring it to the sentinel. -/
theorem Placed.start_ne (h : x.Placed a) (ha : 0 ≤ a) (hne : x.tokens ≠ []) : x.start ≠ -1 := by
  have hstart := (h.of_nonempty hne).1
  omega

@[simp] theorem tokens_shift : (x.shift d).tokens = x.tokens := rfl

theorem Placed.shift_empty {b : ℤ} (h : x.Placed a) (hnil : x.tokens = []) :
    (x.shift d).Placed b := by
  obtain ⟨hstart,hstop⟩ := h.of_empty hnil
  exact Or.inl ⟨hnil,by simp [Side.shift,hstart],by simp [Side.shift,hstop]⟩

theorem Placed.shift (h : x.Placed a) (ha : 0 ≤ a) : (x.shift d).Placed (a + d) := by
  by_cases hnil : x.tokens = []
  · exact h.shift_empty hnil
  · obtain ⟨hstart,hstop⟩ := h.of_nonempty hnil
    have hstart' : (x.shift d).start = x.start + d := if_pos (by omega)
    have hstop' : (x.shift d).stop = x.stop + d := if_pos (by omega)
    refine Or.inr ⟨hnil,by rw [hstart',hstart],?_⟩
    rw [hstop',hstop,tokens_shift]
    exact add_right_comm _ _ _

end Side

@[simp] theorem covered_shift : covered (sides.map (Side.shift d)) = covered sides := by
  induction sides with
  | nil => rfl
  | cons x sides ih => simp [ih]

theorem chain_shift (h : Chain a sides) (ha : 0 ≤ a) : Chain (a + d) (sides.map (Side.shift d)) := by
  induction sides generalizing a with
  | nil => exact chain_nil
  | cons x sides ih =>
    have htail := ih h.2 (by omega)
    have hstart : a + x.tokens.length + d = a + d + x.tokens.length := add_right_comm _ _ _
    rw [hstart] at htail
    exact ⟨h.1.shift ha,htail⟩

/-- Sides without tokens are in place anywhere. -/
theorem chain_of_covered_nil {b : ℤ} (h : Chain a sides) (hnil : covered sides = []) :
    Chain b (sides.map (Side.shift d)) := by
  induction sides generalizing a b with
  | nil => exact chain_nil
  | cons x sides ih =>
    obtain ⟨hx,hrest⟩ := List.append_eq_nil_iff.mp hnil
    exact ⟨h.1.shift_empty hx,ih h.2 hrest⟩

/-- What counts in a merge: the sides that have tokens. -/
def Counts (counted : Side → Bool) (sides : List Side) : Prop :=
  ∀ x ∈ sides, counted x = decide (x.tokens ≠ [])

variable {counted : Side → Bool}

theorem merge_bounds (h : Chain a sides) (hcounted : Counts counted sides) :
    if covered sides = [] then sides.filter counted = []
    else ((sides.filter counted).map Side.start).min? = some a ∧
      ((sides.filter counted).map Side.stop).max? = some (a + (covered sides).length) := by
  induction sides generalizing a with
  | nil => simp
  | cons x sides ih =>
    have htail := ih h.2 fun y hy => hcounted y (List.mem_cons_of_mem x hy)
    have hx := hcounted x List.mem_cons_self
    by_cases hnil : x.tokens = []
    · have hskip : (x :: sides).filter counted = sides.filter counted :=
        List.filter_cons_of_neg (by simp [hx,hnil])
      rw [hskip,covered_cons,hnil,List.nil_append]
      simpa [hnil] using htail
    · have hkeep : (x :: sides).filter counted = x :: sides.filter counted :=
        List.filter_cons_of_pos (by simp [hx,hnil])
      obtain ⟨hstart,hstop⟩ := h.1.of_nonempty hnil
      have hne : covered (x :: sides) ≠ [] := by simp [hnil]
      rw [if_neg hne,hkeep,List.map_cons,List.map_cons,List.min?_cons,List.max?_cons]
      by_cases hrest : covered sides = []
      · rw [if_pos hrest] at htail
        simp [htail,hrest,hstart,hstop]
      · rw [if_neg hrest] at htail
        rw [htail.1,htail.2]
        constructor
        · show some (min x.start (a + x.tokens.length)) = some a
          congr 1
          omega
        · show some (max x.stop (a + x.tokens.length + (covered sides).length)) = _
          rw [covered_cons,List.length_append]
          congr 1
          omega

/-- The merged side stands where its parts stood. -/
theorem placed_merge (h : Chain a sides) (hcounted : Counts counted sides) :
    (Side.merge counted sides).Placed a := by
  have hbounds := merge_bounds h hcounted
  by_cases hnil : covered sides = []
  · rw [if_pos hnil] at hbounds
    exact Or.inl ⟨hnil,by simp [Side.merge,hbounds],by simp [Side.merge,hbounds]⟩
  · rw [if_neg hnil] at hbounds
    exact Or.inr ⟨hnil,by simp [Side.merge,hbounds.1],by simp [Side.merge,hbounds.2,covered]⟩

@[simp] theorem tokens_merge : (Side.merge counted sides).tokens = covered sides := rfl

theorem counts_tokens : Counts (fun x => decide (x.tokens ≠ [])) sides := fun _ _ => rfl

/-- On a chain from `0` on, a side with tokens has a start. -/
theorem counts_start (h : Chain a sides) (ha : 0 ≤ a) :
    Counts (fun x => decide (x.tokens ≠ [] ∧ x.start ≠ -1)) sides := by
  induction sides generalizing a with
  | nil => exact fun x hx => absurd hx List.not_mem_nil
  | cons y sides ih =>
    intro x hx
    rcases List.mem_cons.mp hx with rfl | hmem
    · by_cases hnil : x.tokens = []
      · simp [hnil]
      · simp [hnil,h.1.start_ne ha hnil]
    · exact ih h.2 (by omega) x hmem

end
end XToken
end DockyardRL
