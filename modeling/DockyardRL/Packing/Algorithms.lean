import DockyardRL.Lib.BinPacking
import Mathlib.Data.List.Sort
import Mathlib.Data.List.Nodup

/-! The sequence-packing algorithms behind `pack_sequences`. A pack is a list of
indices into `lengths`. Random shuffling draws from a generator that is only known
to answer within the range it is asked for. -/
namespace DockyardRL
namespace Packing

open BinPacking

abbrev Pack := List ℕ
abbrev PackList := List Pack

/-- The exceptions of `pack_sequences`. -/
inductive PackError
  | valueError (idx seqLen maxPackSize : ℕ)
  | keyError (algorithm : String)
  deriving DecidableEq

/-- The texts; the name is shown as `repr` shows a name without quotes or escapes. -/
def PackError.message : PackError → String
  | .valueError idx seqLen maxPackSize =>
    s!"Sequence {idx} has length {seqLen} which exceeds max_pack_size={maxPackSize}."
  | .keyError algorithm =>
    s!"Unknown packing algorithm: '{algorithm}'. " ++
      "Available: ['dp', 'dp_packing', 'ffd', 'first_fit_decreasing', 'online', 'online_packing', " ++
      "'shuffle', 'shuffle_packing']."

/-- A seeded generator: `randbelow s n` is below `n`. -/
structure Generator where
  State : Type
  seeded : Option ℤ → State
  randbelow : State → ℕ → ℕ × State
  randbelow_lt : ∀ s n, 0 < n → (randbelow s n).1 < n

/-- `lengths[idx]`. -/
def lengthAt (lengths : List ℕ) (idx : ℕ) : ℕ := lengths.getD idx 0

/-- `sorted(range(len(lengths)), key=..., reverse=True)`, which is stable. -/
def descending (lengths : List ℕ) : List ℕ :=
  (List.range lengths.length).insertionSort fun i j => lengthAt lengths j ≤ lengthAt lengths i

/-- The open packs with their remaining capacities. -/
structure Bins where
  packs : PackList
  remaining : List ℕ

/-- Put a sequence into the first pack with enough room, else open one. -/
def firstFit (maxPackSize idx seqLen : ℕ) (b : Bins) : Bins :=
  match b.remaining.findIdx? (fun cap => decide (cap ≥ seqLen)) with
  | some packIdx => ⟨b.packs.modify packIdx (· ++ [idx]),b.remaining.modify packIdx (· - seqLen)⟩
  | none => ⟨b.packs ++ [[idx]],b.remaining ++ [maxPackSize - seqLen]⟩

/-- The loop shared by `first_fit_decreasing` and `shuffle_packing`. -/
def packInOrder (lengths : List ℕ) (maxPackSize : ℕ) : List ℕ → Bins → Except PackError PackList
  | [], b => .ok b.packs
  | idx :: order, b =>
    let seqLen := lengthAt lengths idx
    if seqLen > maxPackSize then .error (.valueError idx seqLen maxPackSize)
    else packInOrder lengths maxPackSize order (firstFit maxPackSize idx seqLen b)

def firstFitDecreasing (lengths : List ℕ) (maxPackSize : ℕ) : Except PackError PackList :=
  packInOrder lengths maxPackSize (descending lengths) ⟨[],[]⟩

def swap (x : List ℕ) (i j : ℕ) : List ℕ :=
  match x[i]?, x[j]? with
  | some a, some b => (x.set i b).set j a
  | _, _ => x

/-- `Random.shuffle`: for `i` from `len(x) - 1` down to `1`, exchange `x[i]` with a drawn `x[j]`. -/
def shuffleFrom (rng : Generator) : ℕ → rng.State → List ℕ → List ℕ
  | 0, _, x => x
  | i + 1, s, x =>
    let (j,s') := rng.randbelow s (i + 2)
    shuffleFrom rng i s' (swap x (i + 1) j)

def shuffle (rng : Generator) (seed : Option ℤ) (x : List ℕ) : List ℕ :=
  shuffleFrom rng (x.length - 1) (rng.seeded seed) x

def shufflePacking (rng : Generator) (lengths : List ℕ) (maxPackSize : ℕ) (seed : Option ℤ) :
    Except PackError PackList :=
  packInOrder lengths maxPackSize (shuffle rng seed (List.range lengths.length)) ⟨[],[]⟩

/-- The table `dp`: at `c` a pack of total length `c`, if one is known. -/
abbrev Table := List (Option Pack)

/-- The body of the inner loop at capacity `c`. -/
def dpCell (lengths : List ℕ) (maxSequencesPerPack idx : ℕ) (dp : Table) (c : ℕ) : Table :=
  match dp.getD (c - lengthAt lengths idx) none with
  | none => dp
  | some pack =>
    let candidate := pack ++ [idx]
    if candidate.length ≤ maxSequencesPerPack then
      match dp.getD c none with
      | none => dp.set c (some candidate)
      | some best => if c > load (lengthAt lengths) best then dp.set c (some candidate) else dp
    else dp

/-- `for c in range(capacity, seq_len - 1, -1)`, of which `k` values are left. -/
def dpCells (lengths : List ℕ) (maxSequencesPerPack idx : ℕ) : ℕ → Table → Table
  | 0, dp => dp
  | k + 1, dp =>
    dpCells lengths maxSequencesPerPack idx k
      (dpCell lengths maxSequencesPerPack idx dp (lengthAt lengths idx + k))

def dpItem (lengths : List ℕ) (capacity maxSequencesPerPack : ℕ) (dp : Table) (idx : ℕ) : Table :=
  if lengthAt lengths idx > capacity then dp
  else dpCells lengths maxSequencesPerPack idx (capacity + 1 - lengthAt lengths idx) dp

def dpFill (lengths : List ℕ) (capacity maxSequencesPerPack : ℕ) (remaining : List ℕ) : Table :=
  remaining.foldl (dpItem lengths capacity maxSequencesPerPack) (some [] :: List.replicate capacity none)

def bestFill (dp : Table) (capacity : ℕ) : Pack :=
  ((List.range (capacity + 1)).reverse.findSome? fun c => dp.getD c none).getD []

def bestPack (lengths : List ℕ) (capacity maxSequencesPerPack first : ℕ) (rest : List ℕ) : Pack :=
  let best := bestFill (dpFill lengths capacity maxSequencesPerPack (first :: rest)) capacity
  if best.isEmpty then [first] else best

/-- `while remaining`: each turn places at least one of the sequences, so as many
turns as there are sequences suffice. -/
def dpLoop (lengths : List ℕ) (capacity maxSequencesPerPack : ℕ) : ℕ → List ℕ → PackList
  | 0, _ => []
  | _ + 1, [] => []
  | turns + 1, first :: rest =>
    let best := bestPack lengths capacity maxSequencesPerPack first rest
    best :: dpLoop lengths capacity maxSequencesPerPack turns
      ((first :: rest).filter fun i => i ∉ best)

def dpPacking (lengths : List ℕ) (maxPackSize : ℕ) (maxSequencesPerPack : ℕ) :
    Except PackError PackList :=
  .ok (dpLoop lengths maxPackSize maxSequencesPerPack lengths.length (descending lengths))

/-- The pack being filled and the closed ones. -/
structure Stream where
  packs : PackList
  currentPack : Pack
  currentFill : ℕ

/-- `if current_pack: packs.append(current_pack)`. -/
def Stream.close (s : Stream) : PackList :=
  if s.currentPack.isEmpty then s.packs else s.packs ++ [s.currentPack]

def Stream.push (s : Stream) (maxPackSize idx seqLen : ℕ) : Stream :=
  if s.currentFill + seqLen > maxPackSize then ⟨s.close,[idx],seqLen⟩
  else ⟨s.packs,s.currentPack ++ [idx],s.currentFill + seqLen⟩

/-- `for idx, seq_len in enumerate(lengths)`. -/
def onlineLoop (maxPackSize : ℕ) : ℕ → List ℕ → Stream → Except PackError PackList
  | _, [], s => .ok s.close
  | idx, seqLen :: lengths, s =>
    if seqLen > maxPackSize then .error (.valueError idx seqLen maxPackSize)
    else onlineLoop maxPackSize (idx + 1) lengths (s.push maxPackSize idx seqLen)

def onlinePacking (lengths : List ℕ) (maxPackSize : ℕ) : Except PackError PackList :=
  onlineLoop maxPackSize 0 lengths ⟨[],[],0⟩

abbrev Algorithm := List ℕ → ℕ → Option ℤ → Except PackError PackList

/-- `_ALGORITHM_REGISTRY`; `dp_packing` runs with its default of 32 sequences a pack. -/
def algorithmRegistry (rng : Generator) : List (String × Algorithm) :=
  [("first_fit_decreasing",fun lengths m _ => firstFitDecreasing lengths m),
    ("ffd",fun lengths m _ => firstFitDecreasing lengths m),
    ("shuffle",shufflePacking rng),
    ("shuffle_packing",shufflePacking rng),
    ("dp",fun lengths m _ => dpPacking lengths m 32),
    ("dp_packing",fun lengths m _ => dpPacking lengths m 32),
    ("online",fun lengths m _ => onlinePacking lengths m),
    ("online_packing",fun lengths m _ => onlinePacking lengths m)]

def packSequences (rng : Generator) (lengths : List ℕ) (maxPackSize : ℕ) (algorithm : String)
    (seed : Option ℤ) : Except PackError PackList :=
  match (algorithmRegistry rng).lookup algorithm with
  | none => .error (.keyError algorithm)
  | some fn => fn lengths maxPackSize seed

end Packing
end DockyardRL
